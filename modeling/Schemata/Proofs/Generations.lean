/-
  Generations of the schema data in a store.

  * `read?_save`: a save leaves the keys alone that a session is not kept under;
  * `save_generations`: whatever the store refuses, the schema data in it is then all new, all gone or
    all as it was.
-/
import Schemata.Proofs.SavedModel

namespace Schemata

open Log

namespace Keeper

variable {k : Keeper} {kept : Kept} {history : Option History} {store store' room : Store}
  {r : Except SettingsError SaveReport}

theorem mem_storageKeys_of_payload {key : String} (h : key ∈ (k.payload kept).keys) :
    key ∈ k.storageKeys :=
  List.mem_append_left [k.history.storageKey] (mem_keys_payload.1 h)

theorem dataKeys_subset (k : Keeper) : k.dataKeys ⊆ k.storageKeys := by
  intro key h
  simp only [dataKeys, storageKeys, List.mem_cons, List.not_mem_nil, or_false] at h ⊢
  tauto

/-- Writing a payload, whether it succeeds or not, leaves the other keys alone. -/
theorem read?_writeAll_payload {written : Store} {refused : Option String}
    (hwrite : writeAll room (k.payload kept).entries = (written, refused)) {key : String}
    (hkey : key ∉ (k.payload kept).keys) : written.read? key = room.read? key := by
  obtain hread | ⟨text, hmem, -⟩ := read?_writeAll room (k.payload kept).entries key
  · rwa [hwrite] at hread
  · exact absurd (List.mem_map_of_mem hmem) hkey

/-- Making room leaves all keys alone but those of the schema data, which are then as they were or
    gone. -/
theorem read?_makeRoom (k : Keeper) (store : Store) :
    (∀ key ∉ k.dataKeys, (k.makeRoom store).value.read? key = store.read? key) ∧
      ((k.makeRoom store).value = store ∨
        ∀ key ∈ k.dataKeys, (k.makeRoom store).value.read? key = none) := by
  rw [makeRoom_value]
  split
  · refine ⟨fun key hkey => ?_, .inr fun key hkey => ?_⟩
    · rw [Store.read?_removeAll, if_neg hkey]
    · rw [Store.read?_removeAll, if_pos hkey]
  · exact ⟨fun _ _ => rfl, .inl rfl⟩

/-- A save leaves the keys alone that a session is not kept under. -/
theorem read?_save {key : String} (hkey : key ∉ k.storageKeys) :
    (k.save kept history store).value.1.read? key = store.read? key := by
  have hpayload : key ∉ (k.payload kept).keys := fun hmem => hkey (mem_storageKeys_of_payload hmem)
  have hdata : key ∉ k.dataKeys := fun hmem => hkey (dataKeys_subset k hmem)
  have hhistory : key ≠ k.history.storageKey := by
    rintro rfl
    exact hkey (by simp [storageKeys])
  rw [← (read?_makeRoom k store).1 key hdata]
  obtain ⟨_, -, -, -, ⟨-, heq⟩ | ⟨-, written, _, hwrite, heq⟩⟩ | ⟨-, -, written, hwrite, hread⟩ :=
    (save_outcome k kept history store).cases
  · rw [heq]
  · rw [heq, Store.read?_removeAll, if_neg hdata, read?_writeAll_payload hwrite hpayload]
  · rw [hread key hhistory, read?_writeAll_payload hwrite hpayload]

/-- Nothing is under the keys of the schema data. -/
def Cleared (k : Keeper) (store : Store) : Prop := ∀ key ∈ k.dataKeys, store.read? key = none

/-- The schema data in a store is that in another one. -/
def SameData (k : Keeper) (store store' : Store) : Prop :=
  ∀ key ∈ k.dataKeys, store'.read? key = store.read? key

/-- **A save leaves one generation.** Whatever the store refuses, after a save of a model under distinct
    keys, with a history or without one, all schema data is that of the model if the save was reported,
    or if only the settings failed it; and if not, when a strict save fails, all of it is gone or all of
    it is as it was.  The keys that a session is not kept under are left alone.  A policy may go by the
    key of a write, so any of the writes may be the one that is refused. -/
theorem save_generations (hn : k.storageKeys.Nodup)
    (h : (k.save kept history store).value = (store', r)) :
    (∀ key ∉ k.storageKeys, store'.read? key = store.read? key) ∧
    (∀ error, r = .error error → k.Keeps kept store') ∧
    ∀ report, r = .ok report →
      (report.saved = true → report.strict = .ok report ∧ k.Keeps kept store') ∧
      (report.saved = false → (∃ error, report.strict = .error error) ∧
        (k.Cleared store' ∨ k.SameData store store')) := by
  have hframe (key : String) (hkey : key ∉ k.storageKeys) : store'.read? key = store.read? key := by
    have hread : (k.save kept history store).value.1.read? key = store.read? key := read?_save hkey
    rwa [h] at hread
  have houtcome := save_outcome k kept history store
  rw [h] at houtcome
  obtain ⟨report, rfl, hsaved, hstrict, hdata⟩ | ⟨hsaved, -, written, hwrite, hread⟩ :=
    houtcome.cases
  · have hgeneration : k.Cleared store' ∨ k.SameData store store' := by
      obtain ⟨-, rfl⟩ | ⟨-, written, key, hwrite, rfl⟩ := hdata
      · obtain hroom | hroom := (read?_makeRoom k store).2
        · exact .inr fun key _ => by rw [hroom]
        · exact .inl hroom
      · exact .inl fun key hkey => by rw [Store.read?_removeAll, if_pos hkey]
    refine ⟨hframe, nofun, ?_⟩
    rintro _ ⟨⟩
    refine ⟨fun htrue => ?_, fun _ => ⟨hstrict, hgeneration⟩⟩
    rw [hsaved] at htrue
    cases htrue
  · have hkeeps : k.Keeps kept store' := (keeps_of_writeAll hn hwrite).congr hn hread
    refine ⟨hframe, fun _ _ => hkeeps, fun report hreport => ?_⟩
    obtain ⟨hsaved, hstrict⟩ := hsaved report hreport
    refine ⟨fun _ => ⟨hstrict, hkeeps⟩, fun hfalse => ?_⟩
    rw [hsaved] at hfalse
    cases hfalse

/-- A store with schema data and an item of its host, which refuses the enum types. -/
def refusingStore : Store where
  items := .ofList [("edge-relationships", "\x7b\x7d"), ("theme", "dark")]
  accepts := Store.quotaPolicy none ["enum-types"]

/-- The last write of an empty model is refused, and with it all schema data is gone. -/
theorem save_generations_refusingStore : plainKeeper.storageKeys.Nodup ∧ ∃ store' report,
    (plainKeeper.save {} none refusingStore).value = (store', .ok report) ∧
      report.saved = false ∧ store'.read? "theme" = some "dark" ∧ plainKeeper.Cleared store' := by
  have hn : plainKeeper.storageKeys.Nodup := by decide
  obtain ⟨report, hreport, hsaved⟩ : ∃ report,
      (plainKeeper.save {} none refusingStore).value.2 = .ok report ∧ report.saved = false :=
    ⟨{ saved := false, size := 80, limit := 5242880, accepted := false, error := some ⟨125, 5242880⟩ },
      by decide +kernel, rfl⟩
  have hsave : (plainKeeper.save {} none refusingStore).value =
      ((plainKeeper.save {} none refusingStore).value.1, .ok report) := by rw [← hreport]
  obtain ⟨hother, -, hdata⟩ := save_generations hn hsave
  refine ⟨hn, _, report, hsave, hsaved, hother "theme" (by decide), ?_⟩
  obtain hcleared | hsame := ((hdata report rfl).2 hsaved).2
  · exact hcleared
  · have hbefore : refusingStore.read? "edge-relationships" = some "\x7b\x7d" := by decide
    have hafter : (plainKeeper.save {} none refusingStore).value.1.read? "edge-relationships" =
        none := by decide +kernel
    have hedges := hsame "edge-relationships" (by decide)
    rw [hbefore, hafter] at hedges
    cases hedges

end Keeper

end Schemata
