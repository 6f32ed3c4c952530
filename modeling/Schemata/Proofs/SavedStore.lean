/-
  What is in a store after a session was saved.

  * `holds_of_saveSession`: after a session was saved with its history, its parts and the newest
    entries of its history are under their keys;
  * `saveSession_of_room`: a store that refuses nothing takes a session that is within the budget.
-/
import Schemata.Proofs.SaveOutcomes
import Schemata.Proofs.StoredHistory
import Schemata.Store.Loading

namespace Schemata

open Log

namespace Keeper

variable {k : Keeper} {s : Session} {store store' : Store}

/-! ## Saving -/

/-- The keys that a session is kept under. -/
def storageKeys (k : Keeper) : List String :=
  [k.limits.tablesKey, k.limits.edgesKey, k.limits.visibleKey, k.limits.collapsedKey,
    k.limits.enumsKey, k.history.storageKey]

/-- The parts of a session and the newest entries of its history are under their keys. -/
structure Holds (k : Keeper) (s : Session) (store : Store) : Prop where
  tables : store.read? k.limits.tablesKey = some (Json.write .compact (tablesJson s.schema.tables))
  edges : store.read? k.limits.edgesKey =
    some (Json.write .compact (cardinalitiesJson s.cardinalities))
  enums : store.read? k.limits.enumsKey = some (Json.write .compact (enumsJson s.schema.enums))
  history : ∃ count, History.storedCount k.host.settings (some k.history.maxSaved) = .ok count ∧
    store.read? k.history.storageKey = some (s.history.writeNewest count)

/-- A save that stored the history wrote the payload and then the history. -/
theorem saveSession_cases {report : SaveReport}
    (h : (k.saveSession s store).value = (store', .ok report)) (hh : report.historySaved = true) :
    ∃ room written text, writeAll room (k.payload s.kept).entries = (written, none) ∧
      s.history.write k.host.settings (some k.history.maxSaved) = .ok text ∧
      store' = (written.write k.history.storageKey text).1 ∧
      (written.write k.history.storageKey text).2 = true := by
  have houtcome := save_outcome k s.kept (some s.history) store
  have hsave : (k.save s.kept (some s.history) store).value = (store', .ok report) := h
  rw [hsave] at houtcome
  cases houtcome with
  | whole _ hwrite hhistory htext haccepted =>
    cases hhistory
    exact ⟨_, _, _, hwrite, htext, rfl, haccepted⟩
  | tooLarge | refused | alone | stale => cases hh

theorem payload_entries (hn : k.storageKeys.Nodup) (kept : Kept) : (k.payload kept).entries =
    [(k.limits.tablesKey, Json.write .compact (tablesJson kept.schema.tables)),
      (k.limits.edgesKey, Json.write .compact (cardinalitiesJson kept.cardinalities)),
      (k.limits.visibleKey, namesText kept.visible),
      (k.limits.collapsedKey, namesText kept.collapsed),
      (k.limits.enumsKey, Json.write .compact (enumsJson kept.schema.enums))] := by
  have hdata : [k.limits.tablesKey, k.limits.edgesKey, k.limits.visibleKey, k.limits.collapsedKey,
      k.limits.enumsKey].Nodup := hn.sublist (List.sublist_append_left _ [k.history.storageKey])
  exact OrderedMap.entries_foldl_insert (m := {}) hdata

/-- The payload leaves the key of the history alone. -/
theorem storageKey_notMem (hn : k.storageKeys.Nodup) (kept : Kept) :
    k.history.storageKey ∉ (k.payload kept).entries.map Prod.fst := by
  have hsplit : ([k.limits.tablesKey, k.limits.edgesKey, k.limits.visibleKey, k.limits.collapsedKey,
      k.limits.enumsKey] ++ [k.history.storageKey]).Nodup := hn
  rw [payload_entries hn]
  exact fun hmem => (List.nodup_append.1 hsplit).2.2 _ hmem _ List.mem_cons_self rfl

theorem write_eq_writeNewest {h : History} {settings : Except SettingsError Settings}
    {n : Option Int} {text : String} (hw : h.write settings n = .ok text) :
    ∃ count, History.storedCount settings n = .ok count ∧ text = h.writeNewest count := by
  unfold History.write at hw
  cases hcount : History.storedCount settings n with
  | error e =>
    rw [hcount] at hw
    cases hw
  | ok count =>
    rw [hcount] at hw
    cases hw
    exact ⟨count, rfl, rfl⟩

/-- **Saving.** After a session was saved with its history, the store holds both. -/
theorem holds_of_saveSession {report : SaveReport} (hn : k.storageKeys.Nodup)
    (h : (k.saveSession s store).value = (store', .ok report)) (hh : report.historySaved = true) :
    k.Holds s store' := by
  obtain ⟨room, written, text, hall, htext, rfl, hwrite⟩ := saveSession_cases h hh
  obtain ⟨hmem, -⟩ := writeAll_none hall (k.payload s.kept).nodup
  have hpart {key value : String} (hm : (key, value) ∈ (k.payload s.kept).entries) :
      (written.write k.history.storageKey text).1.read? key = some value := by
    rw [Store.read?_write_of_ne, hmem (key, value) hm]
    rintro rfl
    exact storageKey_notMem hn s.kept (List.mem_map_of_mem hm)
  have hentries := payload_entries hn s.kept
  obtain ⟨count, hcount, rfl⟩ := write_eq_writeNewest htext
  refine ⟨hpart ?_, hpart ?_, hpart ?_, count, hcount, Store.read?_write_self hwrite⟩
  · rw [hentries]
    exact .head _
  · rw [hentries]
    exact .tail _ (.head _)
  · rw [hentries]
    exact .tail _ (.tail _ (.tail _ (.tail _ (.head _))))

/-! ## Room -/

/-- The size of a payload is the number of characters of its keys and of its texts. -/
theorem itemsSize_payload (hn : k.storageKeys.Nodup) (kept : Kept) : itemsSize (k.payload kept) =
    (k.limits.tablesKey.length +
        (Json.chars .compact 0 (tablesJson kept.schema.tables)).length) +
      ((k.limits.edgesKey.length +
          (Json.chars .compact 0 (cardinalitiesJson kept.cardinalities)).length) +
        ((k.limits.visibleKey.length +
            (Json.chars .spaced 0 (.strings (kept.visible.mergeSort textLE))).length) +
          ((k.limits.collapsedKey.length +
              (Json.chars .spaced 0 (.strings (kept.collapsed.mergeSort textLE))).length) +
            ((k.limits.enumsKey.length +
              (Json.chars .compact 0 (enumsJson kept.schema.enums)).length) + 0)))) := by
  rw [itemsSize, OrderedMap.sumBy, payload_entries hn]
  simp only [List.foldr, entrySize, namesText, Json.write, String.length_ofList]

theorem writeAll_of_accepts {l : List (String × String)}
    (h : ∀ items key text, store.accepts items key text = true) :
    ∃ store', writeAll store l = (store', none) ∧
      ∀ items key text, store'.accepts items key text = true := by
  induction l generalizing store with
  | nil => exact ⟨store, rfl, h⟩
  | cons e l ih =>
    have hwrite : store.write e.1 e.2 =
        ({ store with items := store.items.insert e.1 e.2 }, true) := if_pos (h ..)
    rw [writeAll, hwrite]
    exact ih h

/-- A session that fits is saved with its history in a store that refuses nothing. -/
theorem saveSession_of_room (haccepts : ∀ items key text, store.accepts items key text = true)
    (hstore : (store.size : Int) ≤ k.limits.maxTotal)
    (hsize : (itemsSize (k.payload s.kept) : Int) ≤ k.limits.maxTotal) {count : Int}
    (hcount : History.storedCount k.host.settings (some k.history.maxSaved) = .ok count) :
    ∃ store' report, (k.saveSession s store).value = (store', .ok report) ∧
      report.historySaved = true := by
  have hroom : k.makeRoom store = pure store := if_neg (by omega)
  obtain ⟨written, hwritten, haccepts⟩ :=
    writeAll_of_accepts (l := (k.payload s.kept).entries) haccepts
  have hpayload : (k.writePayload (k.payload s.kept) store).value = (written, none) := by
    rw [writePayload, hwritten]
    rfl
  have hwrite : s.history.write k.host.settings (some k.history.maxSaved) =
      .ok (s.history.writeNewest count) := by
    rw [History.write, hcount]
    rfl
  have hhistory : (k.saveHistory s.history written).value = ((written.write k.history.storageKey
      (s.history.writeNewest count)).1, .ok true) := by
    have hwritten : written.write k.history.storageKey (s.history.writeNewest count) =
        ({ written with
          items := written.items.insert k.history.storageKey (s.history.writeNewest count) },
          true) := if_pos (haccepts ..)
    rw [saveHistory, hwrite]
    dsimp only
    rw [Logged.value_bind, writeHistory, hwritten]
    rfl
  refine ⟨(written.write k.history.storageKey (s.history.writeNewest count)).1,
    ⟨true, itemsSize (k.payload s.kept), k.limits.maxTotal, true, true, none⟩, ?_, rfl⟩
  have hfits : ¬k.limits.maxTotal < (itemsSize (k.payload s.kept) : Int) := by omega
  simp only [saveSession, save, hroom, Logged.value_bind, Logged.value_pure, if_neg hfits, hpayload,
    hhistory]

end Keeper

end Schemata
