/-
  How a save ends, whatever writes the store refuses.

  * `Store.read?_removeAll`: what is under a key after removals;
  * `writeAll_none`: if no write is refused, every key has the text that was written under it, and
    all other keys are as they were; `read?_writeAll` is what is left of that if one is refused;
  * `SaveOutcome`: the ways in which a save can end, with the store and the answer that it leaves;
    `save_outcome`: it ends in one of them.
-/
import Schemata.Proofs.Maps
import Schemata.Store.Saving

namespace Schemata

open Log

namespace Store

variable {s : Store} {key key' text : String}

theorem read?_write_self (h : (s.write key text).2 = true) :
    (s.write key text).1.read? key = some text := by
  unfold write at h ⊢
  split at h
  · next ha =>
    rw [if_pos ha, read?, OrderedMap.get?_insert, if_pos rfl]
  · cases h

theorem read?_write_of_ne (hne : key' ≠ key) : (s.write key text).1.read? key' = s.read? key' := by
  unfold write
  split
  · rw [read?, OrderedMap.get?_insert, if_neg (Ne.symm hne), read?]
  · rfl

theorem read?_remove (s : Store) (key key' : String) :
    (s.remove key).read? key' = if key = key' then none else s.read? key' :=
  OrderedMap.get?_erase ..

/-- Under a key that is removed there is nothing, and under the others what there was. -/
theorem read?_removeAll (s : Store) (keys : List String) (key : String) :
    (s.removeAll keys).read? key = if key ∈ keys then none else s.read? key := by
  induction keys generalizing s with
  | nil => rfl
  | cons removed keys ih =>
    rw [removeAll, List.foldl_cons, ← removeAll, ih, read?_remove]
    by_cases hrest : key ∈ keys
    · rw [if_pos hrest, if_pos (List.mem_cons_of_mem _ hrest)]
    · rw [if_neg hrest]
      by_cases heq : removed = key
      · rw [if_pos heq, if_pos (heq ▸ List.mem_cons_self)]
      · rw [if_neg heq, if_neg (by simp [hrest, Ne.symm heq])]

theorem accepts_removeAll (s : Store) (keys : List String) : (s.removeAll keys).accepts = s.accepts := by
  induction keys generalizing s with
  | nil => rfl
  | cons key keys ih => exact ih (s.remove key)

end Store

namespace Keeper

variable {k : Keeper} {kept : Kept} {history : Option History} {store store' room : Store}
  {r : Except SettingsError SaveReport}

/-! ## Writing -/

theorem writeAll_none {l : List (String × String)} (h : writeAll store l = (store', none))
    (hn : (l.map Prod.fst).Nodup) :
    (∀ e ∈ l, store'.read? e.1 = some e.2) ∧
      ∀ key ∉ l.map Prod.fst, store'.read? key = store.read? key := by
  induction l generalizing store with
  | nil =>
    cases h
    exact ⟨nofun, fun _ _ => rfl⟩
  | cons e l ih =>
    rw [List.map_cons, List.nodup_cons] at hn
    rw [writeAll] at h
    split at h
    · next written hwrite =>
      obtain ⟨hmem, hother⟩ := ih h hn.2
      have hself := Store.read?_write_self (s := store) (congrArg Prod.snd hwrite)
      rw [hwrite] at hself
      refine ⟨fun e' he' => ?_, fun key hkey => ?_⟩
      · rcases List.mem_cons.1 he' with rfl | he'
        · rw [hother _ hn.1, hself]
        · exact hmem e' he'
      · rw [List.map_cons, List.mem_cons, not_or] at hkey
        have hne : (store.write e.1 e.2).1.read? key = store.read? key :=
          Store.read?_write_of_ne hkey.1
        rw [hwrite] at hne
        rw [hother key hkey.2, hne]
    · cases h

/-- After writes, also if one of them was refused, there is under a key what there was or a text that
    was to be written under it. -/
theorem read?_writeAll (store : Store) (l : List (String × String)) (key : String) :
    (writeAll store l).1.read? key = store.read? key ∨
      ∃ text, (key, text) ∈ l ∧ (writeAll store l).1.read? key = some text := by
  induction l generalizing store with
  | nil => exact .inl rfl
  | cons e l ih =>
    obtain ⟨key', text⟩ := e
    rw [writeAll]
    split
    · next written hwrite =>
      obtain hread | ⟨text', hmem, hread⟩ := ih written
      · by_cases heq : key = key'
        · subst heq
          have hself := Store.read?_write_self (s := store) (congrArg Prod.snd hwrite)
          rw [hwrite] at hself
          exact .inr ⟨text, List.mem_cons_self, hread.trans hself⟩
        · have hother : (store.write key' text).1.read? key = store.read? key :=
            Store.read?_write_of_ne heq
          rw [hwrite] at hother
          exact .inl (hread.trans hother)
      · exact .inr ⟨text', List.mem_cons_of_mem _ hmem, hread⟩
    · next written hwrite =>
      have hself := Store.write_eq_self (s := store) (congrArg Prod.snd hwrite)
      rw [hwrite] at hself
      exact .inl (congrArg (Store.read? · key) hself)

/-! ## Outcomes -/

theorem purge_store (k : Keeper) (store : Store) :
    (k.purge false store).value.1 = store.removeAll k.dataKeys := by
  have hkeys : k.dataKeys ++ (if false then [k.history.storageKey] else []) = k.dataKeys :=
    List.append_nil _
  show store.removeAll (k.dataKeys ++ if false then [k.history.storageKey] else []) = _
  rw [hkeys]

/-- Room is made by removing the schema data of a store that is over the budget. -/
theorem makeRoom_value (k : Keeper) (store : Store) : (k.makeRoom store).value =
    if k.limits.maxTotal < store.size then store.removeAll k.dataKeys else store := by
  unfold makeRoom
  split
  · exact purge_store k store
  · rfl

/-- A payload of which a write was refused is removed again. -/
theorem writePayload_value (k : Keeper) (payload : OrderedMap String) (store : Store) :
    (∃ written, writeAll store payload.entries = (written, none) ∧
      (k.writePayload payload store).value = (written, none)) ∨
    ∃ written key, writeAll store payload.entries = (written, some key) ∧
      (k.writePayload payload store).value = (written.removeAll k.dataKeys,
        some ⟨(written.removeAll k.dataKeys).size + itemsSize payload, k.limits.maxTotal⟩) := by
  unfold writePayload
  split
  · next written hwrite => exact .inl ⟨written, hwrite, rfl⟩
  · next written key hwrite =>
    refine .inr ⟨written, key, hwrite, ?_⟩
    rw [Logged.value_bind, Logged.value_bind, ← purge_store]
    rfl

/-- The text of a history is stored, or a stale one is removed. -/
theorem writeHistory_value (k : Keeper) (text : String) (store : Store) :
    (k.writeHistory text store).value =
      if (store.write k.history.storageKey text).2 then
        ((store.write k.history.storageKey text).1, true)
      else (store.remove k.history.storageKey, false) := by
  unfold writeHistory
  split
  · next written hwrite =>
    rw [hwrite, if_pos rfl]
    rfl
  · next written hwrite =>
    have hsame := Store.write_eq_self (s := store) (congrArg Prod.snd hwrite)
    rw [hwrite] at hsame
    obtain rfl : written = store := hsame
    rw [hwrite, if_neg Bool.false_ne_true]
    rfl

/-- The report on a payload that was written. -/
def savedReport (k : Keeper) (kept : Kept) (historySaved : Bool) : SaveReport where
  saved := true
  size := itemsSize (k.payload kept)
  limit := k.limits.maxTotal
  historySaved := historySaved

/-- The ways in which a save into a store with room can end. -/
inductive SaveOutcome (k : Keeper) (kept : Kept) (history : Option History) (room : Store) :
    Store → Except SettingsError SaveReport → Prop
  /-- The payload is over the budget, and nothing is written. -/
  | tooLarge (hsize : k.limits.maxTotal < (itemsSize (k.payload kept) : Int)) :
    SaveOutcome k kept history room room (.ok
      { saved := false, size := itemsSize (k.payload kept), limit := k.limits.maxTotal,
        error := some ⟨itemsSize (k.payload kept), k.limits.maxTotal⟩ })
  /-- A write of the payload is refused, and the schema data is removed. -/
  | refused {written : Store} {key : String}
    (hsize : (itemsSize (k.payload kept) : Int) ≤ k.limits.maxTotal)
    (hwrite : writeAll room (k.payload kept).entries = (written, some key)) :
    SaveOutcome k kept history room (written.removeAll k.dataKeys) (.ok
      { saved := false, size := itemsSize (k.payload kept), limit := k.limits.maxTotal,
        accepted := false
        error := some ⟨(written.removeAll k.dataKeys).size + itemsSize (k.payload kept),
          k.limits.maxTotal⟩ })
  /-- The payload is written, and there is no history to write. -/
  | alone {written : Store} (hsize : (itemsSize (k.payload kept) : Int) ≤ k.limits.maxTotal)
    (hwrite : writeAll room (k.payload kept).entries = (written, none)) (hhistory : history = none) :
    SaveOutcome k kept history room written (.ok (k.savedReport kept false))
  /-- The payload is written, and the settings do not say how much of the history is to be. -/
  | unsettled {written : Store} {h : History} {error : SettingsError}
    (hsize : (itemsSize (k.payload kept) : Int) ≤ k.limits.maxTotal)
    (hwrite : writeAll room (k.payload kept).entries = (written, none)) (hhistory : history = some h)
    (htext : h.write k.host.settings (some k.history.maxSaved) = .error error) :
    SaveOutcome k kept history room written (.error error)
  /-- The payload is written, and the history too. -/
  | whole {written : Store} {h : History} {text : String}
    (hsize : (itemsSize (k.payload kept) : Int) ≤ k.limits.maxTotal)
    (hwrite : writeAll room (k.payload kept).entries = (written, none)) (hhistory : history = some h)
    (htext : h.write k.host.settings (some k.history.maxSaved) = .ok text)
    (haccepted : (written.write k.history.storageKey text).2 = true) :
    SaveOutcome k kept history room (written.write k.history.storageKey text).1
      (.ok (k.savedReport kept true))
  /-- The payload is written; the history is refused, and its stale copy is removed. -/
  | stale {written : Store} {h : History} {text : String}
    (hsize : (itemsSize (k.payload kept) : Int) ≤ k.limits.maxTotal)
    (hwrite : writeAll room (k.payload kept).entries = (written, none)) (hhistory : history = some h)
    (htext : h.write k.host.settings (some k.history.maxSaved) = .ok text)
    (hrefused : (written.write k.history.storageKey text).2 = false) :
    SaveOutcome k kept history room (written.remove k.history.storageKey)
      (.ok (k.savedReport kept false))

/-- **How a save ends.** -/
theorem save_outcome (k : Keeper) (kept : Kept) (history : Option History) (store : Store) :
    SaveOutcome k kept history (k.makeRoom store).value (k.save kept history store).value.1
      (k.save kept history store).value.2 := by
  generalize hsave : (k.save kept history store).value = outcome
  simp only [save, Logged.value_bind] at hsave
  generalize (k.makeRoom store).value = room at hsave ⊢
  split at hsave
  · next hsize =>
    subst hsave
    exact .tooLarge hsize
  next hsize =>
  have hsize : (itemsSize (k.payload kept) : Int) ≤ k.limits.maxTotal := Int.not_lt.1 hsize
  rw [Logged.value_bind] at hsave
  obtain ⟨written, hwrite, hvalue⟩ | ⟨written, key, hwrite, hvalue⟩ :=
    writePayload_value k (k.payload kept) room
  · rw [hvalue] at hsave
    cases history with
    | none =>
      subst hsave
      exact .alone hsize hwrite rfl
    | some h =>
      dsimp only at hsave
      rw [Logged.value_bind, saveHistory] at hsave
      cases htext : h.write k.host.settings (some k.history.maxSaved) with
      | error error =>
        rw [htext] at hsave
        subst hsave
        exact .unsettled hsize hwrite rfl htext
      | ok text =>
        rw [htext] at hsave
        dsimp only at hsave
        rw [Logged.value_bind] at hsave
        rw [writeHistory_value] at hsave
        cases hwritten : (written.write k.history.storageKey text).2 with
        | true =>
          rw [hwritten] at hsave
          subst hsave
          exact .whole hsize hwrite rfl htext hwritten
        | false =>
          rw [hwritten] at hsave
          subst hsave
          exact .stale hsize hwrite rfl htext hwritten
  · rw [hvalue] at hsave
    subst hsave
    exact .refused hsize hwrite

/-- A save leaves a store alone, removes the schema data of it, or leaves one that differs from the one
    to which the payload was written in the history at most. -/
theorem SaveOutcome.cases (h : SaveOutcome k kept history room store r) :
    (∃ report, r = .ok report ∧ report.saved = false ∧ (∃ error, report.strict = .error error) ∧
      (k.limits.maxTotal < (itemsSize (k.payload kept) : Int) ∧ store = room ∨
        (itemsSize (k.payload kept) : Int) ≤ k.limits.maxTotal ∧
        ∃ written key, writeAll room (k.payload kept).entries = (written, some key) ∧
          store = written.removeAll k.dataKeys)) ∨
    (∀ report, r = .ok report → report.saved = true ∧ report.strict = .ok report) ∧
      (itemsSize (k.payload kept) : Int) ≤ k.limits.maxTotal ∧
      ∃ written, writeAll room (k.payload kept).entries = (written, none) ∧
        ∀ key ≠ k.history.storageKey, store.read? key = written.read? key := by
  cases h with
  | tooLarge hsize => exact .inl ⟨_, rfl, rfl, ⟨_, rfl⟩, .inl ⟨hsize, rfl⟩⟩
  | refused hsize hwrite => exact .inl ⟨_, rfl, rfl, ⟨_, rfl⟩, .inr ⟨hsize, _, _, hwrite, rfl⟩⟩
  | alone hsize hwrite =>
    refine .inr ⟨?_, hsize, _, hwrite, fun _ _ => rfl⟩
    rintro _ ⟨⟩
    exact ⟨rfl, rfl⟩
  | unsettled hsize hwrite => exact .inr ⟨nofun, hsize, _, hwrite, fun _ _ => rfl⟩
  | whole hsize hwrite =>
    refine .inr ⟨?_, hsize, _, hwrite, fun _ hne => Store.read?_write_of_ne hne⟩
    rintro _ ⟨⟩
    exact ⟨rfl, rfl⟩
  | stale hsize hwrite =>
    refine .inr ⟨?_, hsize, _, hwrite, fun key hne => ?_⟩
    · rintro _ ⟨⟩
      exact ⟨rfl, rfl⟩
    · rw [Store.read?_remove, if_neg (Ne.symm hne)]

end Keeper

end Schemata
