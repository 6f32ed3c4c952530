/-
  The characters that a store takes up, before and after a session is saved.

  * `Store.size_removeAll`: they are those under some keys and those that are left without them;
    `Store.size_congr`: they are up to what is under each key;
  * `size_saveSession`: what a save makes of them.  The budget is one for the payload alone: what is
    under other keys, and the history, come on top of it (`not_size_saveSession_le`).
-/
import Schemata.Proofs.Generations

namespace Schemata

open Log

/-! ## Sums over maps -/

namespace OrderedMap

variable {α : Type} {f : String → α → Nat} {m : OrderedMap α} {key : String} {v : α}

theorem foldr_measure (l : List (String × α)) (n : Nat) :
    l.foldr (fun e n => f e.1 e.2 + n) n = l.foldr (fun e n => f e.1 e.2 + n) 0 + n := by
  induction l with
  | nil => exact (Nat.zero_add n).symm
  | cons e l ih => rw [List.foldr_cons, List.foldr_cons, ih, Nat.add_assoc]

theorem foldr_measure_perm {l l' : List (String × α)} (h : l.Perm l') :
    l.foldr (fun e n => f e.1 e.2 + n) 0 = l'.foldr (fun e n => f e.1 e.2 + n) 0 := by
  refine h.foldr_eq' (fun e _ e' _ n => ?_) 0
  exact Nat.add_left_comm ..

theorem Equiv.sumBy_eq {n : OrderedMap α} (h : m.Equiv n) : m.sumBy f = n.sumBy f :=
  foldr_measure_perm h.perm_entries

/-- A new entry adds its measure. -/
theorem sumBy_insert (h : m.get? key = none) (v : α) :
    (m.insert key v).sumBy f = m.sumBy f + f key v := by
  have hnew : key ∉ m.entries.map Prod.fst := by
    rw [mem_keys_iff, h]
    rintro ⟨_, ⟨⟩⟩
  have hentries : (m.insert key v).entries = m.entries ++ [(key, v)] := put_of_not_mem v hnew
  rw [sumBy, hentries, List.foldr_append, foldr_measure]
  rfl

/-- An entry that is erased takes its measure along. -/
theorem sumBy_erase (h : m.get? key = some v) : m.sumBy f = (m.erase key).sumBy f + f key v := by
  have hgone : (m.erase key).get? key = none := by rw [get?_erase, if_pos rfl]
  have hequiv : m.Equiv ((m.erase key).insert key v) := by
    intro key'
    rw [get?_insert, get?_erase]
    by_cases heq : key = key'
    · rw [if_pos heq, ← heq, h]
    · rw [if_neg heq, if_neg heq]
  rw [hequiv.sumBy_eq, sumBy_insert hgone]

theorem sumBy_erase_le (m : OrderedMap α) (key : String) : (m.erase key).sumBy f ≤ m.sumBy f := by
  cases h : m.get? key with
  | none => rw [erase_of_get?_eq_none h]
  | some v =>
    rw [sumBy_erase h]
    omega

theorem foldr_measure_le {l l' : List (String × α)} (h : l'.Sublist l) :
    l'.foldr (fun e n => f e.1 e.2 + n) 0 ≤ l.foldr (fun e n => f e.1 e.2 + n) 0 := by
  induction h with
  | slnil => exact Nat.le_refl 0
  | cons e _ ih => exact Nat.le_add_left_of_le ih
  | cons_cons e _ ih => exact Nat.add_le_add_left ih _

/-- The entries of a map are distinct, so they measure no more than a list in which they all are. -/
theorem sumBy_le_of_subset {l : List (String × α)} (h : m.entries ⊆ l) :
    m.sumBy f ≤ l.foldr (fun e n => f e.1 e.2 + n) 0 := by
  obtain ⟨l', hperm, hsub⟩ := List.subperm_of_subset (List.Nodup.of_map _ m.nodup) h
  rw [sumBy, ← foldr_measure_perm hperm]
  exact foldr_measure_le hsub

end OrderedMap

/-! ## The size of a store -/

namespace Store

variable {s s' : Store} {keys : List String}

/-- The size of a store is up to what is under each key. -/
theorem size_congr (h : ∀ key, s.read? key = s'.read? key) : s.size = s'.size :=
  OrderedMap.Equiv.sumBy_eq h

theorem sizeOf_singleton (s : Store) (key : String) :
    s.sizeOf [key] = (s.read? key).elim 0 (entrySize key) := by
  show 0 + _ = _
  rw [Nat.zero_add]
  cases s.read? key <;> rfl

theorem sizeOf_cons (s : Store) (key : String) (keys : List String) :
    s.sizeOf (key :: keys) = s.sizeOf [key] + s.sizeOf keys := by
  rw [sizeOf, List.foldr_cons, Nat.add_comm, ← sizeOf]
  exact congrArg (· + s.sizeOf keys) (Nat.zero_add _).symm

theorem sizeOf_append (s : Store) (keys keys' : List String) :
    s.sizeOf (keys ++ keys') = s.sizeOf keys + s.sizeOf keys' := by
  induction keys with
  | nil => exact (Nat.zero_add _).symm
  | cons key keys ih => rw [List.cons_append, sizeOf_cons, ih, sizeOf_cons s key keys, Nat.add_assoc]

theorem sizeOf_congr (h : ∀ key ∈ keys, s.read? key = s'.read? key) :
    s.sizeOf keys = s'.sizeOf keys := by
  induction keys with
  | nil => rfl
  | cons key keys ih =>
    rw [List.forall_mem_cons] at h
    rw [sizeOf_cons, sizeOf_cons s', ih h.2, sizeOf_singleton, sizeOf_singleton, h.1]

/-- What is under a key, and what is left without it. -/
theorem size_remove (s : Store) (key : String) : s.size = (s.remove key).size + s.sizeOf [key] := by
  rw [sizeOf_singleton]
  cases h : s.read? key with
  | none =>
    have hsame : (s.remove key).items = s.items := OrderedMap.erase_of_get?_eq_none h
    rw [size, size, hsame]
    rfl
  | some text => exact OrderedMap.sumBy_erase h

/-- What is under distinct keys, and what is left without them. -/
theorem size_removeAll (hn : keys.Nodup) (s : Store) :
    s.size = (s.removeAll keys).size + s.sizeOf keys := by
  induction keys generalizing s with
  | nil => rfl
  | cons key keys ih =>
    obtain ⟨hkey, hn⟩ := List.nodup_cons.1 hn
    have hrest : (s.remove key).sizeOf keys = s.sizeOf keys := sizeOf_congr fun key' hmem => by
      rw [read?_remove, if_neg]
      rintro rfl
      exact hkey hmem
    have hall : s.removeAll (key :: keys) = (s.remove key).removeAll keys := rfl
    rw [size_remove s key, ih hn, hrest, hall, sizeOf_cons s key keys]
    omega

theorem size_removeAll_le (s : Store) (keys : List String) : (s.removeAll keys).size ≤ s.size := by
  induction keys generalizing s with
  | nil => exact Nat.le_refl _
  | cons key keys ih => exact (ih (s.remove key)).trans (OrderedMap.sumBy_erase_le s.items key)

/-- The entries of a map that are all in a store. -/
theorem sizeOf_keys {m : OrderedMap String} (h : ∀ e ∈ m.entries, s.read? e.1 = some e.2) :
    s.sizeOf m.keys = itemsSize m := by
  rw [itemsSize, OrderedMap.sumBy, OrderedMap.keys]
  generalize m.entries = l at h
  induction l with
  | nil => rfl
  | cons e l ih =>
    rw [List.forall_mem_cons] at h
    rw [List.map_cons, sizeOf_cons, sizeOf_singleton, h.1, ih h.2, List.foldr_cons]
    rfl

/-- The entries of a map of which some came into a store. -/
theorem sizeOf_keys_le {m : OrderedMap String}
    (h : ∀ e ∈ m.entries, s'.read? e.1 = s.read? e.1 ∨ s'.read? e.1 = some e.2) :
    s'.sizeOf m.keys ≤ s.sizeOf m.keys + itemsSize m := by
  rw [itemsSize, OrderedMap.sumBy, OrderedMap.keys]
  generalize m.entries = l at h
  induction l with
  | nil => exact Nat.le_refl _
  | cons e l ih =>
    rw [List.forall_mem_cons] at h
    have hentry : s'.sizeOf [e.1] ≤ s.sizeOf [e.1] + entrySize e.1 e.2 := by
      simp only [sizeOf_singleton]
      obtain heq | heq := h.1
      · rw [heq]
        exact Nat.le_add_right ..
      · rw [heq]
        exact Nat.le_add_left ..
    have hrest := ih h.2
    rw [List.map_cons, sizeOf_cons, sizeOf_cons s, List.foldr_cons]
    omega

/-- A store into which nothing came but some of the entries of a map. -/
theorem size_le_of_entries {m : OrderedMap String}
    (hkeys : ∀ e ∈ m.entries, s'.read? e.1 = s.read? e.1 ∨ s'.read? e.1 = some e.2)
    (hother : ∀ key ∉ m.keys, s'.read? key = s.read? key) : s'.size ≤ s.size + itemsSize m := by
  have hn : m.keys.Nodup := m.nodup
  have hrest : (s'.removeAll m.keys).size = (s.removeAll m.keys).size := by
    refine size_congr fun key => ?_
    rw [read?_removeAll, read?_removeAll]
    split
    · rfl
    · next hkey => exact hother key hkey
  have hentries : s'.sizeOf m.keys ≤ s.sizeOf m.keys + itemsSize m := sizeOf_keys_le hkeys
  rw [size_removeAll hn s', size_removeAll hn s, hrest]
  omega

end Store

/-! ## Saving -/

namespace Keeper

variable {k : Keeper} {kept : Kept} {s : Session} {store store' room : Store}
  {r : Except SettingsError SaveReport}

/-- After a payload was written, and whatever became of the history, a store holds the payload, the
    history that is there and what is under other keys. -/
theorem size_written {written : Store}
    (hwrite : writeAll room (k.payload kept).entries = (written, none))
    (hread : ∀ key ≠ k.history.storageKey, store.read? key = written.read? key) :
    store.size = (room.removeAll k.storageKeys).size +
      itemsSize ((k.payload kept).erase k.history.storageKey) +
        store.sizeOf [k.history.storageKey] := by
  generalize hpart : (k.payload kept).erase k.history.storageKey = part
  have hmem (key : String) : key ∈ part.keys ↔
      key ≠ k.history.storageKey ∧ key ∈ (k.payload kept).keys := by
    simp only [← hpart, OrderedMap.keys, OrderedMap.mem_keys_iff, OrderedMap.get?_erase]
    by_cases heq : k.history.storageKey = key
    · simp [heq]
    · simp [heq, Ne.symm heq]
  have hheld (e : String × String) (he : e ∈ part.entries) : store.read? e.1 = some e.2 := by
    rw [← hpart, OrderedMap.erase, OrderedMap.filter, List.mem_filter, bne_iff_ne] at he
    rw [hread _ he.2, (writeAll_none hwrite (k.payload kept).nodup).1 e he.1]
  have hn : (part.keys ++ [k.history.storageKey]).Nodup := by
    refine List.nodup_append.2 ⟨part.nodup, List.nodup_singleton _, ?_⟩
    rintro key hkey _ hhistory rfl
    exact ((hmem key).1 hkey).1 (List.mem_singleton.1 hhistory)
  have hrest : (store.removeAll (part.keys ++ [k.history.storageKey])).size =
      (room.removeAll k.storageKeys).size := by
    refine Store.size_congr fun key => ?_
    have hkeys : key ∈ part.keys ++ [k.history.storageKey] ↔ key ∈ k.storageKeys := by
      have hall : k.storageKeys = [k.limits.tablesKey, k.limits.edgesKey, k.limits.visibleKey,
        k.limits.collapsedKey, k.limits.enumsKey] ++ [k.history.storageKey] := rfl
      rw [hall, List.mem_append, List.mem_append, List.mem_singleton, hmem, mem_keys_payload]
      tauto
    rw [Store.read?_removeAll, Store.read?_removeAll]
    by_cases hkey : key ∈ k.storageKeys
    · rw [if_pos hkey, if_pos (hkeys.2 hkey)]
    · have hpayload : key ∉ (k.payload kept).keys := fun h => hkey (mem_storageKeys_of_payload h)
      have hhistory : key ≠ k.history.storageKey := by
        rintro rfl
        exact hkey (by simp [storageKeys])
      rw [if_neg hkey, if_neg fun h => hkey (hkeys.1 h), hread key hhistory,
        read?_writeAll_payload hwrite hpayload]
  rw [Store.size_removeAll hn store, Store.sizeOf_append, Store.sizeOf_keys hheld, hrest]
  omega

/-- What is left of a payload without the schema data is the lists of shown and of collapsed schemas. -/
theorem mem_payload_of_notMem_dataKeys {key text : String} (h : (key, text) ∈ (k.payload kept).entries)
    (hkey : key ∉ k.dataKeys) : (key, text) ∈
      [(k.limits.visibleKey, namesText kept.visible),
        (k.limits.collapsedKey, namesText kept.collapsed)] := by
  simp only [dataKeys, List.mem_cons, List.not_mem_nil, or_false, not_or] at hkey
  have hget := OrderedMap.get?_eq_some_iff.2 h
  simp only [payload, OrderedMap.ofList, List.foldl, OrderedMap.get?_insert, OrderedMap.get?_empty,
    if_neg (Ne.symm hkey.1), if_neg (Ne.symm hkey.2.1), if_neg (Ne.symm hkey.2.2)] at hget
  split at hget
  · next heq =>
    cases hget
    simp [heq]
  · split at hget
    · next heq =>
      cases hget
      simp [heq]
    · cases hget

/-- After a payload was refused, a store holds at most what it held before and the lists of schemas. -/
theorem size_refused {written : Store} {refused : Option String}
    (hwrite : writeAll room (k.payload kept).entries = (written, refused)) :
    (written.removeAll k.dataKeys).size ≤ room.size +
      (entrySize k.limits.visibleKey (namesText kept.visible) +
        entrySize k.limits.collapsedKey (namesText kept.collapsed)) := by
  generalize hlists : (k.payload kept).filter (fun key _ => !k.dataKeys.contains key) = lists
  have hentries {e : String × String} :
      e ∈ lists.entries ↔ e ∈ (k.payload kept).entries ∧ e.1 ∉ k.dataKeys := by
    simp [← hlists, OrderedMap.filter]
  have hsize : itemsSize lists ≤ entrySize k.limits.visibleKey (namesText kept.visible) +
      entrySize k.limits.collapsedKey (namesText kept.collapsed) :=
    OrderedMap.sumBy_le_of_subset (l := [(k.limits.visibleKey, namesText kept.visible),
      (k.limits.collapsedKey, namesText kept.collapsed)])
      fun e he => mem_payload_of_notMem_dataKeys (hentries.1 he).1 (hentries.1 he).2
  have hcame : (written.removeAll k.dataKeys).size ≤
      (room.removeAll k.dataKeys).size + itemsSize lists := by
    refine Store.size_le_of_entries (fun e he => ?_) fun key hkey => ?_
    · obtain ⟨hpayload, hdata⟩ := hentries.1 he
      rw [Store.read?_removeAll, Store.read?_removeAll, if_neg hdata, if_neg hdata]
      obtain hread | ⟨text, hmem, hread⟩ := read?_writeAll room (k.payload kept).entries e.1
      · rw [hwrite] at hread
        exact .inl hread
      · rw [hwrite] at hread
        have htext := OrderedMap.get?_eq_some_iff.2 hmem
        rw [OrderedMap.get?_eq_some_iff.2 hpayload] at htext
        cases htext
        exact .inr hread
    · rw [Store.read?_removeAll, Store.read?_removeAll]
      split
      · rfl
      · next hdata =>
        refine read?_writeAll_payload hwrite fun hpayload => ?_
        obtain ⟨e, he, rfl⟩ := List.mem_map.1 hpayload
        exact hkey (List.mem_map_of_mem (hentries.2 ⟨he, hdata⟩))
  have hroom := Store.size_removeAll_le room k.dataKeys
  omega

/-- What a save that was reported leaves under the key of the history. -/
theorem SaveOutcome.history_read {h : History} {report : SaveReport}
    (houtcome : SaveOutcome k kept (some h) room store (.ok report)) (hsaved : report.saved = true) :
    (report.historySaved = true →
      ∃ text, h.write k.host.settings (some k.history.maxSaved) = .ok text ∧
        store.read? k.history.storageKey = some text) ∧
    (report.historySaved = false → store.read? k.history.storageKey = none) := by
  cases houtcome with
  | tooLarge => cases hsaved
  | refused => cases hsaved
  | alone _ _ hhistory => cases hhistory
  | whole _ _ hhistory htext haccepted =>
    cases hhistory
    exact ⟨fun _ => ⟨_, htext, Store.read?_write_self haccepted⟩, nofun⟩
  | stale => exact ⟨nofun, fun _ => by rw [Store.read?_remove, if_pos rfl]⟩

/-- **The size of a store after a save.** A session is saved with its history in a store that is within
    the budget.  If the payload is over the budget, the store stays as it is.  If the payload is
    written, the store takes up what is under other keys, the payload, without an entry that is under
    the key of the history too, and the history that is there then: the new one, or none if it is
    refused.  So it is over the budget by no more than the other keys and the history.  If the payload
    is refused, it takes up at most what it did and the lists of shown and of collapsed schemas. -/
theorem size_saveSession (hstore : (store.size : Int) ≤ k.limits.maxTotal)
    (h : (k.saveSession s store).value = (store', r)) :
    (k.limits.maxTotal < (itemsSize (k.payload s.kept) : Int) → store' = store) ∧
    ((itemsSize (k.payload s.kept) : Int) ≤ k.limits.maxTotal →
      (∀ report, r = .ok report → report.saved = true) →
        store'.size = (store.removeAll k.storageKeys).size +
            itemsSize ((k.payload s.kept).erase k.history.storageKey) +
              store'.sizeOf [k.history.storageKey] ∧
          (store'.size : Int) ≤ k.limits.maxTotal + (store.removeAll k.storageKeys).size +
            store'.sizeOf [k.history.storageKey] ∧
          ∀ report, r = .ok report →
            (report.historySaved = true →
              ∃ text, s.history.write k.host.settings (some k.history.maxSaved) = .ok text ∧
                store'.read? k.history.storageKey = some text) ∧
            (report.historySaved = false → store'.read? k.history.storageKey = none)) ∧
    ((itemsSize (k.payload s.kept) : Int) ≤ k.limits.maxTotal →
      ∀ report, r = .ok report → report.saved = false → store'.size ≤ store.size +
        (entrySize k.limits.visibleKey (namesText s.visible) +
          entrySize k.limits.collapsedKey (namesText s.collapsed))) := by
  have hroom : (k.makeRoom store).value = store := by
    rw [makeRoom_value, if_neg (Int.not_lt.2 hstore)]
  have hsave : (k.save s.kept (some s.history) store).value = (store', r) := h
  have houtcome : SaveOutcome k s.kept (some s.history) store store' r := by
    have houtcome := save_outcome k s.kept (some s.history) store
    rwa [hsave, hroom] at houtcome
  obtain ⟨report, rfl, hsaved, -, hdata⟩ | ⟨hsaved, hsize, written, hwrite, hread⟩ := houtcome.cases
  · refine ⟨fun hlarge => ?_, fun hsize hall => ?_, fun hsize _ _ _ => ?_⟩
    · obtain ⟨-, heq⟩ | ⟨hsize, -⟩ := hdata
      · exact heq
      · omega
    · rw [hall report rfl] at hsaved
      cases hsaved
    · obtain ⟨hlarge, -⟩ | ⟨-, written, key, hwrite, rfl⟩ := hdata
      · omega
      · -- elaborated on its own, since the goal does not say of what the lists are
        have hlists := size_refused hwrite
        exact hlists
  · refine ⟨fun hlarge => by omega, fun _ _ => ?_, fun _ report hreport hfalse => ?_⟩
    · have htotal : store'.size = (store.removeAll k.storageKeys).size +
          itemsSize ((k.payload s.kept).erase k.history.storageKey) +
            store'.sizeOf [k.history.storageKey] := size_written hwrite hread
      have hpart : itemsSize ((k.payload s.kept).erase k.history.storageKey) ≤
          itemsSize (k.payload s.kept) := OrderedMap.sumBy_erase_le ..
      refine ⟨htotal, by omega, ?_⟩
      rintro report rfl
      exact houtcome.history_read (hsaved report rfl).1
    · rw [(hsaved report hreport).1] at hfalse
      cases hfalse

/-- A keeper with a small budget. -/
def smallKeeper : Keeper := { host := Session.plainHost, limits := { maxTotal := 100 } }

/-- A store with an item of its host. -/
def themedStore : Store := { items := .ofList [("theme", "dark")] }

/-- The payload takes up 80 of the 100 characters; with the item of the host and the history, the store
    takes up more. -/
theorem size_saveSession_themedStore : (themedStore.size : Int) ≤ smallKeeper.limits.maxTotal ∧
    ∃ store' report, (smallKeeper.saveSession Session.blankSession themedStore).value =
        (store', .ok report) ∧ report.saved = true ∧ report.historySaved = true ∧
      store'.size = 9 + 80 + store'.sizeOf [smallKeeper.history.storageKey] := by
  have hstore : (themedStore.size : Int) ≤ smallKeeper.limits.maxTotal := by decide
  have hreport : (smallKeeper.saveSession Session.blankSession themedStore).value.2 =
      .ok { saved := true, size := 80, limit := 100, historySaved := true } := by decide +kernel
  have hsave : (smallKeeper.saveSession Session.blankSession themedStore).value =
      ((smallKeeper.saveSession Session.blankSession themedStore).value.1,
        .ok { saved := true, size := 80, limit := 100, historySaved := true }) := by rw [← hreport]
  have hsize : (itemsSize (smallKeeper.payload Session.blankSession.kept) : Int) ≤
      smallKeeper.limits.maxTotal := by decide +kernel
  have hothers : (themedStore.removeAll smallKeeper.storageKeys).size = 9 := by decide
  have hpart : itemsSize ((smallKeeper.payload Session.blankSession.kept).erase
      smallKeeper.history.storageKey) = 80 := by decide +kernel
  obtain ⟨-, hwritten, -⟩ := size_saveSession hstore hsave
  obtain ⟨htotal, -⟩ := hwritten hsize (by rintro _ ⟨⟩; rfl)
  rw [hothers, hpart] at htotal
  exact ⟨hstore, _, _, hsave, rfl, rfl, htotal⟩

/-- The budget does not bound a store: in an empty one, the history of a blank session goes over it. -/
theorem not_size_saveSession_le : ¬∀ (k : Keeper) (s : Session) (store : Store),
    (store.size : Int) ≤ k.limits.maxTotal →
      ((k.saveSession s store).value.1.size : Int) ≤ k.limits.maxTotal := by
  intro h
  have hsize := h smallKeeper Session.blankSession {} (by decide)
  exact absurd hsize (by decide +kernel)

end Keeper

end Schemata
