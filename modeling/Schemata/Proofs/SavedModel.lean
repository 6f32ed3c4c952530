/-
  Models that are saved and loaded again, with or without a history.

  * `keeps_of_save`: after a save that was reported, each part of what is kept is under its key;
  * `load_keeps`: from there it is loaded as it was, and nothing is written; whether loading succeeds
    is up to the history that is stored beside it;
  * `load_save`: it does just if the position of that history is not beyond all numbers;
    `load_save_distant` is what happens if it is.
-/
import Schemata.Proofs.RestoredHistory

namespace Schemata

open Log

namespace Keeper

variable {k : Keeper} {kept : Kept} {store store' : Store} {history : Option History}
  {report : SaveReport}

/-! ## Saving -/

/-- The parts of what is kept are under their keys. -/
structure Keeps (k : Keeper) (kept : Kept) (store : Store) : Prop where
  tables : store.read? k.limits.tablesKey =
    some (Json.write .compact (tablesJson kept.schema.tables))
  edges : store.read? k.limits.edgesKey =
    some (Json.write .compact (cardinalitiesJson kept.cardinalities))
  visible : store.read? k.limits.visibleKey = some (namesText kept.visible)
  collapsed : store.read? k.limits.collapsedKey = some (namesText kept.collapsed)
  enums : store.read? k.limits.enumsKey = some (Json.write .compact (enumsJson kept.schema.enums))

theorem keeps_of_writeAll (hn : k.storageKeys.Nodup)
    (h : writeAll store (k.payload kept).entries = (store', none)) : k.Keeps kept store' := by
  obtain ⟨hmem, -⟩ := writeAll_none h (k.payload kept).nodup
  rw [payload_entries hn] at hmem
  simp only [List.forall_mem_cons] at hmem
  exact ⟨hmem.1, hmem.2.1, hmem.2.2.1, hmem.2.2.2.1, hmem.2.2.2.2.1⟩

/-- The keys of a payload are those that a session is kept under, without that of the history. -/
theorem mem_keys_payload {key : String} : key ∈ (k.payload kept).keys ↔
    key ∈ [k.limits.tablesKey, k.limits.edgesKey, k.limits.visibleKey, k.limits.collapsedKey,
      k.limits.enumsKey] := by
  simp only [payload, OrderedMap.ofList, List.foldl, OrderedMap.insert, OrderedMap.keys,
    OrderedMap.mem_keys_put, OrderedMap.empty, List.map_nil, List.not_mem_nil, List.mem_cons]
  tauto

theorem Keeps.congr {written : Store} (hn : k.storageKeys.Nodup) (h : k.Keeps kept written)
    (hread : ∀ key ≠ k.history.storageKey, store.read? key = written.read? key) :
    k.Keeps kept store := by
  have hne {key : String} (hkey : key ∈ (k.payload kept).keys) : store.read? key = written.read? key :=
    hread key fun heq => storageKey_notMem hn kept (heq ▸ hkey)
  simp only [mem_keys_payload] at hne
  exact ⟨(hne (by simp)).trans h.tables, (hne (by simp)).trans h.edges,
    (hne (by simp)).trans h.visible, (hne (by simp)).trans h.collapsed,
    (hne (by simp)).trans h.enums⟩

/-- After a save that was reported, the store holds what is kept. -/
theorem keeps_of_save (hn : k.storageKeys.Nodup)
    (h : (k.save kept history store).value = (store', .ok report)) (hs : report.saved = true) :
    k.Keeps kept store' := by
  have houtcome := save_outcome k kept history store
  rw [h] at houtcome
  obtain ⟨_, ⟨⟩, hnot, -⟩ | ⟨-, -, written, hwrite, hread⟩ := houtcome.cases
  · rw [hs] at hnot
    cases hnot
  · exact (keeps_of_writeAll hn hwrite).congr hn hread

/-- Making room for a payload removes no history. -/
theorem makeRoom_storageKey (hn : k.storageKeys.Nodup) (store : Store) :
    (k.makeRoom store).value.read? k.history.storageKey = store.read? k.history.storageKey ∧
      (k.makeRoom store).value.accepts = store.accepts := by
  have hdata : k.history.storageKey ∉ k.dataKeys := by
    intro hmem
    refine storageKey_notMem hn {} (mem_keys_payload.2 ?_)
    simp only [dataKeys, List.mem_cons, List.not_mem_nil, or_false] at hmem ⊢
    tauto
  rw [makeRoom_value]
  split
  · exact ⟨by rw [Store.read?_removeAll, if_neg hdata], Store.accepts_removeAll ..⟩
  · exact ⟨rfl, rfl⟩

/-- A payload that fits is saved in a store that refuses nothing; without a history of its own it
    leaves the stored one alone. -/
theorem save_of_room (hn : k.storageKeys.Nodup)
    (haccepts : ∀ items key text, store.accepts items key text = true)
    (hsize : (itemsSize (k.payload kept) : Int) ≤ k.limits.maxTotal) :
    ∃ store' report, (k.save kept none store).value = (store', .ok report) ∧ report.saved = true ∧
      store'.read? k.history.storageKey = store.read? k.history.storageKey := by
  obtain ⟨hroom, hpolicy⟩ := makeRoom_storageKey hn store
  obtain ⟨written, hwritten, -⟩ := writeAll_of_accepts (l := (k.payload kept).entries)
    (hpolicy ▸ haccepts)
  obtain ⟨-, hother⟩ := writeAll_none hwritten (k.payload kept).nodup
  have hpayload : (k.writePayload (k.payload kept) (k.makeRoom store).value).value =
      (written, none) := by
    rw [writePayload, hwritten]
    rfl
  have hfits : ¬k.limits.maxTotal < (itemsSize (k.payload kept) : Int) := by omega
  refine ⟨written, ⟨true, itemsSize (k.payload kept), k.limits.maxTotal, true, false, none⟩, ?_, rfl,
    (hother _ (storageKey_notMem hn kept)).trans hroom⟩
  simp only [save, Logged.value_bind, Logged.value_pure, if_neg hfits, hpayload]

/-! ## Loading -/

/-- What was loaded is what was kept, with the names in order, and cleaning dropped nothing. -/
structure Loads (kept : Kept) (l : Loaded) : Prop where
  tables : l.kept.schema.tables = kept.schema.tables
  enums : l.kept.schema.enums.Equiv kept.schema.enums
  cardinalities : l.kept.cardinalities = kept.cardinalities
  visible : l.kept.visible = kept.visible.mergeSort textLE
  collapsed : l.kept.collapsed = kept.collapsed.mergeSort textLE
  removedTables : l.removedTables = 0
  removedColumns : l.removedColumns = 0

/-- Names are loaded in order. -/
theorem loadNames_value {key : String} {names : List String}
    (h : store.read? key = some (namesText names)) :
    (loadNames store key).value = names.mergeSort textLE := by
  have hjson := readJson_kept Json.readable_spaced h (Json.kept_strings _)
  rw [loadNames, Logged.value_bind, hjson]
  show ((names.mergeSort textLE).map Json.str).filterMap Json.str? = _
  rw [List.filterMap_map]
  exact List.filterMap_some

/-- Exact places are read as they were. -/
theorem reloaded_of_exactPlaces {schema : Schema} {cardinalities : OrderedMap Cardinality}
    (h : Snapshot.ExactPlaces ⟨schema, cardinalities⟩) : reloaded schema.tables = schema.tables := by
  have htables : schema.tables.map (fun _ t => t.reread) = schema.tables :=
    congrArg (·.schema.tables) h.reread_eq
  exact (if_pos h.legible).trans htables

/-- What is kept is loaded as it was, if the history beside it is restored at all. -/
theorem load_keeps (h : k.Keeps kept store) (hclean : Cleaning.CleanTables kept.schema.tables)
    (henums : ∀ key e, kept.schema.enums.get? key = some e → e.Valid)
    (hplaces : Snapshot.ExactPlaces ⟨kept.schema, kept.cardinalities⟩) (loading : Host) :
    ∃ enums, enums.Equiv kept.schema.enums ∧
      (load { k with host := loading } store).value = (store,
        (History.restore loading.settings loading.stamp (store.read? k.history.storageKey)
          ⟨⟨kept.schema.tables, enums⟩, kept.cardinalities⟩).result.map fun r =>
            ⟨⟨r.2.schema, kept.cardinalities, kept.visible.mergeSort textLE,
              kept.collapsed.mergeSort textLE⟩, r.1, 0, 0⟩) := by
  obtain ⟨enums, hequiv, hload⟩ := load_value h.tables h.edges h.enums hclean loading
  rw [loadNames_value h.visible, loadNames_value h.collapsed, reloaded_of_exactPlaces hplaces] at hload
  exact ⟨enums, hequiv henums, hload⟩

/-- **Saving and loading.** A model that cleaning leaves as it is and whose places have exact texts
    is saved, with what is said about its edges, some names and perhaps a history.  If the save was
    reported, the model is loaded again, and the store stays as it is, just if no history is stored
    whose position is beyond all numbers. -/
theorem load_save (hn : k.storageKeys.Nodup)
    (hsave : (k.save kept history store).value = (store', .ok report))
    (hsaved : report.saved = true)
    (hclean : (Cleaning.clean (Session.rawTables kept.schema)).value.tables = kept.schema.tables)
    (henums : ∀ key e, kept.schema.enums.get? key = some e → e.Valid)
    (hplaces : Snapshot.ExactPlaces ⟨kept.schema, kept.cardinalities⟩) {loading : Host} {m : Nat}
    (hm : History.settingsLimit loading.settings = .ok m) :
    (∃ l, (load { k with host := loading } store').value = (store', .ok l) ∧ Loads kept l) ↔
      ∀ text, store'.read? k.history.storageKey = some text → ¬History.BeyondNumbers text := by
  have hkeeps := keeps_of_save hn hsave hsaved
  obtain ⟨enums, hequiv, hload⟩ := load_keeps hkeeps (hclean ▸ Cleaning.cleanTables_clean _) henums
    hplaces loading
  constructor
  · rintro ⟨l, hl, -⟩ text htext hbeyond
    rw [hload, htext, History.result_restore_of_beyondNumbers hm _ _ hbeyond] at hl
    cases hl
  · intro htext
    obtain ⟨h, snapshot, hresult, -, -, hsnapshot⟩ :=
      History.result_restore_of_not_beyondNumbers hm loading.stamp
        ⟨⟨kept.schema.tables, enums⟩, kept.cardinalities⟩ htext
    -- numbers that are finite are not numbered anew
    have hnumbered : Snapshot.numbered 1 ⟨⟨kept.schema.tables, enums⟩, kept.cardinalities⟩ =
        ⟨⟨kept.schema.tables, enums⟩, kept.cardinalities⟩ := numbered_of_finitePlaces 1 hplaces.finite
    rw [hnumbered, or_self] at hsnapshot
    rw [hresult] at hload
    subst hsnapshot
    exact ⟨_, hload, rfl, hequiv, rfl, rfl, rfl, rfl, rfl⟩

/-- A keeper with the standard settings. -/
def plainKeeper : Keeper := { host := Session.plainHost }

/-- A model with a table and an enum type, a shown schema and no stored history. -/
def moodKept : Kept := ⟨History.moodSnapshot.schema, {}, ["public"], []⟩

theorem itemsSize_mood (hn : plainKeeper.storageKeys.Nodup) :
    (itemsSize (plainKeeper.payload moodKept) : Int) ≤ plainKeeper.limits.maxTotal := by
  have htables : (Json.chars .compact 0 (tablesJson moodKept.schema.tables)).length ≤ 2000 := by
    decide +kernel
  have hedges : (Json.chars .compact 0 (cardinalitiesJson {})).length ≤ 100 := by decide +kernel
  have hvisible : (Json.chars .spaced 0 (.strings (["public"].mergeSort textLE))).length ≤ 100 := by
    decide +kernel
  have hcollapsed : (Json.chars .spaced 0 (.strings ([].mergeSort textLE))).length ≤ 100 := by
    decide +kernel
  have henums : (Json.chars .compact 0 (enumsJson moodKept.schema.enums)).length ≤ 1000 := by
    decide +kernel
  have hkeys : ∀ key ∈ plainKeeper.storageKeys, key.length ≤ 100 := by decide +kernel
  have hmax : plainKeeper.limits.maxTotal = 5242880 := rfl
  simp only [storageKeys, List.forall_mem_cons] at hkeys
  rw [itemsSize_payload hn, hmax]
  dsimp only [moodKept] at htables henums ⊢
  omega

/-- The model is saved in an empty store and loaded from there. -/
theorem load_save_mood : plainKeeper.storageKeys.Nodup ∧ ∃ store report l,
    (plainKeeper.save moodKept none {}).value = (store, .ok report) ∧ report.saved = true ∧
      (Cleaning.clean (Session.rawTables moodKept.schema)).value.tables = moodKept.schema.tables ∧
      (∀ key e, moodKept.schema.enums.get? key = some e → e.Valid) ∧
      Snapshot.ExactPlaces ⟨moodKept.schema, moodKept.cardinalities⟩ ∧
      (plainKeeper.load store).value = (store, .ok l) ∧ Loads moodKept l := by
  have hn : plainKeeper.storageKeys.Nodup := by decide
  have haccepts (items : OrderedMap String) (key text : String) :
      ({} : Store).accepts items key text = true := rfl
  obtain ⟨store, report, hsave, hsaved, hhistory⟩ :=
    save_of_room hn haccepts (itemsSize_mood hn)
  have hclean : (Cleaning.clean (Session.rawTables moodKept.schema)).value.tables =
      moodKept.schema.tables := by decide +kernel
  have henums (key : String) (e : EnumType) (he : moodKept.schema.enums.get? key = some e) :
      e.Valid :=
    (History.validated_moodSnapshot.enums key e he).elim fun _ => valid_of_enumType
  have hplaces : Snapshot.ExactPlaces ⟨moodKept.schema, moodKept.cardinalities⟩ :=
    History.exactPlaces_moodSnapshot
  have hlimit : History.settingsLimit Session.plainHost.settings = .ok 100 := rfl
  have hnone : store.read? plainKeeper.history.storageKey = none := hhistory
  obtain ⟨l, hload, hloads⟩ :=
    (load_save hn hsave hsaved hclean henums hplaces hlimit).2 fun text htext => by
      cases hnone.symm.trans htext
  exact ⟨hn, store, report, l, hsave, hsaved, hclean, henums, hplaces, hload, hloads⟩

/-- A store with a history whose position is beyond all numbers. -/
def distantStore : Store := { items := .ofList [("schema-history", History.distantText)] }

/-- An empty model is saved beside that history, and is not loaded again. -/
theorem load_save_distant : plainKeeper.storageKeys.Nodup ∧ ∃ store report,
    (plainKeeper.save {} none distantStore).value = (store, .ok report) ∧ report.saved = true ∧
      (plainKeeper.load store).value = (store, .error .hugeIndex) := by
  have hn : plainKeeper.storageKeys.Nodup := by decide
  have haccepts (items : OrderedMap String) (key text : String) :
      distantStore.accepts items key text = true := rfl
  have hsize : (itemsSize (plainKeeper.payload {}) : Int) ≤ plainKeeper.limits.maxTotal := by
    decide +kernel
  obtain ⟨store, report, hsave, hsaved, hhistory⟩ := save_of_room hn haccepts hsize
  have hnone (key : String) (t : Table) : ({} : Kept).schema.tables.get? key ≠ some t := nofun
  obtain ⟨enums, -, hload⟩ := load_keeps (keeps_of_save hn hsave hsaved)
    (fun key t ht => absurd ht (hnone key t)) nofun
    ⟨fun key t p ht => absurd ht (hnone key t), fun key t p ht => absurd ht (hnone key t)⟩
    Session.plainHost
  have hdistant : store.read? plainKeeper.history.storageKey = some History.distantText := hhistory
  have hlimit : History.settingsLimit Session.plainHost.settings = .ok 100 := rfl
  rw [hdistant, History.result_restore_of_beyondNumbers hlimit _ _ History.beyondNumbers_distant]
    at hload
  exact ⟨hn, store, report, hsave, hsaved, hload⟩

end Keeper

end Schemata
