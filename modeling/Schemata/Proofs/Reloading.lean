/-
  Sessions that are loaded again.

  * `History.restored`: a restored history is the stored one, or it starts over from what was loaded
    beside it;
  * `Keeper.load_value`: the parts of a saved session are loaded as their texts are read;
  * `load_saveSession`: the current entry of the loaded history has the loaded model, if the current
    one of the saved history is among the entries that are stored; `load_saveSession_one` is what
    happens if it is not.
-/
import Schemata.Proofs.NewestEntries
import Schemata.Proofs.Reapplying

namespace Schemata

open Log

/-! ## Restoring the history -/

namespace History

variable {settings : Except SettingsError Settings} {m : Nat}

theorem result_read?_ok {text : String} {stored : History} (h : read settings text = .ok stored) :
    (read? settings text).result = .ok (some stored) := by
  rw [read?, h]
  rfl

theorem result_read?_corrupted {text : String} {reason : Corruption}
    (h : read settings text = .error (.corrupted reason)) :
    (read? settings text).result = .ok none := by
  rw [read?, h]
  rfl

/-- A text that is read is not empty. -/
theorem filled_of_read {settings : Except SettingsError Settings} {text : String} {stored : History}
    (h : read settings text = .ok stored) : filled (some text) = some text := by
  rw [filled, Option.filter_some, if_pos]
  cases hempty : text.isEmpty with
  | false => rfl
  | true =>
    rw [String.isEmpty_iff] at hempty
    subst hempty
    cases h

/-- A restored history is the stored one, or it starts over from the fallback. -/
inductive Restored (h : History) (c : HistoryEntry) (fallback : Snapshot) (m : Nat) :
    History → Snapshot → Prop
  | stored (stored : History) (current : HistoryEntry) (hcurrent : stored.current? = some current)
      (hsnapshot : current.snapshot = c.snapshot.reread) (hlegible : c.snapshot.legible = true)
      (henums : ∀ key t, c.snapshot.schema.enums.get? key = some t → t.Valid)
      (hlimit : stored.maxEntries = h.maxEntries)
      (hself : ∀ e ∈ stored.entries, e.snapshot.Agrees e.snapshot) :
      Restored h c fallback m stored fallback
  | fresh (e : HistoryEntry) (hsnapshot : e.snapshot = fallback.numbered 1) :
      Restored h c fallback m { past := [e], maxEntries := m } (fallback.numbered 1)

theorem reset_of_limit (hm : settingsLimit settings = .ok m) (stamp : Stamp) (snapshot : Snapshot) :
    ∃ e : HistoryEntry, e.snapshot = snapshot.numbered 1 ∧
      reset settings stamp snapshot none = .ok { past := [e], maxEntries := m } := by
  cases settings with
  | error error => cases hm
  | ok settings =>
    have hlimit : limitOf (.ok settings) none = .ok m := hm
    rw [reset, hlimit]
    exact ⟨_, rfl, rfl⟩

/-- What is stored is read, and starts over if nothing is left of it. -/
theorem result_restore (hm : settingsLimit settings = .ok m) (stamp : Stamp) (text : Option String)
    (fallback : Snapshot) : ∃ e : HistoryEntry, e.snapshot = fallback.numbered 1 ∧
      (restore settings stamp text fallback).result =
        ((filled text).elim (.ok none) fun s => (read? settings s).result).map fun stored =>
          ((stored.filter fun h => !h.entries.isEmpty).elim
            ({ past := [e], maxEntries := m }, fallback.numbered 1) fun h => (h, fallback)) := by
  obtain ⟨e, he, hreset⟩ := reset_of_limit hm stamp fallback
  have hcurrent : (({ past := [e], maxEntries := m } : History).current?.map (·.snapshot)).getD
      fallback = fallback.numbered 1 := he
  refine ⟨e, he, ?_⟩
  have hfresh (had : Bool) : (do
      Logged.tell (.ofCheckpoint .history "history_reset" [("had_payload", .bool had)])
      let h ← Action.ofExcept (reset settings stamp fallback none)
      return (h, (h.current?.map (·.snapshot)).getD fallback) :
        Action HistoryError (History × Snapshot)).result =
      .ok ({ past := [e], maxEntries := m }, fallback.numbered 1) := by
    rw [hreset, Action.result_bind]
    exact congrArg (fun s => Except.ok (_, s)) hcurrent
  rw [restore]
  cases filled text with
  | none => exact hfresh false
  | some s =>
    rw [Action.result_bind, Option.elim_some]
    cases (read? settings s).result with
    | error error => rfl
    | ok stored =>
      dsimp only [Except.bind, Except.map]
      cases stored.filter fun h => !h.entries.isEmpty with
      | some h => rfl
      | none => exact hfresh true

/-- What is restored from the text of the newest entries. -/
theorem restored {h : History} {c : HistoryEntry} (hm : settingsLimit settings = .ok m)
    (stamp : Stamp) {text : String} (fallback : Snapshot)
    (hread : ReadsNewest h c (read settings text)) :
    ∃ history snapshot, (restore settings stamp (some text) fallback).result =
      .ok (history, snapshot) ∧ Restored h c fallback m history snapshot := by
  obtain ⟨e, he, hresult⟩ := result_restore hm stamp (some text) fallback
  rw [hresult]
  cases hfilled : filled (some text) with
  | none => exact ⟨_, _, rfl, .fresh e he⟩
  | some s =>
    obtain rfl : text = s := (Option.filter_eq_some_iff.1 hfilled).1 |> Option.some.inj
    rw [Option.elim_some]
    generalize hgot : read settings text = got at hread
    cases hread with
    | corrupted reason =>
      rw [result_read?_corrupted hgot]
      exact ⟨_, _, rfl, .fresh e he⟩
    | blank stored hblank =>
      rw [result_read?_ok hgot]
      have hnone : (some stored).filter (fun h => !h.entries.isEmpty) = none := by
        rw [Option.filter_some, hblank]
        rfl
      exact ⟨_, _, congrArg Except.ok (congrArg (Option.elim · _ _) hnone), .fresh e he⟩
    | read stored current hcurrent hsnapshot hlegible henums hlimit hself =>
      have hsome : (some stored).filter (fun h => !h.entries.isEmpty) = some stored := by
        rw [Option.filter_some, if_pos]
        have hne := List.ne_nil_of_mem (Session.mem_entries_of_current? hcurrent)
        rw [Bool.not_eq_true', List.isEmpty_eq_false_iff]
        exact hne
      rw [result_read?_ok hgot]
      exact ⟨_, _, congrArg Except.ok (congrArg (Option.elim · _ _) hsome),
        .stored stored current hcurrent hsnapshot hlegible henums hlimit hself⟩

end History

/-! ## Loading the parts -/

theorem Cardinality.ofName?_name (c : Cardinality) : ofName? c.name = some c := by
  cases c <;> rfl

namespace Keeper

variable {k : Keeper} {store : Store} {key : String}

/-- A written value is read back, or counts as absent. -/
theorem readJson_value {style : Json.Style} (hs : style.Readable) {v : Json}
    (h : store.read? key = some (Json.write style v)) (hd : v.Distinct) :
    (readJson store key).value = if v.legible then some v.reread else none := by
  rw [readJson, h]
  cases hl : v.legible with
  | true =>
    dsimp only
    rw [Json.read_write hs hd hl]
    rfl
  | false =>
    obtain ⟨fault, hfault⟩ := Json.read_write_of_not_legible hs hd hl
    dsimp only
    rw [hfault]
    rfl

theorem readJson_kept {style : Json.Style} (hs : style.Readable) {v : Json}
    (h : store.read? key = some (Json.write style v)) (hk : Json.Kept v) :
    (readJson store key).value = some v := by
  rw [readJson_value hs h hk.distinct, hk.legible, hk.reread]
  rfl

theorem mapOf?_ofMap {α : Type} (f : α → Json) (m : OrderedMap α) :
    mapOf? (some (.ofMap f m)) = some (m.map fun _ a => f a) :=
  congrArg some (OrderedMap.ofList_entries (m.map fun _ a => f a))

/-- The tables as their text is read, or none if it is not. -/
def reloaded (tables : OrderedMap Table) : OrderedMap Table :=
  if tables.entries.all fun e => e.2.legible then tables.map fun _ t => t.reread else {}

/-- Clean tables are loaded as their text is read; the store stays as it is. -/
theorem loadTables_value {tables : OrderedMap Table} (hclean : Cleaning.CleanTables tables)
    (h : store.read? k.limits.tablesKey = some (Json.write .compact (tablesJson tables))) :
    (k.loadTables store).value = (store, { tables := reloaded tables }) := by
  have hlegible : (tablesJson tables).legible = tables.entries.all fun e => e.2.legible := by
    rw [tablesJson, Json.legible_ofMap]
    simp only [Table.legible_toJson]
  have hjson := readJson_value Json.readable_compact h
    (Json.distinct_ofMap Table.distinct_toJson tables)
  rw [hlegible] at hjson
  rw [reloaded]
  cases hl : tables.entries.all fun e => e.2.legible with
  | false =>
    rw [hl, if_neg Bool.false_ne_true] at hjson
    simp only [loadTables, Logged.value_bind, hjson]
    rfl
  | true =>
    have hreread : (tablesJson tables).reread = tablesJson (tables.map fun _ t => t.reread) :=
      Json.reread_ofMap Table.reread_toJson tables
    have hagain : Cleaning.CleanTables (tables.map fun _ t => t.reread) := by
      intro key t ht
      rw [OrderedMap.get?_map, Option.map_eq_some_iff] at ht
      obtain ⟨t, ht, rfl⟩ := ht
      have hclean := hclean key t ht
      exact ⟨hclean.title, hclean.key, hclean.nonempty, hclean.columns⟩
    rw [hl, if_pos rfl, hreread] at hjson
    simp only [loadTables, Logged.value_bind, hjson, tablesJson, mapOf?_ofMap,
      Cleaning.clean_again hagain]
    rfl

/-- Cardinalities are loaded as they were saved. -/
theorem loadCardinalities_value {cardinalities : OrderedMap Cardinality}
    (h : store.read? k.limits.edgesKey =
      some (Json.write .compact (cardinalitiesJson cardinalities))) :
    (k.loadCardinalities store).value = cardinalities := by
  have hjson := readJson_kept Json.readable_compact h
    (Snapshot.kept_cardinalitiesJson cardinalities)
  simp only [loadCardinalities, Logged.value_bind, hjson, Logged.value_pure]
  have hmap : mapOf? (some (cardinalitiesJson cardinalities)) = some
      (cardinalities.map fun _ c => .str c.name) :=
    mapOf?_ofMap (fun c : Cardinality => .str c.name) cardinalities
  rw [hmap, Option.getD_some, OrderedMap.filterMap_map]
  exact OrderedMap.filterMap_eq_self fun key c _ => c.ofName?_name

/-- Valid enum types are loaded as they were saved. -/
theorem loadEnums_value {enums : OrderedMap EnumType}
    (hvalid : ∀ key e, enums.get? key = some e → e.Valid)
    (h : store.read? k.limits.enumsKey = some (Json.write .compact (enumsJson enums))) :
    (k.loadEnums store).value.Equiv enums := by
  have hjson := readJson_kept Json.readable_compact h (Snapshot.kept_enumsJson enums)
  simp only [loadEnums, Logged.value_bind, hjson, enumsJson, mapOf?_ofMap]
  exact Cleaning.mergeEnums_toJson hvalid

/-! ## Loading a session -/

variable {s : Session} {c : HistoryEntry} {m : Nat}

/-- What is loaded from the texts of the parts of a session: these parts, and what is restored of the
    history beside them.  Nothing is written to the store. -/
theorem load_value {k : Keeper} {schema : Schema} {cardinalities : OrderedMap Cardinality}
    (htables : store.read? k.limits.tablesKey = some (Json.write .compact (tablesJson schema.tables)))
    (hedges : store.read? k.limits.edgesKey =
      some (Json.write .compact (cardinalitiesJson cardinalities)))
    (henums : store.read? k.limits.enumsKey = some (Json.write .compact (enumsJson schema.enums)))
    (hclean : Cleaning.CleanTables schema.tables) (loading : Host) :
    ∃ enums, ((∀ key e, schema.enums.get? key = some e → e.Valid) → enums.Equiv schema.enums) ∧
      (load { k with host := loading } store).value = (store,
        (History.restore loading.settings loading.stamp (store.read? k.history.storageKey)
          ⟨⟨reloaded schema.tables, enums⟩, cardinalities⟩).result.map fun r =>
            ⟨⟨r.2.schema, cardinalities, (loadNames store k.limits.visibleKey).value,
              (loadNames store k.limits.collapsedKey).value⟩, r.1, 0, 0⟩) := by
  have htables := loadTables_value (k := { k with host := loading }) hclean htables
  have hedges := loadCardinalities_value (k := { k with host := loading }) hedges
  simp only [load, Logged.value_bind]
  generalize (loadTables { k with host := loading } store).value = loaded at htables
  subst htables
  dsimp only
  rw [hedges, loadHistory]
  exact ⟨_, fun hvalid => loadEnums_value (k := { k with host := loading }) hvalid henums, rfl⟩

/-- What is loaded if the stored history is fit to be restored. -/
theorem load_holds {k : Keeper} (h : k.Holds s store)
    (hclean : Cleaning.CleanTables s.schema.tables) {loading : Host}
    (hm : History.settingsLimit loading.settings = .ok m)
    (hread : ∀ count,
      History.storedCount k.host.settings (some k.history.maxSaved) = .ok count →
        s.history.ReadsNewest c (History.read loading.settings (s.history.writeNewest count))) :
    ∃ l enums, (load { k with host := loading } store).value = (store, .ok l) ∧
      ((∀ key e, s.schema.enums.get? key = some e → e.Valid) → enums.Equiv s.schema.enums) ∧
      s.history.Restored c ⟨⟨reloaded s.schema.tables, enums⟩, s.cardinalities⟩ m l.history
        l.session.snapshot := by
  obtain ⟨count, hcount, hhistory⟩ := h.history
  obtain ⟨enums, henums, hload⟩ := load_value h.tables h.edges h.enums hclean loading
  obtain ⟨history, snapshot, hresult, hrestored⟩ := History.restored hm loading.stamp
    ⟨⟨reloaded s.schema.tables, enums⟩, s.cardinalities⟩ (hread count hcount)
  rw [hhistory, hresult] at hload
  refine ⟨_, enums, hload, henums, ?_⟩
  cases hrestored with
  | stored _ current hcurrent hsnapshot hlegible henums hlimit hself =>
    exact .stored _ current hcurrent hsnapshot hlegible henums hlimit hself
  | fresh e he => exact .fresh e he

theorem numbered_reloaded (serial : Nat) (tables : OrderedMap Table) (enums : OrderedMap EnumType)
    (cardinalities : OrderedMap Cardinality) :
    Snapshot.numbered serial ⟨⟨reloaded tables, enums⟩, cardinalities⟩ =
      ⟨⟨reloaded tables, enums⟩, cardinalities⟩ := by
  rw [reloaded]
  split
  · next hlegible =>
    exact Snapshot.numbered_reread (a := ⟨⟨tables, enums⟩, cardinalities⟩) serial hlegible
  · rfl

end Keeper

namespace Session

variable {s : Session}

/-! ## The limit of a history -/

/-- The entries of the history are within its limit. -/
def Fits (s : Session) : Prop := s.history.entries.length ≤ s.history.maxEntries

theorem history_moveTo (s : Session) (h : History) : (s.moveTo h).history = h := by
  unfold moveTo
  split <;> rfl

theorem after_fits (hs : s.Settled) (hf : s.Fits) (host : Host) (op : SessionOperation) :
    (s.after host op).Fits := by
  -- moving keeps the entries and the limit
  have moved {h : History} (he : h.entries = s.history.entries)
      (hm : h.maxEntries = s.history.maxEntries) : (s.moveTo h).Fits := by
    rw [Fits, history_moveTo, he, hm]
    exact hf
  unfold after
  cases hr : (s.run host op).result with
  | error e => exact hf
  | ok r =>
    obtain ⟨t, answer⟩ := r
    obtain ⟨-, cardinalities, stamp, schema, label, h⟩ | ⟨-, rfl⟩ | ⟨-, rfl⟩ := run_cases hr
    · obtain ⟨e, ⟨-, hh, -⟩ | ⟨-, hh, -⟩⟩ :=
        commit_cases (s := { s with cardinalities }) hs.limit h
      · show t.history.entries.length ≤ t.history.maxEntries
        rw [hh]
        exact hf
      · show t.history.entries.length ≤ t.history.maxEntries
        rw [hh]
        exact History.length_record_le s.history e
    · rw [undo?]
      cases hu : s.history.undo? with
      | none => exact hf
      | some h' =>
        have he := History.entries_of_undo? hu
        obtain ⟨p, c, -, -, rfl⟩ := History.undo?_eq_some hu
        exact moved he rfl
    · rw [redo?]
      cases hr : s.history.redo? with
      | none => exact hf
      | some h' =>
        have he := History.entries_of_redo? hr
        obtain ⟨c, f, -, rfl⟩ := History.redo?_eq_some hr
        exact moved he rfl

theorem runCalls_fits (hs : s.Settled) (hf : s.Fits) (calls : List (Host × SessionOperation)) :
    (s.runCalls calls).Fits := by
  induction calls generalizing s with
  | nil => exact hf
  | cons call calls ih =>
    exact ih (after_settled hs call.1 call.2) (after_fits hs hf call.1 call.2)

theorem start_fits {host : Host} {schema : Schema} {cardinalities : OrderedMap Cardinality}
    {visible collapsed : List String} {limit : Option Int}
    (h : start host schema cardinalities visible collapsed limit = .ok s) : s.Fits := by
  obtain ⟨m, e, hm, hhistory, -⟩ := start_ok h
  rw [Fits, hhistory]
  exact hm

/-! ## Sessions that are loaded again -/

/-- A restored history whose current entry agrees with the fallback makes a settled session. -/
theorem settled_of_restored {h : History} {c : HistoryEntry} {m : Nat} {fallback : Snapshot}
    {l : Session} (hm : 1 ≤ m) (hmax : 1 ≤ h.maxEntries)
    (hagrees : c.snapshot.legible = true →
      (∀ key t, c.snapshot.schema.enums.get? key = some t → t.Valid) →
        c.snapshot.reread.Agrees fallback)
    (hrestored : h.Restored c fallback m l.history l.snapshot) : l.Settled := by
  obtain ⟨schema, cardinalities, history, visible, collapsed⟩ := l
  generalize hsnapshot : (snapshot _) = s at hrestored
  cases hrestored with
  | stored _ current hcurrent hread hlegible henums hlimit hself =>
    refine ⟨hlimit ▸ hmax, hself, current, hcurrent, ?_⟩
    rw [hread, hsnapshot]
    exact hagrees hlegible henums
  | fresh e he =>
    have hself := Snapshot.agrees_numbered 1 fallback
    refine ⟨hm, fun e' he' => ?_, e, rfl, ?_⟩
    · obtain rfl := List.mem_singleton.1 he'
      rw [he]
      exact hself
    · rw [he, hsnapshot]
      exact hself

/-- The columns of clean tables are decoded as they were, also in a snapshot that agrees. -/
theorem column_of_agrees {c : Snapshot} (h : c.Agrees s.snapshot)
    (hclean : Cleaning.CleanTables s.schema.tables) {key : String} {t : Table}
    (ht : c.schema.tables.get? key = some t) :
    ∀ column ∈ t.columns, Decode.column column.toJson = .ok column := by
  have hkey := h.tables key
  rw [ht] at hkey
  cases hu : s.schema.tables.get? key with
  | none =>
    rw [show s.snapshot.schema.tables.get? key = none from hu] at hkey
    cases hkey
  | some u =>
    rw [show s.snapshot.schema.tables.get? key = some u from hu, Option.rel_some_some] at hkey
    have hcolumns : ({ t with position := none } : Table).columns = u.columns := by
      rw [(Table.same_iff.1 hkey).2]
    exact hcolumns ▸ fun column hm => ((hclean key u hu).columns.of_mem hm).normal.decode

/-- **Loading a saved session.** After every sequence of operations on a session that was opened
    without a stored history: if it is saved with its history, in which every position is a number,
    cleaning changes none of its tables, and its current entry is among those that are stored, then
    loading succeeds.  The loaded tables are the live ones as their text is read, what is said about
    edges is the same, and the loaded model is the one of the current entry of the loaded history;
    this remains so after every sequence of operations on the loaded session, so that undoing and
    redoing go on from there. -/
theorem load_saveSession {k : Keeper} (hn : k.storageKeys.Nodup) {host : Host} {schema : Schema}
    {cardinalities : OrderedMap Cardinality} {visible collapsed : List String} {limit : Option Int}
    {opened : Session}
    (hstart : start host schema cardinalities visible collapsed limit = .ok opened)
    (calls : List (Host × SessionOperation)) {before store : Store} {report : SaveReport}
    (hsave : (k.saveSession (opened.runCalls calls) before).value = (store, .ok report))
    (hsaved : report.historySaved = true)
    (hclean : (Cleaning.clean (rawTables (opened.runCalls calls).schema)).value.tables =
      (opened.runCalls calls).schema.tables)
    (hlength : (opened.runCalls calls).history.entries.length < 2 ^ 1023)
    (hwindow : ∀ count,
      History.storedCount k.host.settings (some k.history.maxSaved) = .ok count → 0 < count →
        (opened.runCalls calls).history.skipped count ≤ (opened.runCalls calls).history.index)
    {loading : Host} {m : Nat} (hm : History.settingsLimit loading.settings = .ok m) :
    ∃ store' l, (Keeper.load { k with host := loading } store).value = (store', .ok l) ∧
      l.session.schema.tables = Keeper.reloaded (opened.runCalls calls).schema.tables ∧
      l.session.cardinalities = (opened.runCalls calls).cardinalities ∧
      (∃ e, l.history.current? = some e ∧ e.snapshot.Agrees l.session.snapshot) ∧
      ∀ calls', (l.session.runCalls calls').Consistent := by
  have hs := runCalls_settled (start_settled hstart) calls
  have hf := runCalls_fits (start_settled hstart) (start_fits hstart) calls
  generalize opened.runCalls calls = s at hsave hclean hlength hwindow hs hf ⊢
  have hclean : Cleaning.CleanTables s.schema.tables := hclean ▸ Cleaning.cleanTables_clean _
  obtain ⟨c, hc, hlive⟩ := hs.live
  have hread (count : Int)
      (hcount : History.storedCount k.host.settings (some k.history.maxSaved) = .ok count) :=
    History.readsNewest hc loading.settings hs.limit hf hlength (hwindow count hcount)
      fun key t => column_of_agrees hlive hclean
  obtain ⟨l, enums, hload, henums, hrestored⟩ :=
    Keeper.load_holds (Keeper.holds_of_saveSession hn hsave hsaved) hclean hm hread
  have hagrees (hlegible : c.snapshot.legible = true)
      (hvalid : ∀ key t, c.snapshot.schema.enums.get? key = some t → t.Valid) :
      c.snapshot.reread.Agrees ⟨⟨Keeper.reloaded s.schema.tables, enums⟩, s.cardinalities⟩ := by
    obtain ⟨hlegible, hreread⟩ := hlive.reread hlegible
    have htables : Keeper.reloaded s.schema.tables = s.snapshot.reread.schema.tables :=
      if_pos hlegible
    have henums := henums fun key e he => hvalid key e ((hlive.enums key).trans he)
    rw [htables]
    exact ⟨hreread.tables, hreread.enums.trans henums.symm, hreread.cardinalities⟩
  have hlimit : History.limitOf loading.settings none = .ok m := hm
  have hsettled : l.session.Settled :=
    settled_of_restored (History.pos_of_limitOf hlimit) hs.limit hagrees hrestored
  have hsnapshot : l.session.snapshot =
      ⟨⟨Keeper.reloaded s.schema.tables, enums⟩, s.cardinalities⟩ := by
    generalize l.session.snapshot = snapshot, l.history = history at hrestored
    cases hrestored with
    | stored => rfl
    | fresh => exact Keeper.numbered_reloaded ..
  exact ⟨store, l, hload, congrArg (·.schema.tables) hsnapshot,
    congrArg (·.cardinalities) hsnapshot, hsettled.live,
    fun calls' => (runCalls_settled hsettled calls').consistent⟩

/-- The surroundings of a session, with the standard settings. -/
def plainHost : Host := ⟨.ok {}, ⟨"a", 1⟩⟩

/-- A keeper that stores so many entries. -/
def keeperOf (count : Int) : Keeper := { host := plainHost, history := { maxSaved := count } }

/-- A session that was opened on nothing. -/
def blankSession : Session :=
  { history := { past := [⟨⟨"a", 1⟩, "Initial state", {}⟩], maxEntries := 100 } }

/-- A table with a place. -/
def diaryTable : Table where
  title := "diary"
  columns := [{ title := "day", format := "date", category := "string" }]
  position := some ⟨.one, .zero⟩

/-- An enum type is added, and this is taken back. -/
def moodCalls : List (Host × SessionOperation) :=
  [(plainHost, .edit (.createEnum "mood" ["good"] none)), (plainHost, .undo)]

/-- The table is added before. -/
def diaryCalls : List (Host × SessionOperation) :=
  (plainHost, .edit (.addTable "diary" none diaryTable.columns diaryTable.position)) :: moodCalls

theorem start_blank : start plainHost {} {} [] [] none = .ok blankSession := by rfl

theorem nodup_storageKeys (count : Int) : (keeperOf count).storageKeys.Nodup := by
  have h : (keeperOf 0).storageKeys.Nodup := by decide
  exact h

theorem kept_diary : (blankSession.runCalls diaryCalls).kept =
    ⟨⟨.ofList [("diary", diaryTable)], {}⟩, {}, [], []⟩ := by rfl

theorem itemsSize_diary (count : Int) :
    (itemsSize ((keeperOf count).payload (blankSession.runCalls diaryCalls).kept) : Int) ≤
      (keeperOf count).limits.maxTotal := by
  have htables :
      (Json.chars .compact 0 (tablesJson (.ofList [("diary", diaryTable)]))).length ≤ 1000 := by
    decide +kernel
  have hedges : (Json.chars .compact 0 (cardinalitiesJson {})).length ≤ 100 := by decide +kernel
  have hnames :
      (Json.chars .spaced 0 (.strings (([] : List String).mergeSort textLE))).length ≤ 100 := by
    decide +kernel
  have henums : (Json.chars .compact 0 (enumsJson {})).length ≤ 100 := by decide +kernel
  have hkeys : ∀ key ∈ (keeperOf 0).storageKeys, key.length ≤ 100 := by decide +kernel
  have hmax : (keeperOf count).limits.maxTotal = 5242880 := rfl
  rw [kept_diary, Keeper.itemsSize_payload (nodup_storageKeys count), hmax]
  simp only [Keeper.storageKeys, List.forall_mem_cons] at hkeys
  dsimp only [keeperOf] at hkeys ⊢
  omega

theorem storedCount_keeperOf {n count : Int} (hn : n ≠ 0)
    (h : History.storedCount (keeperOf n).host.settings (some (keeperOf n).history.maxSaved) =
      .ok count) : count = n := by
  have hne : (n != 0) = true := bne_iff_ne.2 hn
  rw [show (keeperOf n).history.maxSaved = n from rfl, History.storedCount, Option.filter_some,
    if_pos hne] at h
  exact (Except.ok.inj h).symm

/-- Of three entries, the second one current, the newest two are stored. -/
theorem load_saveSession_two : ∃ store report,
    ((keeperOf 2).saveSession (blankSession.runCalls diaryCalls) {}).value = (store, .ok report) ∧
      report.historySaved = true ∧
      (Cleaning.clean (rawTables (blankSession.runCalls diaryCalls).schema)).value.tables =
        (blankSession.runCalls diaryCalls).schema.tables ∧
      ∃ store' l, ((keeperOf 2).load store).value = (store', .ok l) ∧
        l.session.schema.tables =
          Keeper.reloaded (blankSession.runCalls diaryCalls).schema.tables ∧
        ∀ calls', (l.session.runCalls calls').Consistent := by
  have haccepts (items : OrderedMap String) (key text : String) :
      ({} : Store).accepts items key text = true := rfl
  obtain ⟨store, report, hsave, hsaved⟩ := Keeper.saveSession_of_room
    (k := keeperOf 2) (s := blankSession.runCalls diaryCalls) haccepts (by decide)
    (itemsSize_diary 2) rfl
  have hclean : (Cleaning.clean (rawTables (blankSession.runCalls diaryCalls).schema)).value.tables =
      (blankSession.runCalls diaryCalls).schema.tables := by decide +kernel
  have hlength : (blankSession.runCalls diaryCalls).history.entries.length < 2 ^ 1023 :=
    History.lt_bound (by decide +kernel)
  have hwindow : ∀ count, History.storedCount (keeperOf 2).host.settings
      (some (keeperOf 2).history.maxSaved) = .ok count → 0 < count →
        (blankSession.runCalls diaryCalls).history.skipped count ≤
          (blankSession.runCalls diaryCalls).history.index := by
    intro count hcount _
    obtain rfl := storedCount_keeperOf (by decide) hcount
    decide +kernel
  have hlimit : History.settingsLimit plainHost.settings = .ok 100 := rfl
  obtain ⟨store', l, hload, htables, -, -, hconsistent⟩ := load_saveSession (nodup_storageKeys 2)
    start_blank diaryCalls hsave hsaved hclean hlength hwindow hlimit
  exact ⟨store, report, hsave, hsaved, hclean, store', l, hload, htables, hconsistent⟩

/-- The entry that adds the enum type. -/
def moodEntry : HistoryEntry :=
  ⟨⟨"a", 1⟩, "Create enum: mood", ⟨{ enums := .ofList [("mood", ⟨"mood", none, ["good"]⟩)] }, {}⟩⟩

/-- The entry that was taken back is read as the current one. -/
theorem read_mood : History.read plainHost.settings
    ((blankSession.runCalls moodCalls).history.writeNewest 1) =
      .ok { past := [moodEntry], maxEntries := 100 } := by
  have hlength : (blankSession.runCalls moodCalls).history.entries.length < 2 ^ 1023 :=
    History.lt_bound (by decide +kernel)
  rw [History.read_writeNewest 1 _ (by decide +kernel) hlength (by decide +kernel)]
  decide +kernel

/-- Of two entries, the first one current, only the second one is stored: it is the current entry of
    the loaded history, but not what is loaded. -/
theorem load_saveSession_one : ∃ store report store' l e,
    start plainHost {} {} [] [] none = .ok blankSession ∧
      ((keeperOf 1).saveSession (blankSession.runCalls moodCalls) {}).value = (store, .ok report) ∧
      report.historySaved = true ∧
      (Cleaning.clean (rawTables (blankSession.runCalls moodCalls).schema)).value.tables =
        (blankSession.runCalls moodCalls).schema.tables ∧
      ((keeperOf 1).load store).value = (store', .ok l) ∧
      l.history.current? = some e ∧ ¬e.snapshot.Agrees l.session.snapshot := by
  have hsize : (itemsSize ((keeperOf 1).payload (blankSession.runCalls moodCalls).kept) : Int) ≤
      (keeperOf 1).limits.maxTotal := by
    decide +kernel
  have haccepts (items : OrderedMap String) (key text : String) :
      ({} : Store).accepts items key text = true := rfl
  obtain ⟨store, report, hsave, hsaved⟩ := Keeper.saveSession_of_room
    (k := keeperOf 1) (s := blankSession.runCalls moodCalls) haccepts (by decide) hsize rfl
  have hclean : (Cleaning.clean (rawTables (blankSession.runCalls moodCalls).schema)).value.tables =
      (blankSession.runCalls moodCalls).schema.tables := by decide +kernel
  have hholds := Keeper.holds_of_saveSession (nodup_storageKeys 1) hsave hsaved
  obtain ⟨count, hcount, hhistory⟩ := hholds.history
  obtain rfl := storedCount_keeperOf (by decide) hcount
  obtain ⟨enums, henums, hload⟩ := Keeper.load_value hholds.tables hholds.edges hholds.enums
    (hclean ▸ Cleaning.cleanTables_clean _) plainHost
  have hlimit : History.settingsLimit plainHost.settings = .ok 100 := rfl
  obtain ⟨fresh, -, hrestore⟩ := History.result_restore hlimit plainHost.stamp
    (some ((blankSession.runCalls moodCalls).history.writeNewest 1))
    ⟨⟨Keeper.reloaded (blankSession.runCalls moodCalls).schema.tables, enums⟩,
      (blankSession.runCalls moodCalls).cardinalities⟩
  rw [History.filled_of_read read_mood, Option.elim_some,
    History.result_read?_ok read_mood] at hrestore
  rw [hhistory, hrestore] at hload
  refine ⟨store, report, store, _, moodEntry, start_blank, hsave, hsaved, hclean, hload, rfl, ?_⟩
  intro hagrees
  have hmood : moodEntry.snapshot.schema.enums.get? "mood" = enums.get? "mood" :=
    hagrees.enums "mood"
  have hnone : enums.get? "mood" = none := henums nofun "mood"
  rw [hnone] at hmood
  cases hmood

end Session

end Schemata
