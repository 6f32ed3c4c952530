/-
  Reading the same document twice.

  * Laying raw tables over others, or putting them in their place, is done once and for all
    (`merge_merge`, `replace_replace`, `mergeEnums_mergeEnums`), and so is forgetting what is said
    about edges that are gone (`pruned_pruned`);
  * `FinitePlaces`: all coordinates of tables are finite numbers, so a snapshot is the same as itself;
    cleaning, merging and replacing keep it so;
  * `value_commit_again`: committing once more what was committed leaves the session as it is;
  * `run_document_twice`: so does a document that is imported or applied for the second time.
-/
import Schemata.Proofs.Cleaned
import Schemata.Proofs.ParsedSchemas
import Schemata.Proofs.Sessions

namespace Schemata

open Log

namespace OrderedMap

variable {α : Type} {m n : OrderedMap α} {k : String} {v : α}

/-- An overlay of what is there already changes nothing. -/
theorem overlay_eq_self (h : ∀ k v, n.get? k = some v → m.get? k = some v) : m.overlay n = m := by
  have hlist : ∀ l : List (String × α), (∀ e ∈ l, m.get? e.1 = some e.2) → m.insertAll l = m := by
    intro l hl
    induction l with
    | nil => rfl
    | cons e l ih =>
      rw [insertAll, List.foldl_cons, insert_of_get? (hl e List.mem_cons_self)]
      exact ih fun d hd => hl d (List.mem_cons_of_mem e hd)
  exact hlist n.entries fun e he => h e.1 e.2 (get?_eq_some_iff.2 he)

theorem get?_overlay (h : n.get? k = some v) : (m.overlay n).get? k = some v :=
  get?_insertAll m n.nodup (get?_eq_some_iff.1 h)

theorem get?_of_get?_overlay (h : (m.overlay n).get? k = some v) :
    n.get? k = some v ∨ m.get? k = some v :=
  (mem_of_get?_insertAll m h).imp_left get?_eq_some_iff.2

theorem overlay_overlay : (m.overlay n).overlay n = m.overlay n :=
  overlay_eq_self fun _ _ => get?_overlay

end OrderedMap

/-! ## Tables and enum types -/

namespace Cleaning

variable {current : OrderedMap Table} {raw : OrderedMap Json} {key : String} {t : Table}

theorem filled_or (s : Option String) : (filled s).or s = s := by
  cases s with
  | none => rfl
  | some s =>
    rw [filled, Option.filter_some]
    split <;> rfl

/-- A table that has its layout from an earlier one keeps it. -/
theorem keepLayout_keepLayout (t : Table) (earlier : Option Table) :
    keepLayout t (some (keepLayout t earlier)) = keepLayout t earlier := by
  cases earlier with
  | none => simp only [keepLayout, Option.or_self, filled_or]
  | some e => simp only [keepLayout, ← Option.or_assoc, Option.or_self]

/-- The cleaned tables of a map, with the layout of earlier tables. -/
def placed (current : OrderedMap Table) (raw : OrderedMap Json) : OrderedMap Table :=
  (clean raw).value.tables.map fun key t => keepLayout t (current.get? key)

theorem merge_tables (current : OrderedMap Table) (raw : OrderedMap Json) :
    (merge current raw).value.tables =
      (clean ((current.overlay (placed current raw)).map fun _ t => t.toJson)).value.tables := by
  rw [merge, Logged.value_bind, Logged.value_bind, Logged.value_pure, placed]

theorem cleanTables_merge (current : OrderedMap Table) (raw : OrderedMap Json) :
    CleanTables (merge current raw).value.tables := by
  rw [merge_tables]
  exact cleanTables_clean _

theorem replace_tables (current : OrderedMap Table) (raw : OrderedMap Json) :
    (replace current raw).value.tables = placed current raw := by
  rw [replace, Logged.value_bind, Logged.value_pure, placed]

theorem get?_placed (h : (clean raw).value.tables.get? key = some t) :
    (placed current raw).get? key = some (keepLayout t (current.get? key)) := by
  rw [placed, OrderedMap.get?_map, h, Option.map_some]

theorem get?_merge (h : (clean raw).value.tables.get? key = some t) :
    (merge current raw).value.tables.get? key = some (keepLayout t (current.get? key)) := by
  have hclean := (cleanTables_clean raw key t h).keepLayout (current.get? key)
  rw [merge_tables, clean_tables, OrderedMap.filterMap_map, OrderedMap.get?_filterMap,
    OrderedMap.get?_overlay (get?_placed h), Option.bind_some, cleanTable_toJson hclean]

/-- Tables that have taken their layout from a map take it again from any map that holds them. -/
theorem placed_of_get? {tables : OrderedMap Table}
    (h : ∀ key t, (clean raw).value.tables.get? key = some t →
      tables.get? key = some (keepLayout t (current.get? key))) :
    placed tables raw = placed current raw := by
  refine OrderedMap.map_congr fun key t ht => ?_
  rw [h key t ht, keepLayout_keepLayout]

/-- **Merging again.** Tables that were laid over others are laid over the result without a change. -/
theorem merge_merge (current : OrderedMap Table) (raw : OrderedMap Json) :
    (merge (merge current raw).value.tables raw).value.tables =
      (merge current raw).value.tables := by
  have hplaced : placed (merge current raw).value.tables raw = placed current raw :=
    placed_of_get? fun _ _ => get?_merge
  have hoverlay : (merge current raw).value.tables.overlay (placed current raw) =
      (merge current raw).value.tables := by
    refine OrderedMap.overlay_eq_self fun key t ht => ?_
    rw [placed, OrderedMap.get?_map, Option.map_eq_some_iff] at ht
    obtain ⟨t, ht, rfl⟩ := ht
    exact get?_merge ht
  rw [merge_tables, hplaced, hoverlay]
  exact clean_toJson (cleanTables_merge current raw)

/-- **Replacing again.** -/
theorem replace_replace (current : OrderedMap Table) (raw : OrderedMap Json) :
    (replace (replace current raw).value.tables raw).value.tables =
      (replace current raw).value.tables := by
  rw [replace_tables, replace_tables]
  exact placed_of_get? fun _ _ => get?_placed

theorem mergeEnums_value (current : OrderedMap EnumType) (raw : OrderedMap Json) :
    (mergeEnums current raw).value =
      current.overlay ((Logged.overMap cleanEnum raw).value.filterMap fun _ e => e) := by
  simp only [mergeEnums, Logged.value_bind, Logged.value_pure]

theorem mergeEnums_mergeEnums (current : OrderedMap EnumType) (raw : OrderedMap Json) :
    (mergeEnums (mergeEnums current raw).value raw).value = (mergeEnums current raw).value := by
  rw [mergeEnums_value, mergeEnums_value, OrderedMap.overlay_overlay]

end Cleaning

/-! ## Finite places -/

/-- Both coordinates are finite numbers. -/
structure Position.Finite (p : Position) : Prop where
  x : p.x.isFinite = true
  y : p.y.isFinite = true

/-- All places of tables are finite. -/
def FinitePlaces (tables : OrderedMap Table) : Prop :=
  ∀ key t p, tables.get? key = some t → t.position = some p → p.Finite

namespace Number.Binary64

theorem numbered_of_isFinite {x : Binary64} (serial : Nat) (h : x.isFinite = true) :
    x.numbered serial = x := by
  cases x with
  | finite => rfl
  | _ => cases h

theorem same_self {x : Binary64} (h : x.isFinite = true) : x.same x = true := by
  refine same_iff.2 ⟨?_, .inl rfl⟩
  rintro rfl
  cases h

end Number.Binary64

section
variable {tables : OrderedMap Table}

theorem numbered_of_finitePlaces (serial : Nat) {cardinalities : OrderedMap Cardinality}
    {enums : OrderedMap EnumType} (h : FinitePlaces tables) :
    Snapshot.numbered serial ⟨⟨tables, enums⟩, cardinalities⟩ = ⟨⟨tables, enums⟩, cardinalities⟩ := by
  have htables : tables.map (fun _ t => { t with
      position := t.position.map (Position.numbered serial) }) = tables := by
    refine OrderedMap.map_eq_self fun key t ht => ?_
    have hposition : t.position.map (Position.numbered serial) = t.position := by
      cases hp : t.position with
      | none => rfl
      | some p =>
        have hfinite := h key t p ht hp
        rw [Option.map_some, Position.numbered, Number.Binary64.numbered_of_isFinite _ hfinite.x,
          Number.Binary64.numbered_of_isFinite _ hfinite.y]
    rw [hposition]
  rw [Snapshot.numbered, htables]

theorem OrderedMap.sameBy_self {α : Type} {eq : α → α → Bool} {m : OrderedMap α}
    (h : ∀ k v, m.get? k = some v → eq v v = true) : m.sameBy eq m = true := by
  rw [sameBy, Bool.and_eq_true, List.all_eq_true]
  refine ⟨beq_self_eq_true _, ?_⟩
  rintro ⟨k, v⟩ hm
  have hv := get?_eq_some_iff.2 hm
  show (m.get? k).any (eq v) = true
  rw [hv, Option.any_some, h k v hv]

theorem same_of_finitePlaces {cardinalities : OrderedMap Cardinality}
    {enums : OrderedMap EnumType} (h : FinitePlaces tables) :
    Snapshot.same ⟨⟨tables, enums⟩, cardinalities⟩ ⟨⟨tables, enums⟩, cardinalities⟩ = true := by
  rw [Snapshot.same, Bool.and_eq_true, Bool.and_eq_true]
  refine ⟨⟨OrderedMap.sameBy_self fun key t ht => Table.same_iff.2 ⟨?_, rfl⟩,
    OrderedMap.sameBy_self fun _ e _ => beq_self_eq_true e⟩,
    OrderedMap.sameBy_self fun _ c _ => beq_self_eq_true c⟩
  cases hp : t.position with
  | none => rfl
  | some p =>
    have hfinite := h key t p ht hp
    exact Bool.and_eq_true_iff.2
      ⟨Number.Binary64.same_self hfinite.x, Number.Binary64.same_self hfinite.y⟩

theorem FinitePlaces.overlay {other : OrderedMap Table} (h : FinitePlaces tables)
    (h' : FinitePlaces other) : FinitePlaces (tables.overlay other) := by
  intro key t p ht hp
  rcases OrderedMap.get?_of_get?_overlay ht with ht | ht
  · exact h' key t p ht hp
  · exact h key t p ht hp

/-- Cleaning leaves tables in their places. -/
theorem FinitePlaces.clean (h : FinitePlaces tables) :
    FinitePlaces (Cleaning.clean (tables.map fun _ t => t.toJson)).value.tables := by
  intro key t p ht hp
  rw [Cleaning.clean_tables, OrderedMap.filterMap_map, OrderedMap.get?_filterMap] at ht
  obtain ⟨u, hu, ht⟩ := Option.bind_eq_some_iff.1 ht
  obtain ⟨title, columns, rfl⟩ := Cleaning.cleanTable_toJson_some ht
  exact h key u p hu hp

theorem FinitePlaces.placed {raw : OrderedMap Json} (h : FinitePlaces tables)
    (hraw : FinitePlaces (Cleaning.clean raw).value.tables) :
    FinitePlaces (Cleaning.placed tables raw) := by
  intro key t p ht hp
  rw [Cleaning.placed, OrderedMap.get?_map, Option.map_eq_some_iff] at ht
  obtain ⟨u, hu, rfl⟩ := ht
  cases he : tables.get? key with
  | none =>
    rw [he] at hp
    exact hraw key u p hu hp
  | some e =>
    rw [he] at hp
    rcases Option.or_eq_some_iff.1 hp with hp | ⟨-, hp⟩
    · exact hraw key u p hu hp
    · exact h key e p he hp

end

/-! ## Edges -/

namespace Edge

variable {tables : OrderedMap Table} (c d : OrderedMap Cardinality)

/-- The edge with the cardinality that is said about its id. -/
def recast (d : OrderedMap Cardinality) (e : Edge) : Edge :=
  { e with cardinality := (d.get? e.id).getD .oneToMany }

/-- What is said about edges gives them their cardinalities and nothing else. -/
theorem ofColumn_recast (key : String) (t : Table) (index : Nat) (column : Column) :
    (ofColumn tables d key t index column).value =
      (ofColumn tables c key t index column).value.map (recast d) := by
  unfold ofColumn
  split
  · rfl
  · split
    · rfl
    · dsimp only
      split <;> rfl

theorem ofColumns_recast (key : String) (t : Table) (index : Nat) (columns : List Column) :
    (ofColumns tables d key t index columns).value =
      (ofColumns tables c key t index columns).value.map (recast d) := by
  induction columns generalizing index with
  | nil => rfl
  | cons column columns ih =>
    simp only [ofColumns, Logged.value_bind, Logged.value_pure, List.map_append, ih,
      ← Option.toList_map]
    rw [ofColumn_recast c d]

theorem ofEntries_recast (entries : List (String × Table)) :
    (ofEntries tables d entries).value = (ofEntries tables c entries).value.map (recast d) := by
  induction entries with
  | nil => rfl
  | cons e entries ih =>
    simp only [ofEntries, Logged.value_bind, Logged.value_pure, List.map_append, ih]
    rw [ofColumns_recast c d]

theorem edges_recast : (edges tables d).value = (edges tables c).value.map (recast d) :=
  ofEntries_recast c d tables.entries

/-- The ids of edges do not depend on what is said about them. -/
theorem ids_edges : (edges tables d).value.map Edge.id = (edges tables c).value.map Edge.id := by
  rw [edges_recast c d, List.map_map]
  rfl

/-- What is said about the edges of tables. -/
def pruned (tables : OrderedMap Table) (c : OrderedMap Cardinality) : OrderedMap Cardinality :=
  (prune c (edges tables c).value).value

theorem pruned_eq : pruned tables c =
    c.filter fun k _ => ((edges tables d).value.map Edge.id).contains k := by
  have hcontains (k : String) : ((edges tables d).value.map Edge.id).contains k =
      (edges tables c).value.any fun e => e.id == k := by
    rw [ids_edges c d, List.contains_eq_any_beq, List.any_map]
    exact congrArg (List.any _) (funext fun e => BEq.comm)
  simp only [hcontains]
  unfold pruned prune
  dsimp only
  split <;> rfl

theorem pruned_pruned (tables : OrderedMap Table) (c : OrderedMap Cardinality) :
    pruned tables (pruned tables c) = pruned tables c := by
  rw [pruned_eq _ c, pruned_eq c c]
  exact OrderedMap.ext_entries (List.filter_filter.trans (by simp only [Bool.and_self]; rfl))

end Edge

/-! ## Commits -/

namespace History

variable {h : History} {d e : HistoryEntry}

/-- An entry that was recorded is not recorded again; without any room, nothing is kept anyway. -/
theorem record_again (hd : d.snapshot = e.snapshot)
    (hn : e.snapshot.numbered h.nextSerial = e.snapshot)
    (hsame : e.snapshot.same e.snapshot = true) :
    (h.record e).repeats d = true ∨ (h.record e).record d = h.record e := by
  rcases Nat.eq_zero_or_pos h.maxEntries with hzero | hpos
  · refine .inr ?_
    simp [record, excess, hzero]
  · refine .inl ?_
    rw [repeats, current?_record hpos, Option.any_some, HistoryEntry.numbered, hn, hd, hsame]

end History

namespace Session

variable {host host' : Host} {s : Session} {schema : Schema} {stamp stamp' : Stamp}
  {label label' : Label}

theorem moveTo_record (hn : s.snapshot.numbered s.history.nextSerial = s.snapshot) :
    s.moveTo (s.history.record (s.entry stamp label)) =
      { s with history := s.history.record (s.entry stamp label) } := by
  rcases Nat.eq_zero_or_pos s.history.maxEntries with hzero | hpos
  · have hnone : (s.history.record (s.entry stamp label)).current? = none := by
      simp [History.record, History.current?, History.excess, hzero]
    rw [moveTo, hnone]
  · rw [moveTo, History.current?_record hpos]
    dsimp only [HistoryEntry.numbered, entry]
    rw [hn]
    rfl

theorem mem_foldl_addName {n : String} {names shown : List String} (h : n ∈ names ∨ n ∈ shown) :
    n ∈ names.foldl addName shown := by
  induction names generalizing shown with
  | nil => simpa using h
  | cons a names ih =>
    refine ih ?_
    rw [List.mem_cons, or_assoc, or_left_comm] at h
    refine h.imp_right fun h => ?_
    unfold addName
    split
    · next ha =>
      rcases h with rfl | h
      · simpa using ha
      · exact h
    · simpa [or_comm] using h

theorem foldl_addName_eq_self {names shown : List String} (h : ∀ n ∈ names, n ∈ shown) :
    names.foldl addName shown = shown := by
  induction names with
  | nil => rfl
  | cons a names ih =>
    have ha : shown.contains a = true := by simpa using h a List.mem_cons_self
    rw [List.foldl_cons, addName, if_pos ha]
    exact ih fun n hn => h n (List.mem_cons_of_mem a hn)

theorem shownWith_shownWith (visible : List String) (schema : Schema) :
    shownWith (shownWith visible schema) schema = shownWith visible schema :=
  foldl_addName_eq_self fun _ hn => mem_foldl_addName (.inl hn)

/-- Installing a schema again changes nothing, whatever the history. -/
theorem install_install (history : History) :
    { s.install schema with history }.install schema = { s.install schema with history } := by
  have hpruned := Edge.pruned_pruned schema.tables s.cardinalities
  have hshown := shownWith_shownWith s.visible schema
  unfold Edge.pruned at hpruned
  simp only [install, hpruned, hshown]

theorem value_commit_of_finite (h : FinitePlaces schema.tables) :
    (s.commit stamp schema label).value =
      { s.install schema with
        history :=
          if s.history.repeats ((s.install schema).entry stamp label) then s.history
          else s.history.record ((s.install schema).entry stamp label) } := by
  rw [value_commit]
  split
  · rfl
  · exact moveTo_record (numbered_of_finitePlaces _ h)

/-- **Committing again.** A schema with finite places that is committed once more leaves the session
    as it is. -/
theorem value_commit_again (h : FinitePlaces schema.tables) :
    ((s.commit stamp schema label).value.commit stamp' schema label').value =
      (s.commit stamp schema label).value := by
  rw [value_commit_of_finite h, value_commit_of_finite h, install_install]
  refine congrArg (fun history => { s.install schema with history }) ?_
  dsimp only
  split
  · next hr => exact if_pos hr
  · have hagain := History.record_again (h := s.history)
      (d := ({ s.install schema with
        history := s.history.record ((s.install schema).entry stamp label) }).entry stamp' label')
      (e := (s.install schema).entry stamp label) rfl (numbered_of_finitePlaces _ h)
      (same_of_finitePlaces h)
    split
    · rfl
    · next hr => exact hagain.resolve_left hr

/-! ## Documents -/

/-- An edit that succeeds is committed. -/
theorem result_perform {e : Edit} {r : EditResult} (h : (e.apply s.schema).result = .ok (schema, r)) :
    (s.perform host e (some label)).result =
      .ok ((s.commit host.stamp schema label).value, r) := by
  simp only [perform, Action.result_bind, Action.result_adapt, h]
  rfl

/-- An edit that always succeeds, has finite places as its outcome and is done once and for all
    leaves the session as it is when it is performed again. -/
theorem perform_again (host host' : Host) (label : Label) {e : Edit}
    {f : Schema → Schema × EditResult}
    (happly : ∀ schema, (e.apply schema).result = .ok (f schema))
    (honce : (f (f s.schema).1).1 = (f s.schema).1)
    (hfinite : FinitePlaces (f s.schema).1.tables) :
    ∃ s₁ r₁ r₂, (s.perform host e (some label)).result = .ok (s₁, r₁) ∧
      (s₁.perform host' e (some label)).result = .ok (s₁, r₂) := by
  have hperform (host : Host) (s : Session) : (s.perform host e (some label)).result =
      .ok ((s.commit host.stamp (f s.schema).1 label).value, (f s.schema).2) :=
    result_perform (happly s.schema)
  have hschema : (s.commit host.stamp (f s.schema).1 label).value.schema = (f s.schema).1 := by
    rw [value_commit_of_finite hfinite]
    rfl
  refine ⟨_, _, (f (f s.schema).1).2, hperform host s, ?_⟩
  rw [hperform, hschema, honce, value_commit_again hfinite]

theorem result_importDocument {text : String} {read : Schema}
    (h : (Schema.ofDocument text).result = .ok read) : (s.importDocument host text).result =
      (s.perform host (.addTables (rawTables read) (rawEnums read)) (some .importDocument)).result := by
  rw [importDocument, Action.result_within, Action.result_bind, Action.result_adapt, h]
  rfl

theorem result_applyDocument {text : String} {read : Schema}
    (h : (Schema.ofDocument text).result = .ok read) : (s.applyDocument host text).result =
      (s.perform host (.replaceTables (rawTables read) (some (rawEnums read)))
        (some .applyDocument)).result := by
  rw [applyDocument, Action.result_within, Action.result_bind, Action.result_adapt, h]
  rfl

theorem finitePlaces_rawTables {text : String} {read : Schema}
    (h : (Schema.ofDocument text).result = .ok read) :
    FinitePlaces (Cleaning.clean (rawTables read)).value.tables := by
  refine FinitePlaces.clean fun key t p ht hp => ?_
  rw [((parsedSchema_ofDocument h).tables key t ht).2.position] at hp
  cases hp

/-- Raw tables with finite places are laid over those of a session once and for all. -/
theorem addTables_again (host host' : Host) (label : Label) {tables : OrderedMap Json}
    (enums : OrderedMap Json) (hplaces : FinitePlaces s.schema.tables)
    (hraw : FinitePlaces (Cleaning.clean tables).value.tables) :
    ∃ s₁ r₁ r₂, (s.perform host (.addTables tables enums) (some label)).result = .ok (s₁, r₁) ∧
      (s₁.perform host' (.addTables tables enums) (some label)).result = .ok (s₁, r₂) := by
  refine perform_again (f := fun schema => (schema.addTables tables enums).value) host host' label
    (fun _ => rfl) ?_ ?_
  · simp only [Schema.addTables, Logged.value_bind, Logged.value_pure, Cleaning.merge_merge,
      Cleaning.mergeEnums_mergeEnums]
  · simp only [Schema.addTables, Logged.value_bind, Logged.value_pure, Cleaning.merge_tables]
    exact (hplaces.overlay (hplaces.placed hraw)).clean

/-- So are raw tables in the place of those of a session. -/
theorem replaceTables_again (host host' : Host) (label : Label) {tables : OrderedMap Json}
    (enums : OrderedMap Json) (hplaces : FinitePlaces s.schema.tables)
    (hraw : FinitePlaces (Cleaning.clean tables).value.tables) :
    ∃ s₁ r₁ r₂,
      (s.perform host (.replaceTables tables (some enums)) (some label)).result = .ok (s₁, r₁) ∧
      (s₁.perform host' (.replaceTables tables (some enums)) (some label)).result =
        .ok (s₁, r₂) := by
  refine perform_again (f := fun schema => (schema.replaceTables tables (some enums)).value) host
    host' label (fun _ => rfl) ?_ ?_
  · simp only [Schema.replaceTables, Logged.value_bind, Logged.value_pure,
      Cleaning.replace_replace]
  · simp only [Schema.replaceTables, Logged.value_bind, Logged.value_pure, Cleaning.replace_tables]
    exact hplaces.placed hraw

theorem asEdited_ok {x : Action SessionError (Session × EditResult)} {r : EditResult}
    (h : x.result = .ok (s, r)) : (asEdited x).result = .ok (s, .edited r) := by
  rw [asEdited, Action.result_map, h]
  rfl

/-- **Documents twice.** A document that can be read is imported or applied without an error, and
    doing so a second time leaves the schema with its layout, what is said about its edges, the
    history and everything else of the session as they are. -/
theorem run_document_twice {text : String} {read : Schema} {op : SessionOperation}
    (hplaces : FinitePlaces s.schema.tables) (hread : (Schema.ofDocument text).result = .ok read)
    (hop : op = .importDocument text ∨ op = .applyDocument text) :
    ∃ s₁ a₁ a₂, (s.run host op).result = .ok (s₁, a₁) ∧
      (s₁.run host' op).result = .ok (s₁, a₂) := by
  have hraw := finitePlaces_rawTables hread
  rcases hop with rfl | rfl
  · obtain ⟨s₁, r₁, r₂, h₁, h₂⟩ :=
      addTables_again host host' .importDocument (rawEnums read) hplaces hraw
    rw [← result_importDocument hread] at h₁ h₂
    exact ⟨s₁, .edited r₁, .edited r₂, asEdited_ok h₁, asEdited_ok h₂⟩
  · obtain ⟨s₁, r₁, r₂, h₁, h₂⟩ :=
      replaceTables_again host host' .applyDocument (rawEnums read) hplaces hraw
    rw [← result_applyDocument hread] at h₁ h₂
    exact ⟨s₁, .edited r₁, .edited r₂, asEdited_ok h₁, asEdited_ok h₂⟩

/-- A session with one table, which has a place and a colour. -/
def placedSession : Session where
  schema :=
    { tables := .ofList [("t", { title := "t", columns := [{ title := "a" }],
                                 position := some ⟨.zero, .one⟩, color := some "red" })] }
  history := { maxEntries := 2 }

/-- A host at a fixed time. -/
def fixedHost : Host := ⟨.ok {}, ⟨"1", 0⟩⟩

theorem run_document_twice_placedSession :
    FinitePlaces placedSession.schema.tables ∧
      ∃ s₁ a₁ a₂,
        (placedSession.run fixedHost (.importDocument "CREATE TABLE t (b int);")).result =
          .ok (s₁, a₁) ∧
        (s₁.run fixedHost (.importDocument "CREATE TABLE t (b int);")).result = .ok (s₁, a₂) := by
  have hplaces : FinitePlaces placedSession.schema.tables := by
    intro key t p ht hp
    have hmem := OrderedMap.get?_eq_some_iff.1 ht
    obtain ⟨-, rfl⟩ := Prod.mk.inj (List.mem_singleton.1 hmem)
    cases hp
    exact ⟨rfl, rfl⟩
  refine ⟨hplaces, ?_⟩
  have hok : ((Schema.ofDocument "CREATE TABLE t (b int);").result.toOption).isSome = true := by
    decide +kernel
  cases h : (Schema.ofDocument "CREATE TABLE t (b int);").result with
  | error e =>
    rw [h] at hok
    cases hok
  | ok read => exact run_document_twice hplaces h (.inl rfl)

end Session

end Schemata
