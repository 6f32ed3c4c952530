/-
  Applying the document that a session generates.

  * `Edge.mem_edges`: the edges of tables do not depend on the order in which the tables come;
  * `Listed` tables have columns, list their constraints by kind and their indexes by name; canonical
    ones are rebuilt without their layout (`rebuilt_listed`), are clean (`CanonicalTable.clean`) and
    take their layout back (`get?_placed_stripped`);
  * `run_document_generate`: a document that was generated and not edited leaves the schema, what is
    said about its edges and the history as they are.
-/
import Schemata.Proofs.Reimporting
import Schemata.Proofs.RoundTrip

namespace Schemata

open Log

/-! ## Edges -/

namespace Edge

variable {tables tables' : OrderedMap Table} {c : OrderedMap Cardinality} {e : Edge}

theorem mem_ofColumns {key : String} {t : Table} {columns : List Column} {index : Nat} :
    e ∈ (ofColumns tables c key t index columns).value ↔ ∃ i col, columns[i]? = some col ∧
      (ofColumn tables c key t (index + i) col).value = some e := by
  induction columns generalizing index with
  | nil => simp [ofColumns]
  | cons column columns ih =>
    simp only [ofColumns, Logged.value_bind, Logged.value_pure, List.mem_append, Option.mem_toList,
      ih]
    constructor
    · rintro (h | ⟨i, col, hi, h⟩)
      · exact ⟨0, column, rfl, h⟩
      · exact ⟨i + 1, col, hi, by rwa [Nat.add_right_comm] at h⟩
    · rintro ⟨_ | i, col, hi, h⟩
      · cases hi
        exact .inl h
      · exact .inr ⟨i, col, hi, by rwa [Nat.add_right_comm]⟩

theorem mem_ofEntries {entries : List (String × Table)} :
    e ∈ (ofEntries tables c entries).value ↔ ∃ key t, (key, t) ∈ entries ∧
      e ∈ (ofColumns tables c key t 0 t.columns).value := by
  induction entries with
  | nil => simp [ofEntries]
  | cons entry entries ih =>
    simp only [ofEntries, Logged.value_bind, Logged.value_pure, List.mem_append, ih]
    constructor
    · rintro (h | ⟨key, t, hm, h⟩)
      · exact ⟨_, _, List.mem_cons_self, h⟩
      · exact ⟨key, t, List.mem_cons_of_mem _ hm, h⟩
    · rintro ⟨key, t, hm, h⟩
      rcases List.mem_cons.1 hm with rfl | hm
      · exact .inl h
      · exact .inr ⟨key, t, hm, h⟩

theorem ofColumn_congr (h : tables.Equiv tables') (key : String) (t : Table) (index : Nat)
    (column : Column) : ofColumn tables c key t index column = ofColumn tables' c key t index column := by
  have hlocate : locate? tables = locate? tables' := by
    funext key name
    rw [locate?, locate?, h key]
  rw [ofColumn, ofColumn, hlocate]

/-- The edges of tables are the references of their columns that resolve. -/
theorem mem_edges : e ∈ (edges tables c).value ↔ ∃ key t i col, tables.get? key = some t ∧
    t.columns[i]? = some col ∧ (ofColumn tables c key t i col).value = some e := by
  simp only [edges, mem_ofEntries, mem_ofColumns, Nat.zero_add, ← OrderedMap.get?_eq_some_iff]
  constructor
  · rintro ⟨key, t, ht, i, col, hi, h⟩
    exact ⟨key, t, i, col, ht, hi, h⟩
  · rintro ⟨key, t, i, col, ht, hi, h⟩
    exact ⟨key, t, ht, i, col, hi, h⟩

theorem mem_edges_congr (h : tables.Equiv tables') :
    e ∈ (edges tables c).value ↔ e ∈ (edges tables' c).value := by
  simp only [mem_edges, ofColumn_congr h, h _]

/-- What is said about edges of the tables alone is kept. -/
theorem pruned_eq_self (h : ∀ id ∈ c.keys, ∃ e ∈ (edges tables c).value, e.id = id) :
    pruned tables c = c := by
  rw [pruned_eq c c]
  refine OrderedMap.ext_entries (List.filter_eq_self.2 fun entry hm => ?_)
  rw [List.contains_iff_mem]
  obtain ⟨e, he, hid⟩ := h entry.1 (List.mem_map_of_mem hm)
  exact List.mem_map.2 ⟨e, he, hid⟩

end Edge

/-! ## Tables -/

/-- The table without its place and its colour. -/
def Table.stripped (t : Table) : Table := { t with position := none, color := none }

/-- The table has columns, and their comments are not blank; constraints are listed by kind, and
    indexes by name. -/
structure Listed (t : Table) : Prop where
  columns : t.columns ≠ []
  comments : ∀ c ∈ t.columns, ∀ text, c.comment = some text → Text.isBlankText text = false
  constraints : t.constraints.Pairwise fun c d => c.kind.rank ≤ d.kind.rank
  indexes : t.indexes.Pairwise fun i j => Index.le i j = true

namespace Written

variable {options : RenderOptions} {enums enums' : OrderedMap EnumType} {key : String} {t : Table}

/-- A restored table that lists its parts in order is rebuilt but for its layout. -/
theorem rebuilt_listed (h : Restored options enums enums' t) (hl : Listed t) :
    rebuilt options enums enums' t = t.stripped := by
  rw [rebuilt_eq h, Constraint.byKind_eq_self hl.constraints,
    List.mergeSort_of_pairwise hl.indexes, Table.stripped, ← h.isView]

theorem point_mem_columnText (schema : Option String) (table column : String) :
    '.' ∈ (Name.columnText schema table column).toList := by
  simp [Name.columnText]

theorem point_mem_reference {reference : Option Reference} {text : String}
    (h : filled (reference.bind Reference.columnText?) = some text) : '.' ∈ text.toList := by
  obtain ⟨htext, -⟩ := Option.filter_eq_some_iff.1 h
  obtain ⟨r, -, hr⟩ := Option.bind_eq_some_iff.1 htext
  unfold Reference.columnText? at hr
  split at hr
  · cases hr
    exact point_mem_columnText _ _ _
  · cases hr

theorem point_mem_of_target? {c : Constraint} {folded text : String}
    (h : c.target? folded = some text) : '.' ∈ text.toList :=
  point_mem_reference (Constraint.target?_eq_some_iff.1 h).2.2

/-- The target of a column is the text of a column, whether a constraint repeats it or not. -/
theorem point_mem_foreignKey (h : Consistent t) {col : Column} (hcol : col ∈ t.columns)
    {text : String} (htext : col.foreignKey = some text) : '.' ∈ text.toList := by
  by_cases hown : [col.folded] ∈ t.constrained .foreignKey
  · obtain ⟨c, hc, hkey⟩ := List.mem_map.1 hown
    obtain ⟨hc, hkind⟩ := List.mem_filter.1 hc
    have hkind : c.kind = .foreignKey := eq_of_beq hkind
    -- the constraint gives a target, so the last one that gives any decides
    obtain ⟨target, htarget⟩ : ∃ target, c.target? col.folded = some target := by
      have hw := h.writable c hc
      simp only [Table.isWritable, hkind, Bool.and_eq_true, Option.any_eq_true] at hw
      obtain ⟨-, r, hr, -⟩ := hw
      have hone : r.columns.length = 1 := by
        have hlength := congrArg List.length hkey
        rw [Constraint.columnKey, List.length_map] at hlength
        rw [h.matched c hc hkind r hr, hlength]
        rfl
      obtain ⟨target, htarget⟩ := Reference.exists_columnText hone
      refine ⟨target, Constraint.target?_eq_some_iff.2 ⟨hkind, hkey, ?_⟩⟩
      rw [hr, Option.bind_some, htarget]
    have hmem : target ∈ t.constraints.filterMap (·.target? col.folded) :=
      List.mem_filterMap.2 ⟨c, hc, htarget⟩
    obtain ⟨last, hlast⟩ : ∃ last,
        (t.constraints.filterMap (·.target? col.folded)).getLast? = some last :=
      ⟨_, List.getLast?_eq_some_getLast (List.ne_nil_of_mem hmem)⟩
    obtain ⟨d, -, hd⟩ := List.mem_filterMap.1 (List.mem_of_getLast? hlast)
    rw [h.targets col hcol last hlast] at htext
    cases htext
    exact point_mem_of_target? hd
  · obtain ⟨r, -, rfl⟩ := h.references col hcol hown text htext
    exact point_mem_columnText _ _ _

theorem CleanName.isBlankText {name : String} (h : CleanName name) :
    Text.isBlankText name = false := by
  obtain ⟨c, hc, hb⟩ := h.exists_not_blank
  exact isBlankText_eq_false hc hb

theorem CanonicalColumn.clean {c : Column} (h : CanonicalColumn enums c)
    (he : ∀ e ∈ enums.entries, CanonicalEnum e.1 e.2) (ht : Consistent t) (hl : Listed t)
    (hc : c ∈ t.columns) : Cleaning.CleanColumn c := by
  have bind_nonBlank : ∀ o : Option String, (∀ s, o = some s → nonBlank s = some s) →
      o.bind nonBlank = o := by
    rintro (_ | s) hs
    · rfl
    · exact hs s rfl
  refine ⟨CleanName.isBlankText h.title, ?_, bind_nonBlank _ fun s hs => ?_,
    bind_nonBlank _ fun s hs => ?_, bind_nonBlank _ fun s hs => ?_, bind_nonBlank _ fun s hs => ?_⟩
  · unfold Column.coherent
    split
    · next hkey => rw [← ht.required c hc hkey]
    · rfl
  · exact nonBlank_of_isRaw (h.default s hs).raw
  · exact nonBlank_eq (point_mem_foreignKey ht hc hs) rfl
  · rcases h.type with hd | hd
    · obtain ⟨e, hk, -, hcanonical, -⟩ := enumColumn_tokens {} hd he
      obtain rfl := Option.some.inj (hk.symm.trans hs)
      exact hcanonical.nonBlank_key
    · rw [hd.enumName] at hs
      cases hs
  · rw [nonBlank, hl.comments c hc s hs]
    rfl

/-- Columns with distinct titles are clean one after the other. -/
theorem cleanColumns_of_nodup {columns : List Column} {seen : List String}
    (h : ∀ c ∈ columns, Cleaning.CleanColumn c) (hd : (columns.map Column.folded).Nodup)
    (hseen : ∀ c ∈ columns, c.folded ∉ seen) : Cleaning.CleanColumns seen columns := by
  induction columns generalizing seen with
  | nil => exact .nil
  | cons c columns ih =>
    rw [List.map_cons, List.nodup_cons] at hd
    refine .cons (h c List.mem_cons_self) (hseen c List.mem_cons_self)
      (ih (fun d hm => h d (List.mem_cons_of_mem c hm)) hd.2 fun d hm => ?_)
    rw [List.mem_cons, not_or]
    refine ⟨fun hdc => hd.1 ?_, hseen d (List.mem_cons_of_mem c hm)⟩
    have hcd : c.folded = d.folded := hdc.symm
    rw [hcd]
    exact List.mem_map_of_mem hm

theorem CanonicalTable.clean (h : CanonicalTable enums key t)
    (he : ∀ e ∈ enums.entries, CanonicalEnum e.1 e.2) (hl : Listed t) :
    Cleaning.CleanTable key t.stripped := by
  have hcolumns : Cleaning.CleanColumns [] t.columns :=
    cleanColumns_of_nodup (fun c hc => (h.columns c hc).clean he h.toConsistent hl hc) h.titles
      fun _ _ => List.not_mem_nil
  refine ⟨fun hblank => ?_, ?_, hl.columns, hcolumns⟩
  · rw [Table.stripped, CleanName.isBlankText h.title] at hblank
    cases hblank
  · obtain ⟨c, hc, hb⟩ := h.title.exists_not_blank
    refine isBlankText_eq_false (c := c) ?_ hb
    rw [← h.key, Table.key, key_eq h.schema]
    cases t.schema with
    | none => exact hc
    | some s =>
      rw [Option.elim_some, String.toList_append]
      exact List.mem_append_right _ hc

end Written

namespace Cleaning

variable {current tables : OrderedMap Table} {enums : OrderedMap EnumType}

theorem keepLayout_stripped (t : Table) : keepLayout t.stripped (some t) = t := rfl

/-- Clean tables that were stripped of their layout take it back. -/
theorem placed_stripped (hclean : CleanTables tables)
    (h : ∀ k, tables.get? k = (current.get? k).map Table.stripped) :
    (placed current (tables.map fun _ t => t.toJson)).Equiv current := by
  intro k
  rw [placed, clean_toJson hclean, OrderedMap.get?_map, h k]
  cases current.get? k with
  | none => rfl
  | some t => rw [Option.map_some, Option.map_some, keepLayout_stripped]

/-- Valid enum types are read as they are, in their order. -/
theorem mergeEnums_encoded (h : ∀ k e, enums.get? k = some e → e.Valid) :
    (mergeEnums {} (enums.map fun _ e => e.toJson)).value = enums := by
  have hread : (Logged.overMap cleanEnum (enums.map fun _ e => e.toJson)).value.filterMap
      (fun _ e => e) = enums := by
    rw [Logged.value_overMap, OrderedMap.filterMap_map, OrderedMap.filterMap_map]
    refine OrderedMap.filterMap_eq_self fun k e he => ?_
    rw [cleanEnum, Decode.enumType_toJson (h k e he)]
    rfl
  rw [mergeEnums_value, hread]
  exact OrderedMap.ofList_entries enums

theorem mergeEnums_toJson (h : ∀ k e, enums.get? k = some e → e.Valid) :
    (mergeEnums {} (enums.map fun _ e => e.toJson)).value.Equiv enums := by
  rw [mergeEnums_encoded h]
  exact OrderedMap.Equiv.refl enums

end Cleaning

/-! ## Sessions -/

/-- The texts of generated statements are the standard ones, but for the type of an enum column
    without a name. -/
theorem Settings.render_ofEnv {env : String → Option String} {settings : Settings}
    (h : Settings.ofEnv env = .ok settings) :
    settings.render = { fallbackType := settings.render.fallbackType } := by
  unfold Settings.ofEnv at h
  simp only [bind, Except.bind, pure, Except.pure] at h
  repeat' split at h
  all_goals cases h
  rfl

namespace Session

variable {s : Session} {host : Host}

/-- The live schema agrees with the snapshot of the current entry, and all that is said is said about
    live edges. -/
structure Current (s : Session) : Prop where
  live : ∃ c, s.history.current? = some c ∧ c.snapshot.Agrees s.snapshot
  edges : ∀ id ∈ s.cardinalities.keys, ∃ e ∈ s.edges.value, e.id = id

/-- A schema with the contents of the live one changes neither the history nor what is said about
    edges when it is committed. -/
theorem value_commit_equiv (h : s.Current) {schema : Schema} {stamp : Stamp} {label : Label}
    (htables : schema.tables.Equiv s.schema.tables) (henums : schema.enums.Equiv s.schema.enums) :
    (s.commit stamp schema label).value =
      { s with schema, visible := shownWith s.visible schema } := by
  have hpruned : Edge.pruned schema.tables s.cardinalities = s.cardinalities := by
    refine Edge.pruned_eq_self fun id hid => ?_
    obtain ⟨e, he, hid⟩ := h.edges id hid
    exact ⟨e, (Edge.mem_edges_congr htables).2 he, hid⟩
  have hinstall : s.install schema = { s with schema, visible := shownWith s.visible schema } := by
    unfold Edge.pruned at hpruned
    rw [install, hpruned]
  obtain ⟨c, hc, hlive⟩ := h.live
  have hrepeats : s.history.repeats ((s.install schema).entry stamp label) = true := by
    rw [History.repeats, hc, Option.any_some]
    refine Snapshot.same_of_agrees ⟨fun k => ?_, hlive.enums.trans ?_, ?_⟩
    · rw [hinstall]
      have hk := hlive.tables k
      rwa [show s.snapshot.schema.tables.get? k = schema.tables.get? k from (htables k).symm] at hk
    · rw [hinstall]
      exact henums.symm
    · rw [hinstall]
      exact hlive.cardinalities
  rw [value_commit, if_pos hrepeats, hinstall]

/-- **An unedited document.** In a session that shows the schema of its current entry and says
    nothing about edges that are gone, with a canonical schema whose tables list their parts in order,
    generating the document succeeds, and so does applying it; the tables with their layout, the enum
    types, what is said about edges and the history are what they were. -/
theorem run_document_generate {env : String → Option String} {settings : Settings}
    (hsettings : Settings.ofEnv env = .ok settings) (h : s.Current)
    (hcanonical : Written.Canonical s.schema) (hlisted : ∀ e ∈ s.schema.tables.entries, Listed e.2)
    (stamp : Stamp) (host : Host) :
    ∃ text s' answer, (s.generate ⟨.ok settings, stamp⟩ none).result = .ok text ∧
      (s.run host (.applyDocument text)).result = .ok (s', answer) ∧
      s'.schema.tables.Equiv s.schema.tables ∧ s'.schema.enums.Equiv s.schema.enums ∧
      s'.cardinalities = s.cardinalities ∧ s'.history = s.history := by
  obtain ⟨text, hgenerate, read, hread, henums, htables⟩ :=
    Written.generate_rebuilt hcanonical settings.render.fallbackType
  rw [← Settings.render_ofEnv hsettings] at hgenerate
  have hstripped : ∀ k, read.tables.get? k = (s.schema.tables.get? k).map Table.stripped := by
    intro k
    rw [htables k, ← Settings.render_ofEnv hsettings]
    cases ht : s.schema.tables.get? k with
    | none => rfl
    | some t =>
      have hm := OrderedMap.get?_eq_some_iff.1 ht
      exact congrArg some (Written.rebuilt_listed
        ((hcanonical.tables _ hm).restored hcanonical.enums henums) (hlisted _ hm))
  have hclean : Cleaning.CleanTables read.tables := by
    intro k u hu
    rw [hstripped k, Option.map_eq_some_iff] at hu
    obtain ⟨t, ht, rfl⟩ := hu
    have hm := OrderedMap.get?_eq_some_iff.1 ht
    exact (hcanonical.tables _ hm).clean hcanonical.enums (hlisted _ hm)
  have hvalid : ∀ k e, read.enums.get? k = some e → e.Valid := by
    intro k e he
    have hcanonical := hcanonical.enums _ (OrderedMap.get?_eq_some_iff.1 ((henums k).symm.trans he))
    exact ⟨hcanonical.name.nonempty, hcanonical.values⟩
  obtain ⟨replaced, hreplaced⟩ : ∃ replaced, replaced =
      (s.schema.replaceTables (rawTables read) (some (rawEnums read))).value := ⟨_, rfl⟩
  have hplaced : replaced.1.tables.Equiv s.schema.tables := by
    rw [hreplaced]
    simp only [Schema.replaceTables, Logged.value_bind, Logged.value_pure, Cleaning.replace_tables]
    exact Cleaning.placed_stripped hclean hstripped
  have hmerged : replaced.1.enums.Equiv s.schema.enums := by
    rw [hreplaced]
    simp only [Schema.replaceTables, Logged.value_bind, Logged.value_pure]
    exact (Cleaning.mergeEnums_toJson hvalid).trans henums
  have happlied : (s.applyDocument host text).result =
      .ok ({ s with schema := replaced.1, visible := shownWith s.visible replaced.1 },
        replaced.2) := by
    rw [result_applyDocument hread, perform, Action.result_bind, Action.result_adapt]
    have hedit : ((Edit.replaceTables (rawTables read) (some (rawEnums read))).apply s.schema).result =
        .ok replaced := congrArg Except.ok hreplaced.symm
    rw [hedit]
    have hcommit : (s.commit host.stamp replaced.1 .applyDocument).value =
        { s with schema := replaced.1, visible := shownWith s.visible replaced.1 } :=
      value_commit_equiv h hplaced hmerged
    exact congrArg (fun s' => Except.ok (s', replaced.2)) hcommit
  refine ⟨text, _, _, ?_, asEdited_ok happlied, hplaced, hmerged, rfl, rfl⟩
  rw [generate, Action.result_adapt, hgenerate]
  rfl

/-! ### A session with a layout -/

/-- The example table with a place and a colour. -/
def placedTable : Table :=
  { Written.exampleTable with position := some ⟨.one, .zero⟩, color := some "teal" }

/-- A session with that table, of whose edge something is said, and with something to redo. -/
def nightSession : Session where
  schema :=
    { Written.exampleSchema with tables := ⟨[("app.night shift", placedTable)], by decide⟩ }
  cardinalities := ⟨[("night shift.before-app.night shift.id", .oneToOne)], by decide⟩
  history :=
    { past :=
        [{ stamp := ⟨"1", 0⟩, label := "Initial state",
           snapshot :=
            ⟨{ Written.exampleSchema with
                tables := ⟨[("app.night shift", placedTable)], by decide⟩ },
              ⟨[("night shift.before-app.night shift.id", .oneToOne)], by decide⟩⟩ }]
      future := [{ stamp := ⟨"2", 1⟩, label := "Clear schema", snapshot := {} }]
      maxEntries := 2 }

theorem canonical_nightSession : Written.Canonical nightSession.schema := by
  refine ⟨Written.canonical_exampleSchema.enums, fun e he => ?_⟩
  obtain rfl := List.mem_singleton.1 he
  have h := Written.canonical_exampleSchema.tables _ (List.mem_singleton.2 rfl)
  exact
    { titles := h.titles
      required := h.required
      writable := h.writable
      unfolded := h.unfolded
      known := h.known
      apart := h.apart
      matched := h.matched
      keys := h.keys
      uniques := h.uniques
      targets := h.targets
      references := h.references
      key := h.key
      title := h.title
      schema := h.schema
      columns := h.columns
      constraints := h.constraints
      referenced := h.referenced
      indexes := h.indexes
      indexNames := h.indexNames
      isView := h.isView
      comment := h.comment }

theorem listed_placedTable : Listed placedTable where
  columns := by decide
  comments := by
    intro c hc text htext
    simp only [placedTable, Written.exampleTable, List.mem_cons, List.not_mem_nil, or_false] at hc
    rcases hc with rfl | rfl | rfl
    · cases htext
    · cases htext
      decide +kernel
    · cases htext
  constraints := List.pairwise_singleton _ _
  indexes := List.pairwise_singleton _ _

theorem current_nightSession : nightSession.Current where
  live := ⟨_, rfl, Snapshot.agrees_of_same (by decide +kernel)⟩
  edges := by
    intro id hid
    obtain rfl := List.mem_singleton.1 hid
    have hfound : (nightSession.edges.value.any fun e =>
        e.id == "night shift.before-app.night shift.id") = true := by decide +kernel
    obtain ⟨e, he, hid⟩ := List.any_eq_true.1 hfound
    exact ⟨e, he, eq_of_beq hid⟩

theorem run_document_generate_nightSession :
    Settings.ofEnv (fun _ => none) = .ok {} ∧ nightSession.Current ∧
      Written.Canonical nightSession.schema ∧
      (∀ e ∈ nightSession.schema.tables.entries, Listed e.2) ∧
      ∃ text s' answer, (nightSession.generate ⟨.ok {}, ⟨"3", 2⟩⟩ none).result = .ok text ∧
        (nightSession.run fixedHost (.applyDocument text)).result = .ok (s', answer) ∧
        s'.schema.tables.Equiv nightSession.schema.tables ∧
        s'.schema.enums.Equiv nightSession.schema.enums ∧
        s'.cardinalities = nightSession.cardinalities ∧ s'.history = nightSession.history := by
  have hsettings : Settings.ofEnv (fun _ => none) = .ok {} := rfl
  have hlisted : ∀ e ∈ nightSession.schema.tables.entries, Listed e.2 := by
    intro e he
    obtain rfl := List.mem_singleton.1 he
    exact listed_placedTable
  exact ⟨hsettings, current_nightSession, canonical_nightSession, hlisted,
    run_document_generate hsettings current_nightSession canonical_nightSession hlisted ⟨"3", 2⟩
      fixedHost⟩

end Session

end Schemata
