/-
  What becomes of the references of columns.

  * `slots` are the columns of tables, with their places, in the order of the tables and of their
    columns;
  * `Edge.Draws` says what an edge of a column joins, and `Dangling.Reports` why the reference of a
    column has no target;
  * `exists_verdicts`: one pass over the slots decides each of them, and the edges and the reports are what it
    collects, so every reference is either drawn or reported, and never both.
-/
import Schemata.Edge.Dangling
import Schemata.Proofs.Maps

namespace Schemata

open Log

/-- A column of a table: the key of the table, and the position of the column. -/
structure Slot where
  key : String
  table : Table
  index : Nat
  column : Column

/-- The columns of tables. -/
def slots (tables : OrderedMap Table) : List Slot :=
  tables.entries.flatMap fun (key, t) => t.columns.zipIdx.map fun (col, i) => ⟨key, t, i, col⟩

section
variable {tables : OrderedMap Table} {c : OrderedMap Cardinality} {slot : Slot} {t : Table}
  {key name : String} {i : Nat} {col : Column}

theorem get?_of_mem_slots (h : slot ∈ slots tables) :
    tables.get? slot.key = some slot.table ∧
      slot.table.columns[slot.index]? = some slot.column := by
  obtain ⟨⟨key, t⟩, hentry, hslot⟩ := List.mem_flatMap.1 h
  obtain ⟨⟨col, i⟩, hcol, rfl⟩ := List.mem_map.1 hslot
  exact ⟨OrderedMap.get?_eq_some_iff.2 hentry, List.mem_zipIdx_iff_getElem?.1 hcol⟩

/-! ## Finding a column -/

/-- The column at a position is the first one that goes by a name. -/
structure Table.FirstNamed (t : Table) (name : String) (i : Nat) (col : Column) : Prop where
  there : t.columns[i]? = some col
  named : Quote.fold col.title = Quote.fold name
  first : ∀ j < i, ∀ other, t.columns[j]? = some other → Quote.fold other.title ≠ Quote.fold name

theorem Table.firstNamed_iff : t.FirstNamed name i col ↔
    t.columnIndex? name = some i ∧ t.columns[i]? = some col := by
  rw [Table.columnIndex?, List.findIdx?_eq_some_iff_getElem]
  constructor
  · rintro ⟨hcol, hname, hfirst⟩
    obtain ⟨hlt, heq⟩ := List.getElem?_eq_some_iff.1 hcol
    refine ⟨⟨hlt, ?_, fun j hj => ?_⟩, hcol⟩
    · rw [heq]
      simpa [Table.hasName] using hname
    · have hne := hfirst j hj _ (List.getElem?_eq_getElem (Nat.lt_trans hj hlt))
      simpa [Table.hasName] using hne
  · rintro ⟨⟨hlt, hname, hfirst⟩, hcol⟩
    obtain ⟨_, heq⟩ := List.getElem?_eq_some_iff.1 hcol
    refine ⟨hcol, ?_, fun j hj other hother => ?_⟩
    · rw [heq] at hname
      simpa [Table.hasName] using hname
    · obtain ⟨hj', heq'⟩ := List.getElem?_eq_some_iff.1 hother
      have hne := hfirst j hj
      rw [heq'] at hne
      simpa [Table.hasName] using hne

/-- The key of the table that a reference in a table names: where the reference has no schema, it is
    that of the table. -/
def Name.ColumnRef.keyIn (r : Name.ColumnRef) (t : Table) : String :=
  Name.key ((filled r.schema).or t.schema) r.table

namespace Edge

theorem target?_eq (t : Table) (text : String) :
    target? t text = (Name.column? text).map fun r => (r.keyIn t, r.column) := rfl

/-- A column is located at the first one of its name. -/
theorem locate?_eq_some_iff : locate? tables key name = some (i, col) ↔
    ∃ t, tables.get? key = some t ∧ t.FirstNamed name i col := by
  rw [locate?, Option.bind_eq_some_iff]
  refine exists_congr fun t => and_congr_right fun _ => ?_
  rw [Table.firstNamed_iff, Option.bind_eq_some_iff]
  constructor
  · rintro ⟨j, hj, hcol⟩
    obtain ⟨other, hother, heq⟩ := Option.map_eq_some_iff.1 hcol
    cases heq
    exact ⟨hj, hother⟩
  · rintro ⟨hi, hcol⟩
    exact ⟨i, hi, by rw [hcol]; rfl⟩

/-- A column of a table is located just if the table has one of its name. -/
theorem locate?_map_snd (ht : tables.get? key = some t) :
    (locate? tables key name).map Prod.snd = t.findColumn? name := by
  rw [locate?, ht, Option.bind_some, Table.findColumn?, List.find?_eq_bind_findIdx?_getElem?]
  cases hi : t.columnIndex? name with
  | none =>
    rw [Table.columnIndex?] at hi
    rw [hi]
    rfl
  | some i =>
    rw [Table.columnIndex?] at hi
    rw [hi]
    simp [Function.comp_def]

end Edge

/-! ## One column -/

/-- What an edge of a column joins: the column itself, at its place in its table, and the first column
    of the name that its reference gives in the table that its reference names. -/
structure Edge.Draws (tables : OrderedMap Table) (c : OrderedMap Cardinality) (slot : Slot)
    (e : Edge) : Prop where
  source : e.source = slot.key
  sourceTable : tables.get? e.source = some slot.table
  sourceIndex : e.sourceIndex = slot.index
  sourceAt : slot.table.columns[e.sourceIndex]? = some slot.column
  sourceColumn : e.sourceColumn = slot.column.title
  target : ∃ text r t col, filled slot.column.foreignKey = some text ∧
    Name.column? text = some r ∧ e.target = r.keyIn slot.table ∧ tables.get? e.target = some t ∧
    t.FirstNamed r.column e.targetIndex col ∧ e.targetColumn = col.title ∧
    e.id = Edge.idOf slot.table.title slot.column.title e.target r.column
  cardinality : e.cardinality = (c.get? e.id).getD .oneToMany

/-- Why a reference in a table has no target. -/
inductive Unresolved (tables : OrderedMap Table) (t : Table) (text : String) :
    DanglingReason → Prop
  | unreadable : Name.column? text = none → Unresolved tables t text .unreadable
  | noTable {r : Name.ColumnRef} : Name.column? text = some r → tables.get? (r.keyIn t) = none →
      Unresolved tables t text (.noTable (r.keyIn t))
  | noColumn {r : Name.ColumnRef} {u : Table} : Name.column? text = some r →
      tables.get? (r.keyIn t) = some u →
      (∀ col ∈ u.columns, Quote.fold col.title ≠ Quote.fold r.column) →
      Unresolved tables t text (.noColumn r.column (r.keyIn t))

/-- What a report says about the column that it is about. -/
structure Dangling.Reports (tables : OrderedMap Table) (slot : Slot) (d : Dangling) : Prop where
  tableKey : d.tableKey = slot.key
  column : d.column = some slot.column.title
  reference : filled slot.column.foreignKey = some d.reference
  reason : Unresolved tables slot.table d.reference d.reason

/-- What becomes of a column: it refers to nothing, or is drawn, or is reported. -/
inductive Verdict (tables : OrderedMap Table) (c : OrderedMap Cardinality) (slot : Slot) :
    Option Edge × Option Dangling → Prop
  | silent : filled slot.column.foreignKey = none → Verdict tables c slot (none, none)
  | drawn {e : Edge} : e.Draws tables c slot → Verdict tables c slot (some e, none)
  | reported {d : Dangling} : d.Reports tables slot → Verdict tables c slot (none, some d)

theorem Edge.ofColumn_value {text : String} (htext : filled col.foreignKey = some text) :
    (Edge.ofColumn tables c key t i col).value =
      (Name.column? text).bind fun r => (Edge.locate? tables (r.keyIn t) r.column).map fun found =>
        let id := Edge.idOf t.title col.title (r.keyIn t) r.column
        { id, source := key, target := r.keyIn t, sourceColumn := col.title,
          targetColumn := found.2.title, sourceIndex := i, targetIndex := found.1,
          cardinality := (c.get? id).getD .oneToMany } := by
  simp only [Edge.ofColumn, htext, Edge.target?_eq]
  cases Name.column? text with
  | none => rfl
  | some r =>
    simp only [Option.map_some, Option.bind_some]
    cases Edge.locate? tables (r.keyIn t) r.column <;> rfl

namespace Dangling

theorem columnReason_eq_none_iff :
    columnReason tables key name = none ↔ (Edge.locate? tables key name).isSome := by
  rw [columnReason]
  cases ht : tables.get? key with
  | none => simp [Edge.locate?, ht]
  | some t =>
    have hsome : (Edge.locate? tables key name).isSome = (t.findColumn? name).isSome := by
      rw [← Edge.locate?_map_snd ht, Option.isSome_map]
    rw [hsome]
    cases hcol : t.findColumn? name <;> simp [hcol]

/-- A reference has no reason to be reported just if its column is located. -/
theorem referenceReason_eq_none_iff {text : String} : referenceReason tables t text = none ↔
    ∃ r, Name.column? text = some r ∧ (Edge.locate? tables (r.keyIn t) r.column).isSome := by
  rw [referenceReason, Edge.target?_eq]
  cases Name.column? text with
  | none => simp
  | some r => simp [columnReason_eq_none_iff]

theorem unresolved_of_referenceReason {text : String} {reason : DanglingReason}
    (h : referenceReason tables t text = some reason) : Unresolved tables t text reason := by
  rw [referenceReason, Edge.target?_eq] at h
  cases hr : Name.column? text with
  | none =>
    rw [hr] at h
    cases h
    exact .unreadable hr
  | some r =>
    rw [hr, Option.map_some] at h
    dsimp only [columnReason] at h
    cases hu : tables.get? (r.keyIn t) with
    | none =>
      rw [hu] at h
      cases h
      exact .noTable hr hu
    | some u =>
      rw [hu] at h
      dsimp only at h
      split at h
      · cases h
      · next hcol =>
        cases h
        rw [Option.not_isSome_iff_eq_none, Table.findColumn?, List.find?_eq_none] at hcol
        exact .noColumn hr hu fun col hm => by simpa [Table.hasName] using hcol col hm

theorem column_ofColumn {d : Dangling} (h : ofColumn tables key t col = some d) :
    d.column = some col.title := by
  obtain ⟨text, -, h⟩ := Option.bind_eq_some_iff.1 h
  obtain ⟨reason, -, rfl⟩ := Option.map_eq_some_iff.1 h
  rfl

theorem column_ofConstraint {d : Dangling} {con : Constraint}
    (h : ofConstraint tables key con = some d) : d.column = none := by
  obtain ⟨r, -, h⟩ := Option.bind_eq_some_iff.1 h
  obtain ⟨reason, -, rfl⟩ := Option.map_eq_some_iff.1 h
  rfl

end Dangling

/-- The edge and the report of a column. -/
def Slot.outcome (tables : OrderedMap Table) (c : OrderedMap Cardinality) (slot : Slot) :
    Option Edge × Option Dangling :=
  ((Edge.ofColumn tables c slot.key slot.table slot.index slot.column).value,
    Dangling.ofColumn tables slot.key slot.table slot.column)

/-- The reference of a column is drawn where its column is located, and reported where it is not. -/
theorem verdict_outcome (c : OrderedMap Cardinality) (h : slot ∈ slots tables) :
    Verdict tables c slot (slot.outcome tables c) := by
  obtain ⟨htable, hcolumn⟩ := get?_of_mem_slots h
  rw [Slot.outcome]
  cases htext : filled slot.column.foreignKey with
  | none =>
    simp only [Edge.ofColumn, Dangling.ofColumn, htext, Logged.value_pure, Option.bind_none]
    exact .silent htext
  | some text =>
    rw [Edge.ofColumn_value htext, Dangling.ofColumn, htext, Option.bind_some]
    cases hreason : Dangling.referenceReason tables slot.table text with
    | none =>
      obtain ⟨r, hr, hfound⟩ := Dangling.referenceReason_eq_none_iff.1 hreason
      obtain ⟨⟨i, col⟩, hloc⟩ := Option.isSome_iff_exists.1 hfound
      obtain ⟨u, hu, hfirst⟩ := Edge.locate?_eq_some_iff.1 hloc
      rw [hr, Option.bind_some, hloc, Option.map_some, Option.map_none]
      exact .drawn ⟨rfl, htable, rfl, hcolumn, rfl,
        ⟨text, r, u, col, htext, hr, rfl, hu, hfirst, rfl, rfl⟩, rfl⟩
    | some reason =>
      have hnot : ¬∃ r, Name.column? text = some r ∧
          (Edge.locate? tables (r.keyIn slot.table) r.column).isSome := fun h => by
        rw [Dangling.referenceReason_eq_none_iff.2 h] at hreason
        cases hreason
      rw [Option.bind_eq_none_iff.2 fun r hr => Option.map_eq_none_iff.2 <|
        Option.not_isSome_iff_eq_none.1 fun hfound => hnot ⟨r, hr, hfound⟩]
      exact .reported ⟨rfl, rfl, htext, Dangling.unresolved_of_referenceReason hreason⟩

/-! ## All columns -/

theorem value_ofColumns (columns : List Column) :
    (Edge.ofColumns tables c key t i columns).value =
      (columns.zipIdx i).filterMap fun (col, j) => (Edge.ofColumn tables c key t j col).value := by
  induction columns generalizing i with
  | nil => rfl
  | cons col columns ih =>
    rw [Edge.ofColumns, Logged.value_bind, Logged.value_bind, Logged.value_pure, ih,
      List.zipIdx_cons, List.filterMap_cons]
    cases hedge : (Edge.ofColumn tables c key t i col).value <;> simp [hedge]

/-- The edges are what is drawn, in the order of the columns. -/
theorem value_edges (tables : OrderedMap Table) (c : OrderedMap Cardinality) :
    (Edge.edges tables c).value = (slots tables).filterMap fun slot => (slot.outcome tables c).1 := by
  have hentries : ∀ l : List (String × Table), (Edge.ofEntries tables c l).value =
      l.flatMap fun (key, t) => t.columns.zipIdx.filterMap fun (col, j) =>
        (Edge.ofColumn tables c key t j col).value := by
    intro l
    induction l with
    | nil => rfl
    | cons e l ih =>
      rw [Edge.ofEntries, Logged.value_bind, Logged.value_bind, Logged.value_pure, ih,
        value_ofColumns, List.flatMap_cons]
  rw [Edge.edges, hentries, slots, List.filterMap_flatMap]
  simp only [List.filterMap_map, Function.comp_def, Slot.outcome]

/-- The reports about columns are what is reported of them, in the order of the columns. -/
theorem filter_all (tables : OrderedMap Table) (c : OrderedMap Cardinality) :
    (Dangling.all tables).filter (·.column.isSome) =
      (slots tables).filterMap fun slot => (slot.outcome tables c).2 := by
  have htable : ∀ key t, (Dangling.ofTable tables key t).filter (·.column.isSome) =
      t.columns.zipIdx.filterMap fun (col, _) => Dangling.ofColumn tables key t col := by
    intro key t
    have hcolumns : t.columns.filterMap (Dangling.ofColumn tables key t) =
        t.columns.zipIdx.filterMap fun (col, _) => Dangling.ofColumn tables key t col := by
      conv_lhs => rw [← List.zipIdx_map_fst 0 t.columns, List.filterMap_map]
      rfl
    rw [Dangling.ofTable, List.filter_append, hcolumns, List.filter_eq_self.2, List.filter_eq_nil_iff.2,
      List.append_nil]
    · intro d hd
      obtain ⟨con, -, hcon⟩ := List.mem_filterMap.1 hd
      rw [Dangling.column_ofConstraint hcon]
      simp
    · intro d hd
      obtain ⟨⟨col, i⟩, -, hcol⟩ := List.mem_filterMap.1 hd
      rw [Dangling.column_ofColumn hcol]
      rfl
  rw [Dangling.all, slots, List.filter_flatMap, List.filterMap_flatMap]
  simp only [htable, List.filterMap_map, Function.comp_def, Slot.outcome]

/-- **Every reference is drawn or reported.**  For each column, one after the other, there is a verdict:
    a column without a reference gives nothing, and every other one either an edge or a report.  The
    edges are those of the verdicts, and the reports about columns are those of the verdicts. -/
theorem exists_verdicts (tables : OrderedMap Table) (c : OrderedMap Cardinality) :
    ∃ outcomes, List.Forall₂ (Verdict tables c) (slots tables) outcomes ∧
      (Edge.edges tables c).value = outcomes.filterMap Prod.fst ∧
      (Dangling.all tables).filter (·.column.isSome) = outcomes.filterMap Prod.snd := by
  refine ⟨(slots tables).map (Slot.outcome tables c), ?_, ?_, ?_⟩
  · rw [List.forall₂_map_right_iff, List.forall₂_same]
    exact fun slot hslot => verdict_outcome c hslot
  · rw [value_edges, List.filterMap_map, Function.comp_def]
  · rw [filter_all tables c, List.filterMap_map, Function.comp_def]

end

end Schemata
