/-
  Tables that are restored by their statements.

  * `foldl_addIndex` and `foldl_commentFunctions`: indexes of distinct names are added in their
    order, and every comment finds its column;
  * `Restored` tables are consistent, and their columns are rebuilt but for flags and comments;
  * `outline_rebuilt`: such a table has the outline that it was written from;
  * `sameOutline_of_rebuilt`: so does a schema of such tables.
-/
import Schemata.Proofs.Folding
import Schemata.Proofs.Rebuilding

namespace Schemata.Written

open Log Schema

variable {options : RenderOptions} {s s' : Schema} {t u : Table}
variable {enums enums' : OrderedMap EnumType}

/-! ## Indexes -/

/-- Indexes of distinct names are added one after the other. -/
theorem foldl_addIndex {l : List Index} (hd : ((u.indexes ++ l).map (·.name)).Nodup) :
    (l.map fun i u => Table.addIndex u i).foldl (fun u f => f u) u =
      { u with indexes := u.indexes ++ l } := by
  induction l generalizing u with
  | nil => simp
  | cons i l ih =>
    have hone : u.addIndex i = { u with indexes := u.indexes ++ [i] } := by
      have : u.indexes.filter (fun j => j.name != i.name) = u.indexes := by
        refine List.filter_eq_self.2 fun j hj => ?_
        rw [bne_iff_ne]
        intro hname
        rw [List.map_append, List.nodup_append] at hd
        exact hd.2.2 j.name (List.mem_map_of_mem hj) i.name List.mem_cons_self hname
      rw [Table.addIndex, this]
    rw [List.map_cons, List.foldl_cons]
    dsimp only
    rw [hone, ih (by simpa using hd)]
    simp

/-! ## Comments -/

/-- The column with its comment if another column of its name has one. -/
def noted (d c : Column) : Column :=
  match filled c.comment with
  | some text => if d.folded = c.folded then { d with comment := some text } else d
  | none => d

theorem folded_noted (d c : Column) : (noted d c).folded = d.folded := by
  unfold noted
  split
  · split <;> rfl
  · rfl

theorem foldl_noted_of_not_mem {l : List Column} {d : Column}
    (h : d.folded ∉ l.map Column.folded) : l.foldl noted d = d := by
  induction l with
  | nil => rfl
  | cons c l ih =>
    rw [List.map_cons, List.mem_cons, not_or] at h
    have : noted d c = d := by
      unfold noted
      split
      · exact if_neg h.1
      · rfl
    rw [List.foldl_cons, this, ih h.2]

/-- Of columns with distinct names one alone gives its comment to a column. -/
theorem foldl_noted {l : List Column} {c d : Column} (hd : (l.map Column.folded).Nodup)
    (hc : c ∈ l) (he : d.folded = c.folded) : l.foldl noted d = noted d c := by
  induction l generalizing d with
  | nil => cases hc
  | cons c' l ih =>
    rw [List.map_cons, List.nodup_cons] at hd
    rw [List.foldl_cons]
    rcases List.mem_cons.1 hc with rfl | hc
    · refine foldl_noted_of_not_mem ?_
      rw [folded_noted, he]
      exact hd.1
    · have hne : d.folded ≠ c'.folded := by
        rw [he]
        exact fun hcc => hd.1 (hcc ▸ List.mem_map_of_mem hc)
      have : noted d c' = d := by
        unfold noted
        split
        · exact if_neg hne
        · rfl
      rw [this, ih hd.2 hc he]

theorem takeComment_column (text : String) (c : Column) (hd : (u.columns.map Column.folded).Nodup) :
    u.takeComment (some c.title) (some text) =
      { u with columns := u.columns.map fun d =>
                if d.folded = c.folded then { d with comment := some text } else d } := by
  rw [Table.takeComment, Table.updateColumn_eq c.title hd]
  rfl

/-- The comments on columns. -/
theorem foldl_columnComments (l : List Column) (hd : (u.columns.map Column.folded).Nodup) :
    (l.flatMap fun c => (filled c.comment).toList.map fun text =>
      Table.takeComment (some c.title) (some text)).foldl (fun u f => f u) u =
      { u with columns := u.columns.map fun d => l.foldl noted d } := by
  induction l generalizing u with
  | nil => simp
  | cons c l ih =>
    have hone : ((filled c.comment).toList.map fun text =>
        Table.takeComment (some c.title) (some text)).foldl (fun u f => f u) u =
        { u with columns := u.columns.map fun d => noted d c } := by
      unfold noted
      cases filled c.comment with
      | none => simp
      | some text => exact takeComment_column text c hd
    have hd' : ((u.columns.map fun d => noted d c).map Column.folded).Nodup := by
      rw [List.map_map]
      simpa only [Function.comp_def, folded_noted] using hd
    rw [List.flatMap_cons, List.foldl_append, hone, ih hd', List.map_map]
    rfl

/-- All comments on a table that has none yet. -/
theorem foldl_commentFunctions (hd : (t.columns.map Column.folded).Nodup)
    (ht : t.comment ≠ some "") (hu : u.comment = none) {g : Column → Column}
    (hg : ∀ c ∈ t.columns, (g c).folded = c.folded) (hc : u.columns = t.columns.map g) :
    (commentFunctions t).foldl (fun u f => f u) u =
      { u with
        comment := t.comment
        columns := t.columns.map fun c => noted (g c) c } := by
  have hown : ((filled t.comment).toList.map fun text =>
      Table.takeComment none (some text)).foldl (fun u f => f u) u =
      { u with comment := t.comment } := by
    rw [filled_eq_self ht]
    cases t.comment with
    | none =>
      have hsame : { u with comment := none } = u := by rw [← hu]
      exact hsame.symm
    | some text => rfl
  have hfolded : (u.columns.map Column.folded) = t.columns.map Column.folded := by
    rw [hc, List.map_map]
    exact List.map_congr_left hg
  rw [commentFunctions, List.foldl_append, hown, foldl_columnComments _ (by rwa [hfolded]), hc,
    List.map_map]
  refine congrArg (fun columns => { u with comment := t.comment, columns }) ?_
  exact List.map_congr_left fun c hcm => foldl_noted hd hcm (hg c hcm)

/-! ## Whole tables -/

/-- The column as its definition gives it: without the flags that constraints imply and without its
    comment. -/
def bareColumn (c : Column) : Column :=
  { c with primaryKey := false, unique := false, foreignKey := none, comment := none }

theorem cleared_bareColumn (c : Column) : (bareColumn c).Cleared c := ⟨rfl, rfl, rfl, rfl, rfl⟩

/-- The statements of a table give back all that they were written from. -/
structure Restored (options : RenderOptions) (enums enums' : OrderedMap EnumType) (t : Table) :
    Prop extends Consistent t where
  columns : ∀ c ∈ t.columns, buildColumn enums' t.schema (definition options enums c) = bareColumn c
  indexes : (t.indexes.map (·.name)).Nodup
  isView : t.isView = false
  comment : t.comment ≠ some ""
  comments : ∀ c ∈ t.columns, c.comment ≠ some ""

theorem rebuilt_eq (h : Restored options enums enums' t) : rebuilt options enums enums' t =
    { title := t.title
      schema := t.schema
      columns := t.columns
      constraints := Constraint.byKind t.constraints
      indexes := t.indexes.mergeSort Index.le
      comment := t.comment } := by
  have hdefined : (definedTable options enums enums' t).columns = t.columns.map bareColumn := by
    rw [definedTable, List.map_map]
    exact List.map_congr_left h.columns
  have hindexes : ((t.indexes.mergeSort Index.le).map (·.name)).Nodup :=
    ((List.mergeSort_perm _ _).map _).nodup_iff.2 h.indexes
  have hcolumn : ∀ c ∈ t.columns, noted ((bareColumn c).withFlags c) c = c := by
    intro c hc
    unfold noted
    rw [filled_eq_self (h.comments c hc)]
    obtain ⟨title, format, category, defaultText, required, primaryKey, unique, foreignKey, enumName,
      enumValues, comment⟩ := c
    cases comment with
    | none => rfl
    | some text => exact if_pos rfl
  have hfolded : ∀ c ∈ t.columns, ((bareColumn c).withFlags c).folded = c.folded := fun _ _ => rfl
  rw [rebuilt, tableEdits, List.foldl_append, List.foldl_append,
    Table.foldl_allConstraints h.toConsistent (fun c _ => cleared_bareColumn c) hdefined rfl,
    foldl_addIndex (by simpa [definedTable] using hindexes),
    foldl_commentFunctions h.titles h.comment rfl hfolded rfl, List.map_congr_left hcolumn,
    List.map_id']
  rfl

/-- The table that the statements give has the same outline. -/
theorem outline_rebuilt (h : Restored options enums enums' t) :
    (rebuilt options enums enums' t).outline = t.outline := by
  rw [rebuilt_eq h]
  unfold Table.outline
  dsimp only
  rw [Constraint.mergeSort_byKind, mergeSort_mergeSort Index.le_trans Index.le_total, ← h.isView]

/-! ## Schemas -/

theorem sameBy_of_equiv {α : Type} [BEq α] [LawfulBEq α] {a b : OrderedMap α} (h : a.Equiv b) :
    a.sameBy (· == ·) b = true :=
  OrderedMap.sameBy_of_agree (OrderedMap.agree_beq_iff.2 h)

/-- A schema of rebuilt tables has the same outline. -/
theorem sameOutline_of_rebuilt (henums : s'.enums.Equiv s.enums)
    (htables : ∀ k, s'.tables.get? k = (s.tables.get? k).map (rebuilt options s.enums s'.enums))
    (h : ∀ e ∈ s.tables.entries, Restored options s.enums s'.enums e.2) :
    s'.sameOutline s = true := by
  rw [sameOutline, sameBy_of_equiv henums, Bool.and_true]
  refine sameBy_of_equiv fun k => ?_
  rw [outline, outline, OrderedMap.get?_map, OrderedMap.get?_map, htables k, Option.map_map]
  cases ht : s.tables.get? k with
  | none => rfl
  | some t => exact congrArg some (outline_rebuilt (h (k, t) (OrderedMap.get?_eq_some_iff.1 ht)))

end Schemata.Written
