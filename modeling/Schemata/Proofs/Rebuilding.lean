/-
  Building a schema from what its document says.

  * `rebuilt` is a table built from its definition and edited by the statements about it;
  * `ofStatements_statements`: building from the statements of a schema succeeds, with the same enum
    types, and every table is the rebuilt one.
-/
import Schemata.Proofs.Building
import Schemata.Proofs.Generated

namespace Schemata.Written

open Log Schema

variable {options : RenderOptions} {s : Schema} {k : String} {t : Table}

/-! ## Rebuilt tables -/

/-- The table that a definition gives. -/
def definedTable (options : RenderOptions) (enums enums' : OrderedMap EnumType) (t : Table) : Table :=
  { title := t.title
    schema := t.schema
    columns := (t.columns.map (definition options enums)).map (buildColumn enums' t.schema) }

/-- What the comments on a table change in it. -/
def commentFunctions (t : Table) : List (Table → Table) :=
  (filled t.comment).toList.map (fun text => Table.takeComment none (some text)) ++
    t.columns.flatMap fun c =>
      (filled c.comment).toList.map fun text => Table.takeComment (some c.title) (some text)

/-- What the statements about a table change in it. -/
def tableEdits (t : Table) : List (Table → Table) :=
  t.allConstraints.map Table.takeConstraint ++
    ((t.indexes.mergeSort Index.le).map (fun i u => u.addIndex i) ++ commentFunctions t)

/-- The table that its definition and the statements about it give. -/
def rebuilt (options : RenderOptions) (enums enums' : OrderedMap EnumType) (t : Table) : Table :=
  (tableEdits t).foldl (fun u f => f u) (definedTable options enums enums' t)

/-! ## The edits of a document -/

/-- The edits of tables under their keys. -/
def keyedEdits (g : Table → List (Table → Table)) (l : List (String × Table)) : List TableEdit :=
  l.flatMap fun e => (g e.2).map fun f => (e.1, f)

theorem filter_keyedEdits {g : Table → List (Table → Table)} {l : List (String × Table)}
    (hd : (l.map Prod.fst).Nodup) (h : (k, t) ∈ l) :
    (keyedEdits g l).filter (fun e => e.1 == k) = (g t).map fun f => (k, f) := by
  have hother : ∀ l : List (String × Table), k ∉ l.map Prod.fst →
      (keyedEdits g l).filter (fun e => e.1 == k) = [] := by
    intro l hk
    refine List.filter_eq_nil_iff.2 fun e he => ?_
    obtain ⟨e', he', hf⟩ := List.mem_flatMap.1 he
    obtain ⟨f, -, rfl⟩ := List.mem_map.1 hf
    rw [beq_iff_eq]
    rintro rfl
    exact hk (List.mem_map_of_mem he')
  induction l with
  | nil => cases h
  | cons e l ih =>
    rw [List.map_cons, List.nodup_cons] at hd
    rw [keyedEdits, List.flatMap_cons, List.filter_append, ← keyedEdits]
    rcases List.mem_cons.1 h with rfl | h
    · rw [hother l hd.1, List.append_nil]
      refine List.filter_eq_self.2 fun e he => ?_
      obtain ⟨f, -, rfl⟩ := List.mem_map.1 he
      exact beq_self_eq_true k
    · rw [ih hd.2 h, List.filter_eq_nil_iff.2, List.nil_append]
      intro e' he'
      obtain ⟨f, -, rfl⟩ := List.mem_map.1 he'
      rw [beq_iff_eq]
      rintro rfl
      exact hd.1 (List.mem_map.2 ⟨_, h, rfl⟩)

/-- The statement defines neither a table nor an enum type. -/
def definesNothing : Statement → Bool
  | .createTable .. => false
  | .createEnum .. => false
  | _ => true

theorem definesNothing_constraints {x : Statement} (h : x ∈ constraintsOf t) :
    definesNothing x = true := by
  obtain ⟨c, -, rfl⟩ := List.mem_map.1 h
  rfl

theorem definesNothing_indexes {x : Statement} (h : x ∈ indexesOf t) : definesNothing x = true := by
  obtain ⟨i, -, rfl⟩ := List.mem_map.1 h
  rfl

theorem definesNothing_comments {x : Statement} (h : x ∈ commentsOf t) :
    definesNothing x = true := by
  rcases List.mem_append.1 h with h | h
  · obtain ⟨text, -, rfl⟩ := List.mem_map.1 h
    rfl
  · obtain ⟨c, -, h⟩ := List.mem_flatMap.1 h
    obtain ⟨text, -, rfl⟩ := List.mem_map.1 h
    rfl

theorem flatMap_empty {α β : Type} (l : List α) : (l.flatMap fun _ => ([] : List β)) = [] :=
  List.flatMap_eq_nil_iff.2 fun _ _ => rfl

section
variable (hk : ∀ e ∈ s.tables.entries, e.2.key = e.1)
include hk

theorem flatMap_edits {f : Table → List TableEdit} {g : Table → List (Table → Table)}
    (hf : ∀ t, f t = (g t).map fun h => (t.key, h)) :
    (Ddl.sortedTables s).flatMap (fun e => f e.2) = keyedEdits g (Ddl.sortedTables s) := by
  refine List.flatMap_congr fun e he => ?_
  rw [hf, hk e (List.mem_mergeSort.1 he)]

theorem constraintEdits_statements : (statements options s).flatMap constraintEdits =
    keyedEdits (fun t => t.allConstraints.map Table.takeConstraint) (Ddl.sortedTables s) := by
  have hindexes (t : Table) : (indexesOf t).flatMap constraintEdits = [] := by
    simp [indexesOf, List.flatMap_map, constraintEdits]
  have hcomments (t : Table) : (commentsOf t).flatMap constraintEdits = [] := by
    simp [commentsOf, List.flatMap_map, List.flatMap_assoc, constraintEdits]
  rw [← flatMap_edits hk (f := fun t => (constraintsOf t).flatMap constraintEdits)]
  · simp [statements, List.flatMap_map, List.flatMap_assoc, hindexes, hcomments, enumStatement,
      tableStatement, constraintEdits, flatMap_empty]
  · intro t
    rw [constraintsOf, List.flatMap_map, List.map_map, List.map_eq_flatMap]
    rfl

theorem indexEdits_statements : (statements options s).flatMap indexEdits =
    keyedEdits (fun t => (t.indexes.mergeSort Index.le).map fun i u => u.addIndex i)
      (Ddl.sortedTables s) := by
  have hconstraints (t : Table) : (constraintsOf t).flatMap indexEdits = [] := by
    simp [constraintsOf, List.flatMap_map, indexEdits]
  have hcomments (t : Table) : (commentsOf t).flatMap indexEdits = [] := by
    simp [commentsOf, List.flatMap_map, List.flatMap_assoc, indexEdits]
  rw [← flatMap_edits hk (f := fun t => (indexesOf t).flatMap indexEdits)]
  · simp [statements, List.flatMap_map, List.flatMap_assoc, hconstraints, hcomments, enumStatement,
      tableStatement, indexEdits, flatMap_empty]
  · intro t
    rw [indexesOf, List.flatMap_map, List.map_map, List.map_eq_flatMap]
    rfl

theorem commentEdits_statements : (statements options s).flatMap commentEdits =
    keyedEdits commentFunctions (Ddl.sortedTables s) := by
  have hconstraints (t : Table) : (constraintsOf t).flatMap commentEdits = [] := by
    simp [constraintsOf, List.flatMap_map, commentEdits]
  have hindexes (t : Table) : (indexesOf t).flatMap commentEdits = [] := by
    simp [indexesOf, List.flatMap_map, commentEdits]
  rw [← flatMap_edits hk (f := fun t => (commentsOf t).flatMap commentEdits)]
  · simp [statements, List.flatMap_map, List.flatMap_assoc, hconstraints, hindexes, enumStatement,
      tableStatement, commentEdits, flatMap_empty]
  · intro t
    simp only [commentsOf, commentFunctions, List.map_eq_flatMap, List.flatMap_append,
      List.flatMap_assoc]
    rfl

/-- The edits of a document for one table. -/
theorem filter_allEdits (h : (k, t) ∈ s.tables.entries) :
    (allEdits (statements options s)).filter (fun e => e.1 == k) =
      (tableEdits t).map fun f => (k, f) := by
  have hd : ((Ddl.sortedTables s).map Prod.fst).Nodup :=
    ((List.mergeSort_perm _ _).map Prod.fst).nodup_iff.2 s.tables.nodup
  have hm : (k, t) ∈ Ddl.sortedTables s := List.mem_mergeSort.2 h
  rw [allEdits, constraintEdits_statements hk, indexEdits_statements hk, commentEdits_statements hk,
    List.filter_append, List.filter_append, filter_keyedEdits hd hm, filter_keyedEdits hd hm,
    filter_keyedEdits hd hm, tableEdits, List.map_append, List.map_append]

/-! ## Definitions -/

theorem tables_statements (enums : OrderedMap EnumType) :
    (statements options s).filterMap (tableOf enums) =
      (Ddl.sortedTables s).map fun e => (e.1, definedTable options s.enums enums e.2) := by
  have hnone (f : Table → List Statement) (hf : ∀ t, ∀ x ∈ f t, definesNothing x = true) :
      ((Ddl.sortedTables s).flatMap fun e => f e.2).filterMap (tableOf enums) = [] := by
    refine List.filterMap_eq_nil_iff.2 fun x hx => ?_
    obtain ⟨e, -, hx⟩ := List.mem_flatMap.1 hx
    have := hf e.2 x hx
    cases x <;> first | rfl | cases this
  have hsome : ∀ e ∈ Ddl.sortedTables s, tableOf enums (tableStatement options s.enums e.2) =
      some (e.1, definedTable options s.enums enums e.2) := by
    intro e he
    have hkey : Name.key e.2.schema e.2.title = e.1 := hk e (List.mem_mergeSort.1 he)
    rw [tableStatement, tableOf, hkey]
    rfl
  have hconstraints := hnone constraintsOf fun _ _ => definesNothing_constraints
  have hindexes := hnone indexesOf fun _ _ => definesNothing_indexes
  have hcomments := hnone commentsOf fun _ _ => definesNothing_comments
  simp only [statements, List.filterMap_append, hconstraints, hindexes, hcomments, List.append_nil]
  rw [List.filterMap_eq_nil_iff.2, List.nil_append, List.filterMap_map, ← List.filterMap_eq_map]
  · exact List.filterMap_congr hsome
  · intro x hx
    obtain ⟨e, -, rfl⟩ := List.mem_map.1 hx
    rfl

end

theorem enumTypes_statements :
    (statements options s).filterMap Statement.enumOf? = Ddl.sortedEnums s.enums := by
  have henums : ((Ddl.sortedEnums s.enums).map enumStatement).filterMap Statement.enumOf? =
      Ddl.sortedEnums s.enums := by
    rw [List.filterMap_map]
    exact List.filterMap_some
  rw [statements, List.filterMap_append, henums]
  refine (congrArg (_ ++ ·) (List.filterMap_eq_nil_iff.2 fun x hx => ?_)).trans (List.append_nil _)
  rcases List.mem_append.1 hx with hx | hx
  · obtain ⟨e, -, rfl⟩ := List.mem_map.1 hx
    rfl
  have hnothing : definesNothing x = true := by
    rcases List.mem_append.1 hx with hx | hx
    · obtain ⟨e, -, hx⟩ := List.mem_flatMap.1 hx
      exact definesNothing_constraints hx
    rcases List.mem_append.1 hx with hx | hx
    · obtain ⟨e, -, hx⟩ := List.mem_flatMap.1 hx
      exact definesNothing_indexes hx
    · obtain ⟨e, -, hx⟩ := List.mem_flatMap.1 hx
      exact definesNothing_comments hx
  cases x with
  | createEnum schema name values => cases hnothing
  | _ => rfl

/-! ## The whole schema -/

/-- The enum types are found again. -/
theorem equiv_enums (h : ∀ e ∈ s.enums.entries, e.2.key = e.1) :
    (definedEnums (statements options s)).Equiv s.enums := by
  have hperm : ((Ddl.sortedEnums s.enums).map fun e => (e.key, e)).Perm s.enums.entries := by
    have hself : (s.enums.values.map fun e => (e.key, e)) = s.enums.entries := by
      rw [OrderedMap.values, List.map_map]
      conv_rhs => rw [← List.map_id s.enums.entries]
      refine List.map_congr_left fun e he => ?_
      exact Prod.ext (h e he) rfl
    have := (List.mergeSort_perm s.enums.values Ddl.enumLE).map fun e => (e.key, e)
    rwa [hself] at this
  have hd : (((Ddl.sortedEnums s.enums).map fun e => (e.key, e)).map Prod.fst).Nodup :=
    (hperm.map Prod.fst).nodup_iff.2 s.enums.nodup
  rw [definedEnums, enumTypes_statements]
  intro k
  cases hk : s.enums.get? k with
  | some e =>
    exact OrderedMap.get?_insertAll _ hd (hperm.mem_iff.2 (OrderedMap.get?_eq_some_iff.1 hk))
  | none =>
    rw [OrderedMap.get?_insertAll_of_not_mem]
    · rfl
    · intro hm
      obtain ⟨v, hv⟩ := OrderedMap.mem_keys_iff.1 ((hperm.map Prod.fst).mem_iff.1 hm)
      rw [hk] at hv
      cases hv

/-- **Building what a document says.** The schema that the statements of a schema build has the same
    enum types, and each table is the one that its statements give. -/
theorem ofStatements_statements
    (hk : ∀ e ∈ s.tables.entries, e.2.key = e.1) (hek : ∀ e ∈ s.enums.entries, e.2.key = e.1)
    (he : ∀ e ∈ s.enums.values, e.name ≠ "" ∧ EnumType.repeated? [] e.values = none) :
    ∃ s' : Schema, (ofStatements (statements options s)).result = .ok s' ∧
      s'.enums.Equiv s.enums ∧
      ∀ k, s'.tables.get? k = (s.tables.get? k).map (rebuilt options s.enums s'.enums) := by
  refine ⟨described (statements options s), result_ofStatements.2 ⟨fun e hm => ?_, rfl⟩, ?_,
    fun k => ?_⟩
  · rw [enumTypes_statements] at hm
    exact he e (List.mem_mergeSort.1 hm)
  · rw [enums_described]
    exact equiv_enums hek
  · rw [enums_described, get?_described, withTables_eq, tables_statements hk]
    generalize definedEnums (statements options s) = enums
    have hkeys : (((Ddl.sortedTables s).map fun e =>
        (e.1, definedTable options s.enums enums e.2)).map Prod.fst).Perm
        (s.tables.entries.map Prod.fst) := by
      rw [List.map_map]
      exact (List.mergeSort_perm _ _).map Prod.fst
    cases ht : s.tables.get? k with
    | some t =>
      have hm := OrderedMap.get?_eq_some_iff.1 ht
      have hdefined := OrderedMap.get?_insertAll ({} : OrderedMap Table)
        (hkeys.nodup_iff.2 s.tables.nodup) (List.mem_map.2 ⟨(k, t), List.mem_mergeSort.2 hm, rfl⟩)
      rw [hdefined, filter_allEdits hk hm, Option.map_some, Option.map_some, List.foldl_map]
      rfl
    | none =>
      rw [OrderedMap.get?_insertAll_of_not_mem]
      · rfl
      · intro hm
        obtain ⟨t, hv⟩ := OrderedMap.mem_keys_iff.1 (hkeys.mem_iff.1 hm)
        rw [ht] at hv
        cases hv

end Schemata.Written
