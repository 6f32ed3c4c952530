/-
  Building a schema table by table.

  * Each statement about constraints, indexes or comments is an edit of the table that it names, and
    `laterPhases_tables` says what all of them together do to a table;
  * `Table.takeConstraint` and `Table.takeComment` are the edits;
  * `ofStatements_tables`: the table under a key is the last one defined there, with the edits for
    that key in their order.
-/
import Schemata.Proofs.Actions
import Schemata.Proofs.Maps
import Schemata.Statement.Build

namespace Schemata

open Log

namespace OrderedMap

variable {α : Type}

theorem put_of_find {k : String} {v : α} {l : List (String × α)} (h : find k l = some v) :
    put k v l = l := by
  induction l with
  | nil => cases h
  | cons e l ih =>
    obtain ⟨k', v'⟩ := e
    by_cases hk : k' = k
    · rw [find, if_pos hk] at h
      cases h
      rw [put, if_pos hk]
    · rw [find, if_neg hk] at h
      rw [put, if_neg hk, ih h]

theorem put_put (k : String) (v w : α) (l : List (String × α)) :
    put k w (put k v l) = put k w l := by
  induction l with
  | nil => simp [put]
  | cons e l ih =>
    obtain ⟨k', v'⟩ := e
    by_cases hk : k' = k
    · rw [put, if_pos hk, put, if_pos hk, put, if_pos hk]
    · rw [put, if_neg hk, put, if_neg hk, put, if_neg hk, ih]

/-- Of two values of one name the later one is left. -/
theorem insert_insert (m : OrderedMap α) (k : String) (v w : α) :
    (m.insert k v).insert k w = m.insert k w := by
  obtain ⟨entries, nodup⟩ := m
  simp only [insert, put_put]

/-- The map with entries inserted one after the other. -/
def insertAll (m : OrderedMap α) (l : List (String × α)) : OrderedMap α :=
  l.foldl (fun m e => m.insert e.1 e.2) m

section
variable {l : List (String × α)} {k : String} (m : OrderedMap α)

theorem get?_insertAll_of_not_mem (h : k ∉ l.map Prod.fst) : (m.insertAll l).get? k = m.get? k := by
  induction l generalizing m with
  | nil => rfl
  | cons e l ih =>
    rw [List.map_cons, List.mem_cons, not_or] at h
    rw [insertAll, List.foldl_cons, ← insertAll, ih _ h.2, get?_insert, if_neg (Ne.symm h.1)]

theorem mem_of_get?_insertAll {v : α} (h : (m.insertAll l).get? k = some v) :
    (k, v) ∈ l ∨ m.get? k = some v := by
  induction l generalizing m with
  | nil => exact .inr h
  | cons e l ih =>
    rw [insertAll, List.foldl_cons, ← insertAll] at h
    rcases ih _ h with h | h
    · exact .inl (List.mem_cons_of_mem e h)
    · rw [get?_insert] at h
      split at h
      · next hk =>
        cases h
        exact .inl (hk ▸ List.mem_cons_self)
      · exact .inr h

/-- Of entries with distinct names each one is found after all are inserted. -/
theorem get?_insertAll {v : α} (hd : (l.map Prod.fst).Nodup) (h : (k, v) ∈ l) :
    (m.insertAll l).get? k = some v := by
  induction l generalizing m with
  | nil => cases h
  | cons e l ih =>
    rw [List.map_cons, List.nodup_cons] at hd
    rw [insertAll, List.foldl_cons, ← insertAll]
    rcases List.mem_cons.1 h with rfl | h
    · rw [get?_insertAll_of_not_mem _ hd.1, get?_insert, if_pos rfl]
    · exact ih _ hd.2 h

end

/-- Setting a value that is there changes nothing. -/
theorem insert_of_get? {m : OrderedMap α} {k : String} {v : α} (h : m.get? k = some v) :
    m.insert k v = m := by
  obtain ⟨entries, nodup⟩ := m
  simp only [insert, put_of_find h]

end OrderedMap

namespace Log.Logged

theorem value_foldlM {α β : Type} (f : β → α → Logged β) (l : List α) (b : β) :
    (l.foldlM f b).value = l.foldl (fun b a => (f b a).value) b := by
  induction l generalizing b with
  | nil => rfl
  | cons a l ih => rw [List.foldlM_cons, value_bind, ih, List.foldl_cons]

end Log.Logged

/-! ## Edits of one table -/

namespace Table

/-- The table with a constraint that names its columns; one that names others is passed over. -/
def takeConstraint (c : Constraint) (t : Table) : Table :=
  if (c.columns.filter fun n => (t.findColumn? n).isNone).isEmpty then
    (t.setFlags c).keepConstraint c
  else t

/-- The table with a comment on itself or on one of its columns. -/
def takeComment (column text : Option String) (t : Table) : Table :=
  match column with
  | none => { t with comment := text }
  | some name => t.updateColumn name fun c => { c with comment := text }

theorem updateFirst_eq_self {α : Type} {p : α → Bool} {f : α → α} {l : List α}
    (h : l.find? p = none) : updateFirst p f l = l := by
  induction l with
  | nil => rfl
  | cons a l ih =>
    rw [List.find?_cons] at h
    split at h
    · cases h
    · next hp =>
      rw [updateFirst, hp, ih h]
      rfl

end Table

namespace Schema

/-- A change of the table under a key. -/
abbrev TableEdit := String × (Table → Table)

/-- The schema with one of its tables changed, if it is there. -/
def edit (s : Schema) (e : TableEdit) : Schema :=
  match s.tables.get? e.1 with
  | some t => s.setTable e.1 (e.2 t)
  | none => s

variable {s : Schema} {key : String} {edits : List TableEdit}

theorem edit_eq_self {f : Table → Table} (h : ∀ t, s.tables.get? key = some t → f t = t) :
    s.edit (key, f) = s := by
  unfold edit
  split
  · next t ht =>
    show s.setTable key (f t) = s
    rw [h t ht, setTable, OrderedMap.insert_of_get? ht]
  · rfl

theorem value_addConstraint (c : Constraint) :
    (s.addConstraint key c).value = s.edit (key, Table.takeConstraint c) := by
  unfold addConstraint
  cases ht : s.tables.get? key with
  | none =>
    rw [edit_eq_self fun t h => by rw [ht] at h; cases h]
    rfl
  | some t =>
    simp only [edit, ht, Table.takeConstraint]
    split
    · rfl
    · rw [setTable, OrderedMap.insert_of_get? ht]
      rfl

theorem value_addIndex (i : Index) :
    (s.addIndex key i).value = s.edit (key, fun t => t.addIndex i) := by
  unfold addIndex edit
  cases s.tables.get? key <;> rfl

theorem value_setComment (column text : Option String) :
    (s.setComment key column text).value = s.edit (key, Table.takeComment column text) := by
  unfold setComment
  cases ht : s.tables.get? key with
  | none =>
    rw [edit_eq_self fun t h => by rw [ht] at h; cases h]
    rfl
  | some t =>
    cases column with
    | none =>
      simp only [edit, ht]
      rfl
    | some name =>
      cases hc : t.findColumn? name with
      | none =>
        have hself : Table.takeComment (some name) text t = t := by
          rw [Table.takeComment, Table.updateColumn, Table.updateFirst_eq_self hc]
        rw [edit_eq_self fun t' h => by rw [ht] at h; cases h; exact hself]
        simp only [hc]
        rfl
      | some c =>
        simp only [edit, ht, hc]
        rfl

/-! ## Many edits -/

theorem edit_enums (e : TableEdit) : (s.edit e).enums = s.enums := by
  unfold edit
  split <;> rfl

theorem get?_edit (e : TableEdit) (k : String) : (s.edit e).tables.get? k =
    if e.1 = k then (s.tables.get? k).map e.2 else s.tables.get? k := by
  unfold edit
  split
  · next t ht =>
    rw [setTable, OrderedMap.get?_insert]
    split
    · next hk => rw [← hk, ht]; rfl
    · rfl
  · next ht =>
    split
    · next hk => rw [← hk, ht]; rfl
    · rfl

theorem foldl_edit_enums : (edits.foldl edit s).enums = s.enums := by
  induction edits generalizing s with
  | nil => rfl
  | cons e edits ih => rw [List.foldl_cons, ih, edit_enums]

/-- The table under a key sees the edits for that key, in their order. -/
theorem get?_foldl_edit (k : String) : (edits.foldl edit s).tables.get? k =
    (s.tables.get? k).map fun t => (edits.filter fun e => e.1 == k).foldl (fun t e => e.2 t) t := by
  induction edits generalizing s with
  | nil => simp
  | cons e edits ih =>
    rw [List.foldl_cons, ih, get?_edit]
    by_cases hk : e.1 = k
    · rw [if_pos hk, List.filter_cons_of_pos (by simpa using hk), Option.map_map]
      rfl
    · rw [if_neg hk, List.filter_cons_of_neg (by simpa using hk)]

/-! ## The edits of statements -/

/-- What a statement does to a table through its constraints. -/
def constraintEdits : Statement → List TableEdit
  | .createTable schema name _ constraints =>
    constraints.map fun c => (Name.key schema name, Table.takeConstraint c)
  | .addConstraint schema table c => [(Name.key schema table, Table.takeConstraint c)]
  | _ => []

/-- What a statement does to a table as an index. -/
def indexEdits : Statement → List TableEdit
  | .createIndex schema table i => [(Name.key schema table, fun t => t.addIndex i)]
  | _ => []

/-- What a statement does to a table as a comment. -/
def commentEdits : Statement → List TableEdit
  | .comment schema table column text =>
    [(Name.key schema table, Table.takeComment column text)]
  | _ => []

theorem value_constraintPhase (statement : Statement) :
    (s.constraintPhase statement).value = (constraintEdits statement).foldl edit s := by
  cases statement with
  | createTable schema name columns constraints =>
    rw [constraintPhase, constraintEdits, Logged.value_foldlM, List.foldl_map]
    simp only [value_addConstraint]
  | addConstraint schema table c => exact value_addConstraint c
  | _ => rfl

theorem value_indexPhase (statement : Statement) :
    (s.indexPhase statement).value = (indexEdits statement).foldl edit s := by
  cases statement with
  | createIndex schema table i => exact value_addIndex i
  | _ => rfl

theorem value_commentPhase (statement : Statement) :
    (s.commentPhase statement).value = (commentEdits statement).foldl edit s := by
  cases statement with
  | comment schema table column text => exact value_setComment column text
  | _ => rfl

theorem value_foldlM_edits {phase : Schema → Statement → Logged Schema}
    {edits : Statement → List TableEdit}
    (h : ∀ s statement, (phase s statement).value = (edits statement).foldl edit s)
    (statements : List Statement) :
    (statements.foldlM phase s).value = (statements.flatMap edits).foldl edit s := by
  rw [Logged.value_foldlM, List.foldl_flatMap]
  simp only [h]

/-- The schema with the tables that statements define. -/
def withTables (statements : List Statement) (s : Schema) : Schema :=
  (statements.foldlM tablePhase s).value

/-- The table that a statement defines, with its key. -/
def tableOf (enums : OrderedMap EnumType) : Statement → Option (String × Table)
  | .createTable schema name columns _ =>
    some (Name.key schema name,
      { title := name, schema, columns := columns.map (buildColumn enums schema) })
  | _ => none

theorem value_defineTable (schema : Option String) (name : String)
    (columns : List ColumnDefinition) : (s.defineTable schema name columns).value =
      { s with tables := s.tables.insert (Name.key schema name)
                { title := name, schema, columns := columns.map (buildColumn s.enums schema) } } := by
  rw [defineTable]
  dsimp only
  split <;> rfl

theorem withTables_eq (statements : List Statement) : withTables statements s =
    { s with tables := s.tables.insertAll (statements.filterMap (tableOf s.enums)) } := by
  rw [withTables, Logged.value_foldlM]
  induction statements generalizing s with
  | nil => rfl
  | cons statement statements ih =>
    rw [List.foldl_cons, ih]
    cases statement with
    | createTable schema name columns constraints =>
      rw [tablePhase, value_defineTable]
      rfl
    | _ => rfl

/-- A table is there by one of the statements. -/
theorem exists_of_get?_withTables {enums : OrderedMap EnumType} {statements : List Statement}
    {t : Table} (h : (withTables statements { enums }).tables.get? key = some t) :
    ∃ schema name columns constraints,
      .createTable schema name columns constraints ∈ statements ∧ key = Name.key schema name ∧
        t = { title := name, schema, columns := columns.map (buildColumn enums schema) } := by
  rw [withTables_eq] at h
  obtain hdefined | hempty := OrderedMap.mem_of_get?_insertAll _ h
  · obtain ⟨x, hx, hdefined⟩ := List.mem_filterMap.1 hdefined
    cases x with
    | createTable schema name columns constraints =>
      cases hdefined
      exact ⟨schema, name, columns, constraints, hx, rfl, rfl⟩
    | _ => cases hdefined
  · cases hempty

/-- The edits of statements after the definitions, kind by kind. -/
def allEdits (statements : List Statement) : List TableEdit :=
  statements.flatMap constraintEdits ++
    (statements.flatMap indexEdits ++ statements.flatMap commentEdits)

/-- The phases after the definitions edit table by table. -/
theorem value_laterPhases (statements : List Statement) :
    (laterPhases statements s).value = (allEdits statements).foldl edit (withTables statements s) := by
  rw [laterPhases, Logged.value_bind, Logged.value_bind, Logged.value_bind, allEdits,
    List.foldl_append, List.foldl_append, ← value_foldlM_edits (fun _ => value_constraintPhase),
    ← value_foldlM_edits (fun _ => value_indexPhase),
    ← value_foldlM_edits (fun _ => value_commentPhase)]
  rfl

end Schema

/-! ## Enum types -/

/-- The enum type has a name, and values that are distinct whatever their case. -/
def EnumType.Valid (e : EnumType) : Prop :=
  e.name ≠ "" ∧ EnumType.repeated? [] e.values = none

/-- The enum type that a statement defines. -/
def Statement.enumOf? : Statement → Option EnumType
  | .createEnum schema name values => some ⟨name, schema, values⟩
  | _ => none

theorem Decode.enumOf_eq_ok_iff {e : EnumType} {name : String} {schema : Option String}
    {values : List String} :
    Decode.enumOf name schema values = .ok e ↔ e = ⟨name, schema, values⟩ ∧ e.Valid := by
  have hname : Decode.nonEmptyText (.str name) =
      if name.isEmpty then .fail .tooShort else .ok name := rfl
  rw [Decode.enumOf, hname, Decode.distinctValues]
  constructor
  · intro h
    obtain ⟨f, values', hf, hvalues, rfl⟩ := Decode.Checked.ap_eq_ok_iff.1 h
    rw [Decode.Checked.under_eq_ok_iff] at hvalues
    split at hf
    · cases hf
    next hne =>
    cases hf
    split at hvalues
    · cases hvalues
    next hdistinct =>
    cases hvalues
    exact ⟨rfl, by simpa using hne, hdistinct⟩
  · rintro ⟨rfl, hne, hdistinct⟩
    rw [if_neg (by simpa using hne), hdistinct]
    rfl

namespace Schema

variable {s s' : Schema} {statements : List Statement}

/-- An enum type is defined just if it is valid. -/
theorem result_defineEnum {schema : Option String} {name : String} {values : List String} :
    (s.defineEnum schema name values).result = .ok s' ↔
      EnumType.Valid ⟨name, schema, values⟩ ∧ s' = { s with
        enums := s.enums.insert (Name.key schema name) ⟨name, schema, values⟩ } := by
  rw [defineEnum]
  cases he : Decode.enumOf name schema values with
  | bad faults =>
    have hbad : ¬EnumType.Valid ⟨name, schema, values⟩ := by
      intro hvalid
      rw [Decode.enumOf_eq_ok_iff.2 ⟨rfl, hvalid⟩] at he
      cases he
    exact ⟨nofun, fun h => absurd h.1 hbad⟩
  | ok e =>
    obtain ⟨rfl, hvalid⟩ := Decode.enumOf_eq_ok_iff.1 he
    dsimp only
    split
    all_goals
      show Except.ok _ = Except.ok s' ↔ _
      rw [Except.ok.injEq, eq_comm]
      exact ⟨fun h => ⟨hvalid, h⟩, fun h => h.2⟩

/-- The enum types that statements define. -/
def definedEnums (statements : List Statement) : OrderedMap EnumType :=
  ({} : OrderedMap EnumType).insertAll
    ((statements.filterMap Statement.enumOf?).map fun e => (e.key, e))

/-- The enum types of statements are defined just if they are all valid. -/
theorem result_enumPhases : (statements.foldlM enumPhase s).result = .ok s' ↔
    (∀ e ∈ statements.filterMap Statement.enumOf?, e.Valid) ∧ s' = { s with
      enums := s.enums.insertAll
        ((statements.filterMap Statement.enumOf?).map fun e => (e.key, e)) } := by
  induction statements generalizing s with
  | nil =>
    show Except.ok s = Except.ok s' ↔ _
    rw [Except.ok.injEq, eq_comm]
    exact ⟨fun h => ⟨nofun, h⟩, fun h => h.2⟩
  | cons x statements ih =>
    rw [List.foldlM_cons, Action.result_bind]
    cases x with
    | createEnum schema name values =>
      have hcons : (Statement.createEnum schema name values :: statements).filterMap
          Statement.enumOf? = ⟨name, schema, values⟩ :: statements.filterMap Statement.enumOf? := rfl
      rw [hcons, List.forall_mem_cons]
      constructor
      · intro h
        obtain ⟨s₁, hone, h⟩ := Action.bind_ok h
        obtain ⟨hvalid, rfl⟩ := result_defineEnum.1 hone
        obtain ⟨hall, rfl⟩ := ih.1 h
        exact ⟨⟨hvalid, hall⟩, rfl⟩
      · rintro ⟨⟨hvalid, hall⟩, rfl⟩
        rw [show (s.enumPhase (.createEnum schema name values)).result = _ from
          result_defineEnum.2 ⟨hvalid, rfl⟩]
        exact ih.2 ⟨hall, rfl⟩
    | _ => exact ih

/-- The tables of statements, edited by the statements about them. -/
def described (statements : List Statement) : Schema :=
  (allEdits statements).foldl edit (withTables statements { enums := definedEnums statements })

/-- Statements describe a schema just if all enum types are valid. -/
theorem result_ofStatements : (ofStatements statements).result = .ok s ↔
    (∀ e ∈ statements.filterMap Statement.enumOf?, e.Valid) ∧ s = described statements := by
  constructor
  · intro h
    obtain ⟨s₀, hdefine, h⟩ := Action.result_bind_ok h
    obtain ⟨hvalid, rfl⟩ := result_enumPhases.1 hdefine
    rw [Action.result_lift, value_laterPhases, Except.ok.injEq] at h
    exact ⟨hvalid, h.symm⟩
  · rintro ⟨hvalid, rfl⟩
    rw [ofStatements, Action.result_bind, result_enumPhases.2 ⟨hvalid, rfl⟩, Except.bind,
      Action.result_lift, value_laterPhases]
    rfl

/-- A document describes what its statements describe. -/
theorem result_ofDocument {text : String} : (ofDocument text).result = .ok s ↔
    ∃ statements, (Statement.readAll text).result = .ok statements ∧
      (ofStatements statements).result = .ok s := by
  rw [ofDocument, Action.result_within]
  constructor
  · intro h
    obtain ⟨statements, hread, h⟩ := Action.result_bind_ok h
    obtain ⟨s', hbuild, h⟩ := Action.result_bind_ok h
    cases h
    exact ⟨statements, hread, hbuild⟩
  · rintro ⟨statements, hread, hbuild⟩
    rw [Action.result_bind, hread, Except.bind, Action.result_bind, hbuild]
    rfl

theorem enums_described (statements : List Statement) :
    (described statements).enums = definedEnums statements := by
  rw [described, foldl_edit_enums, withTables_eq]

/-- The table under a key is the last one defined there, with the edits for that key. -/
theorem get?_described (statements : List Statement) (k : String) :
    (described statements).tables.get? k =
      ((withTables statements { enums := definedEnums statements }).tables.get? k).map fun t =>
        ((allEdits statements).filter fun e => e.1 == k).foldl (fun t e => e.2 t) t :=
  get?_foldl_edit k

end Schema

end Schemata
