/-
  Tables that are defined more than once.

  * `SameUpTo R` compares what two lists of statements describe: the same error, or the same enum types
    and tables that are related by `R`; `edited` is what statements do to a table after its definition;
  * an earlier definition of a table is gone, its constraints are not: `ofStatements_redefined` says
    that they act as if they were added by statements of their own, that without them the same is
    described up to the flags and constraints of that one table, and that it is the same if each of
    them names a column that the table lacks;
  * `not_sameUpTo_unconditioned`: a condition of an earlier definition stays.
-/
import Schemata.Proofs.Rearranging
import Schemata.Proofs.StrippedSchemas

namespace Schemata

open Log

/-! ## Descriptions that compare -/

namespace Schema

variable {R : String → Table → Table → Prop} {l m : List Statement}

/-- Both lists are refused for the same reason, or they describe the same enum types and, under the
    same keys, related tables. -/
def SameUpTo (R : String → Table → Table → Prop) (l m : List Statement) : Prop :=
  (∃ e, (ofStatements l).result = .error e ∧ (ofStatements m).result = .error e) ∨
    ∃ s s', (ofStatements l).result = .ok s ∧ (ofStatements m).result = .ok s' ∧
      s.enums = s'.enums ∧ ∀ k, Option.Rel (R k) (s.tables.get? k) (s'.tables.get? k)

/-- The same descriptions have the same tables. -/
theorem SameUpTo.get?_eq (h : SameUpTo (fun _ => Eq) l m) (k : String) :
    ((ofStatements l).result.toOption.bind fun s => s.tables.get? k) =
      (ofStatements m).result.toOption.bind fun s => s.tables.get? k := by
  obtain ⟨e, hl, hm⟩ | ⟨s, s', hl, hm, -, htables⟩ := h
  · rw [hl, hm]
  · rw [hl, hm]
    show s.tables.get? k = s'.tables.get? k
    have hk := htables k
    revert hk
    generalize s.tables.get? k = x
    generalize s'.tables.get? k = y
    rintro (hk | -)
    · rw [hk]
    · rfl

/-- What the statements after the definitions do to the table under a key. -/
def edited (l : List Statement) (k : String) (t : Table) : Table :=
  ((allEdits l).filter fun e => e.1 == k).foldl (fun t e => e.2 t) t

/-- Only the statements that define enum types count in the first phase. -/
theorem result_enumPhases_eq (l : List Statement) (s : Schema) :
    (l.foldlM enumPhase s).result = ((l.filterMap Statement.enumOf?).foldlM
      (fun (s : Schema) (e : EnumType) => s.defineEnum e.schema e.name e.values) s).result := by
  induction l generalizing s with
  | nil => rfl
  | cons x l ih =>
    rw [List.foldlM_cons, Action.result_bind]
    cases x with
    | createEnum schema name values =>
      have hcons : (Statement.createEnum schema name values :: l).filterMap Statement.enumOf? =
          ⟨name, schema, values⟩ :: l.filterMap Statement.enumOf? := rfl
      rw [hcons, List.foldlM_cons, Action.result_bind]
      simp only [ih]
      rfl
    | _ => exact ih s

/-- Statements are refused for their enum types only. -/
theorem result_ofStatements_error {e : ParseError} : (ofStatements l).result = .error e ↔
    (l.foldlM enumPhase {}).result = .error e := by
  rw [ofStatements, Action.result_bind]
  cases (l.foldlM enumPhase {}).result with
  | error e => exact Iff.rfl
  | ok s => exact iff_of_false (fun h => by cases h) (fun h => by cases h)

/-- Lists with the same enum types and the same tables compare as what they make of these tables. -/
theorem sameUpTo_of_edited (henums : l.filterMap Statement.enumOf? = m.filterMap Statement.enumOf?)
    (htables : ∀ enums k, (withTables l { enums }).tables.get? k =
      (withTables m { enums }).tables.get? k)
    (hedited : ∀ k t, (ofStatements l).result = .ok (described l) →
      (described l).tables.get? k = some (edited l k t) → R k (edited l k t) (edited m k t)) :
    SameUpTo R l m := by
  have hdefined : definedEnums l = definedEnums m := by rw [definedEnums, definedEnums, henums]
  have hphases : (l.foldlM enumPhase {}).result = (m.foldlM enumPhase {}).result := by
    rw [result_enumPhases_eq, result_enumPhases_eq, henums]
  cases hl : (ofStatements l).result with
  | error e =>
    refine .inl ⟨e, hl, ?_⟩
    rwa [result_ofStatements_error, ← hphases, ← result_ofStatements_error]
  | ok s =>
    obtain ⟨hvalid, rfl⟩ := result_ofStatements.1 hl
    refine .inr ⟨_, described m, hl, result_ofStatements.2 ⟨henums ▸ hvalid, rfl⟩, ?_, fun k => ?_⟩
    · rw [enums_described, enums_described, hdefined]
    · have hget := get?_described l k
      rw [hdefined, htables] at hget
      rw [get?_described m, hget]
      cases ht : (withTables m { enums := definedEnums m }).tables.get? k with
      | none => exact .none
      | some t =>
        rw [ht] at hget
        exact .some (hedited k t hl hget)

end Schema

/-! ## What constraints leave alone -/

/-- A column without its flags. -/
def Column.plain (c : Column) : Column :=
  { c with required := false, primaryKey := false, unique := false, foreignKey := none }

namespace Table

variable {t : Table} {f : Column → Column}

/-- A table without the flags of its columns and without its constraints. -/
def plain (t : Table) : Table :=
  { t with columns := t.columns.map Column.plain, constraints := [] }

theorem plain_updateColumn (name : String) (hf : ∀ c, (f c).plain = c.plain) :
    (t.updateColumn name f).plain = t.plain := by
  rw [plain, updateColumn]
  dsimp only
  rw [map_updateFirst _ hf]
  rfl

theorem plain_foldl_updateColumn (hf : ∀ c, (f c).plain = c.plain) (names : List String) :
    (names.foldl (fun t n => t.updateColumn n f) t).plain = t.plain := by
  induction names generalizing t with
  | nil => rfl
  | cons n names ih => rw [List.foldl_cons, ih, plain_updateColumn n hf]

theorem plain_setFlags (c : Constraint) : (t.setFlags c).plain = t.plain := by
  unfold setFlags
  split
  · exact plain_foldl_updateColumn (f := fun c => { c with primaryKey := true, required := true })
      (fun _ => rfl) _
  · exact plain_updateColumn _ fun _ => rfl
  · split
    · exact plain_updateColumn _ fun _ => rfl
    · rfl
  · rfl

theorem plain_keepConstraint (c : Constraint) : (t.keepConstraint c).plain = t.plain := by
  unfold keepConstraint
  split
  · rfl
  · split <;> rfl

/-- A constraint changes flags and constraints only. -/
theorem plain_takeConstraint (c : Constraint) : (t.takeConstraint c).plain = t.plain := by
  unfold takeConstraint
  split
  · rw [plain_keepConstraint, plain_setFlags]
  · rfl

theorem plain_addIndex (i : Index) : (t.addIndex i).plain = t.plain.addIndex i := rfl

/-- A comment is set whatever the flags are. -/
theorem plain_takeComment (column text : Option String) :
    (t.takeComment column text).plain = t.plain.takeComment column text := by
  cases column with
  | none => rfl
  | some name =>
    have hcolumns (l : List Column) :
        (updateFirst (hasName (Quote.fold name)) (fun c => { c with comment := text }) l).map
            Column.plain =
          updateFirst (hasName (Quote.fold name)) (fun c => { c with comment := text })
            (l.map Column.plain) := by
      induction l with
      | nil => rfl
      | cons c l ih =>
        have hname : hasName (Quote.fold name) c.plain = hasName (Quote.fold name) c := rfl
        rw [updateFirst, List.map_cons, updateFirst, hname]
        split
        · rfl
        · rw [List.map_cons, ih]
    simp only [takeComment, updateColumn, plain, hcolumns]

/-- Whether a column is there is a question of titles. -/
theorem findColumn?_eq_none_iff {name : String} : t.findColumn? name = none ↔
    ∀ title ∈ t.columnsBy Column.title, Quote.fold title ≠ Quote.fold name := by
  rw [findColumn?, List.find?_eq_none, columnsBy, List.forall_mem_map]
  simp only [hasName, beq_iff_eq, ne_eq]

/-- A constraint that names a column which the table lacks is passed over. -/
theorem takeConstraint_of_unknown {c : Constraint} {n : String} (hn : n ∈ c.columns)
    (hnone : t.findColumn? n = none) : t.takeConstraint c = t := by
  rw [takeConstraint, if_neg]
  intro hempty
  have hunknown := List.filter_eq_nil_iff.1 (List.isEmpty_iff.1 hempty) n hn
  rw [hnone] at hunknown
  exact hunknown rfl

end Table

theorem Column.typesOnly_title : Column.TypesOnly Column.title :=
  ⟨fun _ => rfl, fun _ => rfl, fun _ _ => rfl, fun _ _ => rfl⟩

namespace Schema

variable {l : List Statement}

theorem mem_constraintEdits {e : TableEdit} (h : e ∈ l.flatMap constraintEdits) :
    ∃ c, e.2 = Table.takeConstraint c := by
  obtain ⟨x, -, he⟩ := List.mem_flatMap.1 h
  cases x with
  | createTable schema name columns constraints =>
    obtain ⟨c, -, rfl⟩ := List.mem_map.1 he
    exact ⟨c, rfl⟩
  | addConstraint schema table c =>
    obtain rfl := List.mem_singleton.1 he
    exact ⟨c, rfl⟩
  | _ => cases he

theorem mem_indexEdits {e : TableEdit} (h : e ∈ l.flatMap indexEdits) :
    ∃ i, e.2 = fun t => t.addIndex i := by
  obtain ⟨x, -, he⟩ := List.mem_flatMap.1 h
  cases x with
  | createIndex schema table i =>
    obtain rfl := List.mem_singleton.1 he
    exact ⟨i, rfl⟩
  | _ => cases he

theorem mem_commentEdits {e : TableEdit} (h : e ∈ l.flatMap commentEdits) :
    ∃ column text, e.2 = Table.takeComment column text := by
  obtain ⟨x, -, he⟩ := List.mem_flatMap.1 h
  cases x with
  | comment schema table column text =>
    obtain rfl := List.mem_singleton.1 he
    exact ⟨column, text, rfl⟩
  | _ => cases he

/-- The edits of statements as indexes and as comments. -/
def lateEdits (l : List Statement) : List TableEdit := l.flatMap indexEdits ++ l.flatMap commentEdits

theorem mem_lateEdits {e : TableEdit} (h : e ∈ lateEdits l) :
    (∃ i, e.2 = fun t => t.addIndex i) ∨ ∃ column text, e.2 = Table.takeComment column text :=
  (List.mem_append.1 h).imp mem_indexEdits mem_commentEdits

/-- No edit changes the titles of columns. -/
theorem titles_edit {e : TableEdit} (h : e ∈ allEdits l) (t : Table) :
    (e.2 t).columnsBy Column.title = t.columnsBy Column.title := by
  obtain h | h := List.mem_append.1 h
  · obtain ⟨c, hc⟩ := mem_constraintEdits h
    rw [hc, Table.columnsBy_takeConstraint Column.typesOnly_title]
  · obtain ⟨i, hi⟩ | ⟨column, text, hcomment⟩ := mem_lateEdits h
    · rw [hi]
      rfl
    · rw [hcomment, Table.columnsBy_takeComment fun _ _ => rfl]

end Schema

/-! ## Definitions that are replaced -/

namespace OrderedMap

variable {α : Type}

theorem insertAll_append (m : OrderedMap α) (l l' : List (String × α)) :
    m.insertAll (l ++ l') = (m.insertAll l).insertAll l' := List.foldl_append

/-- Entries whose keys come again do not count. -/
theorem get?_insertAll_overwritten {m : OrderedMap α} {l rest : List (String × α)}
    (h : ∀ e ∈ l, e.1 ∈ rest.map Prod.fst) (k : String) :
    (m.insertAll (l ++ rest)).get? k = (m.insertAll rest).get? k := by
  rw [insertAll_append, get?_insertAll_eq, get?_insertAll_eq rest]
  by_cases hk : k ∈ rest.map Prod.fst
  · obtain ⟨e, he, rfl⟩ := List.mem_map.1 hk
    have hne : rest.filter (fun e' => e'.1 == e.1) ≠ [] :=
      List.ne_nil_of_mem (List.mem_filter.2 ⟨he, beq_self_eq_true _⟩)
    rw [List.getLast?_eq_some_getLast hne]
    rfl
  · rw [get?_insertAll_of_not_mem]
    intro hmem
    obtain ⟨e, he, rfl⟩ := List.mem_map.1 hmem
    exact hk (h e he)

end OrderedMap

namespace Schema

variable {R : String → Table → Table → Prop} {pre front rest : List Statement} {k : String}

/-- The statements in front say nothing that lasts, except for constraints: each table that they define
    is defined again. -/
structure Replaced (front rest : List Statement) : Prop where
  enums : front.filterMap Statement.enumOf? = []
  tables : ∀ enums, ∀ e ∈ front.filterMap (tableOf enums),
    e.1 ∈ (rest.filterMap (tableOf enums)).map Prod.fst
  late : lateEdits front = []

theorem allEdits_append (l m : List Statement) : allEdits (l ++ m) =
    l.flatMap constraintEdits ++ (m.flatMap constraintEdits ++ lateEdits (l ++ m)) := by
  rw [allEdits, ← lateEdits, List.flatMap_append, List.append_assoc]

namespace Replaced

theorem filterMap_enumOf? (h : Replaced front rest) :
    (pre ++ (front ++ rest)).filterMap Statement.enumOf? =
      (pre ++ rest).filterMap Statement.enumOf? := by
  rw [List.filterMap_append, List.filterMap_append, List.filterMap_append, h.enums, List.nil_append]

theorem get?_withTables (h : Replaced front rest) (s : Schema) (k : String) :
    (withTables (pre ++ (front ++ rest)) s).tables.get? k =
      (withTables (pre ++ rest) s).tables.get? k := by
  simp only [withTables_eq, List.filterMap_append, OrderedMap.insertAll_append s.tables]
  exact OrderedMap.get?_insertAll_overwritten (h.tables s.enums) k

theorem lateEdits (h : Replaced front rest) :
    lateEdits (pre ++ (front ++ rest)) = Schema.lateEdits (pre ++ rest) := by
  have hlate := h.late
  rw [Schema.lateEdits, List.append_eq_nil_iff] at hlate
  simp only [Schema.lateEdits, List.flatMap_append, hlate, List.nil_append]

theorem allEdits (h : Replaced front rest) : allEdits (pre ++ (front ++ rest)) =
    pre.flatMap constraintEdits ++ (front.flatMap constraintEdits ++
      (rest.flatMap constraintEdits ++ Schema.lateEdits (pre ++ rest))) := by
  rw [allEdits_append, h.lateEdits, List.flatMap_append, List.append_assoc]

/-- Without the front the same is described if it does not matter to the tables that are left. -/
theorem sameUpTo_dropped (h : Replaced front rest)
    (hedited : ∀ k t, (ofStatements (pre ++ (front ++ rest))).result =
        .ok (described (pre ++ (front ++ rest))) →
      (described (pre ++ (front ++ rest))).tables.get? k =
        some (edited (pre ++ (front ++ rest)) k t) →
      R k (edited (pre ++ (front ++ rest)) k t) (edited (pre ++ rest) k t)) :
    SameUpTo R (pre ++ (front ++ rest)) (pre ++ rest) :=
  sameUpTo_of_edited h.filterMap_enumOf? (fun _ k => h.get?_withTables _ k) hedited

end Replaced

/-- The titles of columns stay as they were defined. -/
theorem titles_foldl {l : List Statement} {edits : List TableEdit} (h : ∀ e ∈ edits, e ∈ allEdits l)
    (t : Table) :
    (edits.foldl (fun t e => e.2 t) t).columnsBy Column.title = t.columnsBy Column.title :=
  List.foldlRecOn (motive := fun u => u.columnsBy Column.title = t.columnsBy Column.title) edits _ rfl
    fun u hu e he => (titles_edit (h e he) u).trans hu

/-- The parts of a table that constraints leave alone come from the statements as indexes and as
    comments. -/
theorem plain_edited (l : List Statement) (t : Table) : (edited l k t).plain =
    ((lateEdits l).filter fun e => e.1 == k).foldl (fun t e => e.2 t) t.plain := by
  rw [edited, allEdits, ← lateEdits, List.filter_append, List.foldl_append]
  refine List.foldl_rel (r := fun (t u : Table) => t.plain = u) ?_ fun e he t u htu => ?_
  · refine List.foldlRecOn (motive := fun (u : Table) => u.plain = t.plain) _ _ rfl ?_
    intro u hu e he
    obtain ⟨c, hc⟩ := mem_constraintEdits (List.mem_filter.1 he).1
    rw [hc, Table.plain_takeConstraint, hu]
  · subst htu
    obtain ⟨i, hi⟩ | ⟨column, text, hcomment⟩ := mem_lateEdits (List.mem_filter.1 he).1
    · rw [hi, Table.plain_addIndex]
    · rw [hcomment, Table.plain_takeComment]

section
variable {schema schema' : Option String} {name name' : String}
  {columns columns' : List ColumnDefinition} {constraints constraints' : List Constraint}
  {mid post : List Statement}

theorem replaced_createTable (hkey : Name.key schema name = Name.key schema' name') :
    Replaced [.createTable schema name columns constraints]
      (mid ++ .createTable schema' name' columns' constraints' :: post) where
  enums := rfl
  tables enums e he := by
    obtain rfl := List.mem_singleton.1 he
    exact List.mem_map.2 ⟨(Name.key schema' name', _), List.mem_filterMap.2
      ⟨_, List.mem_append_right _ List.mem_cons_self, rfl⟩, hkey.symm⟩
  late := rfl

theorem replaced_addConstraint (rest : List Statement) :
    Replaced (constraints.map (.addConstraint schema name)) rest where
  enums := by
    rw [List.filterMap_eq_nil_iff]
    simp [Statement.enumOf?]
  tables enums e he := by
    obtain ⟨x, hx, he⟩ := List.mem_filterMap.1 he
    obtain ⟨c, -, rfl⟩ := List.mem_map.1 hx
    cases he
  late := by
    simp [lateEdits, List.flatMap_map, indexEdits, commentEdits]

theorem constraintEdits_createTable :
    [Statement.createTable schema name columns constraints].flatMap constraintEdits =
      constraints.map fun c => (Name.key schema name, Table.takeConstraint c) :=
  List.flatMap_singleton _ _

/-- The constraints of a table are added to it like those of other statements. -/
theorem constraintEdits_added :
    (constraints.map (.addConstraint schema name)).flatMap constraintEdits =
      constraints.map fun c => (Name.key schema name, Table.takeConstraint c) := by
  rw [List.flatMap_map]
  exact List.map_eq_flatMap.symm

/-- Constraints of another table do not count. -/
theorem filter_constraints_of_ne (hk : k ≠ Name.key schema name) :
    (constraints.map fun c => (Name.key schema name, Table.takeConstraint c)).filter
      (fun e => e.1 == k) = [] := by
  rw [List.filter_eq_nil_iff, List.forall_mem_map]
  exact fun c _ h => hk (beq_iff_eq.1 h).symm

section
variable (h : Replaced front rest) (hfront : front.flatMap constraintEdits =
  constraints.map fun c => (Name.key schema name, Table.takeConstraint c))
include h hfront

/-- The constraints of a definition that is replaced act as if they were added. -/
theorem sameUpTo_added : SameUpTo (fun _ => Eq) (pre ++ (front ++ rest))
    (pre ++ (constraints.map (.addConstraint schema name) ++ rest)) := by
  have hadded : Replaced (constraints.map (.addConstraint schema name)) rest :=
    replaced_addConstraint rest
  refine sameUpTo_of_edited (h.filterMap_enumOf?.trans hadded.filterMap_enumOf?.symm)
    (fun _ k => (h.get?_withTables _ k).trans (hadded.get?_withTables _ k).symm) fun k t _ _ => ?_
  rw [edited, edited, h.allEdits, hadded.allEdits, hfront, constraintEdits_added]

/-- A definition that is replaced does nothing to the tables of other keys. -/
theorem edited_other (hk : k ≠ Name.key schema name) (t : Table) :
    edited (pre ++ (front ++ rest)) k t = edited (pre ++ rest) k t := by
  rw [edited, edited, h.allEdits, allEdits_append, hfront]
  simp only [List.filter_append, filter_constraints_of_ne hk, List.nil_append]

/-- Constraints that name unknown columns are passed over wherever they stand. -/
theorem edited_unknown {t : Table} (hunknown : ∀ c ∈ constraints, ∃ n ∈ c.columns,
      (edited (pre ++ (front ++ rest)) k t).findColumn? n = none) :
    edited (pre ++ (front ++ rest)) k t = edited (pre ++ rest) k t := by
  -- before the edits of the front the table has the titles of the final one
  have htitles : (((pre.flatMap constraintEdits).filter fun e => e.1 == k).foldl
      (fun t e => e.2 t) t).columnsBy Column.title =
        (edited (pre ++ (front ++ rest)) k t).columnsBy Column.title := by
    rw [edited, titles_foldl fun e he => (List.mem_filter.1 he).1]
    refine titles_foldl (l := pre ++ (front ++ rest)) (fun e he => ?_) t
    rw [h.allEdits]
    exact List.mem_append_left _ (List.mem_filter.1 he).1
  have hskip : ∀ u : Table, u.columnsBy Column.title =
      (edited (pre ++ (front ++ rest)) k t).columnsBy Column.title →
      ((front.flatMap constraintEdits).filter fun e => e.1 == k).foldl (fun t e => e.2 t) u = u := by
    intro u hu
    rw [hfront]
    refine List.foldlRecOn (motive := (· = u)) _ _ rfl fun v hv e he => ?_
    obtain ⟨c, hc, rfl⟩ := List.mem_map.1 (List.mem_filter.1 he).1
    obtain ⟨n, hn, hnone⟩ := hunknown c hc
    rw [Table.findColumn?_eq_none_iff, ← hu, ← Table.findColumn?_eq_none_iff] at hnone
    rw [hv]
    exact Table.takeConstraint_of_unknown hn hnone
  rw [edited, edited, h.allEdits, allEdits_append]
  simp only [List.filter_append, List.foldl_append, hskip _ htitles]

end

/-- **A table that is defined again.** The constraints of the earlier definition act on the later one
    as if they were added by statements of their own; nothing else of it is left. Without the earlier
    definition everything is the same up to the flags and the constraints of this table, and it is
    all the same if each constraint of the earlier definition names a column that the table lacks. -/
theorem ofStatements_redefined (hkey : Name.key schema name = Name.key schema' name')
    (columns columns' : List ColumnDefinition) (constraints constraints' : List Constraint)
    (pre mid post : List Statement) :
    let rest := mid ++ .createTable schema' name' columns' constraints' :: post
    let l := pre ++ ([.createTable schema name columns constraints] ++ rest)
    SameUpTo (fun _ => Eq) l (pre ++ (constraints.map (.addConstraint schema name) ++ rest)) ∧
    SameUpTo (fun k t t' => t.plain = t'.plain ∧ (k ≠ Name.key schema name → t = t')) l
      (pre ++ rest) ∧
    ((∀ s t, (ofStatements l).result = .ok s → s.tables.get? (Name.key schema name) = some t →
        ∀ c ∈ constraints, ∃ n ∈ c.columns, t.findColumn? n = none) →
      SameUpTo (fun _ => Eq) l (pre ++ rest)) := by
  intro rest l
  have h : Replaced [.createTable schema name columns constraints] rest := replaced_createTable hkey
  refine ⟨sameUpTo_added h constraintEdits_createTable, ?_, fun hunknown => ?_⟩
  · refine h.sameUpTo_dropped fun k t _ _ => ⟨?_, fun hk => ?_⟩
    · rw [plain_edited, plain_edited, h.lateEdits]
    · exact edited_other h constraintEdits_createTable hk t
  · refine h.sameUpTo_dropped fun k t hok ht => ?_
    by_cases hk : k = Name.key schema name
    · exact edited_unknown h constraintEdits_createTable (hunknown _ _ hok (hk ▸ ht))
    · exact edited_other h constraintEdits_createTable hk t

end

/-- Constraints that need a column `b`. -/
def pairing : List Constraint :=
  [{ kind := .unique, name := some "one", columns := ["b"] },
    { kind := .unique, columns := ["a", "B"] }]

/-- The columns of a table without it. -/
def unpaired : List ColumnDefinition := [{ name := "a", typeText := "int" }]

/-- The columns of a table with it. -/
def paired : List ColumnDefinition :=
  { name := "b", typeText := "text", unique := true } :: unpaired

/-- The table with those constraints, a comment on it, and the table without that column. -/
def narrowed : List Statement :=
  [.createTable none "t" paired pairing, .comment none "t" none (some "narrow"),
    .createTable none "t" unpaired []]

/-- Nothing is left of the first definition. -/
theorem ofStatements_redefined_narrowed :
    (∀ s t, (ofStatements narrowed).result = .ok s → s.tables.get? "t" = some t →
      ∀ c ∈ pairing, ∃ n ∈ c.columns, t.findColumn? n = none) ∧
    SameUpTo (fun _ => Eq) narrowed (narrowed.drop 1) := by
  have hcolumns : ((ofStatements narrowed).result.toOption.bind fun s => s.tables.get? "t").all
      (fun t => pairing.all fun c => c.columns.any fun n => (t.findColumn? n).isNone) = true := by
    decide +kernel
  have hunknown : ∀ s t, (ofStatements narrowed).result = .ok s → s.tables.get? "t" = some t →
      ∀ c ∈ pairing, ∃ n ∈ c.columns, t.findColumn? n = none := by
    intro s t hs ht
    rw [hs, Except.toOption, Option.bind_some, ht] at hcolumns
    simpa using hcolumns
  have hkey : Name.key none "t" = Name.key none "t" := rfl
  obtain ⟨-, -, hsame⟩ := ofStatements_redefined hkey paired unpaired pairing [] []
    [.comment none "t" none (some "narrow")] []
  exact ⟨hunknown, hsame hunknown⟩

/-- A table with a condition on its column. -/
def conditioned : Statement :=
  .createTable none "t" [{ name := "a", typeText := "int", typeName := some (none, "int") }]
    [{ kind := .check, expression := some "a > 0" }]

/-- The same table without it. -/
def unconditioned : Statement :=
  .createTable none "t" [{ name := "a", typeText := "int", typeName := some (none, "int") }] []

/-- The table that is defined without a condition keeps that of the earlier definition. -/
theorem not_sameUpTo_unconditioned :
    (Statement.readAll "CREATE TABLE t (a int, CHECK (a > 0)); CREATE TABLE t (a int);").result =
        .ok [conditioned, unconditioned] ∧
      ¬SameUpTo (fun _ => Eq) [conditioned, unconditioned] [unconditioned] := by
  constructor
  · rw [← toOption_eq_some]
    decide +kernel
  · intro h
    have hconditions := congrArg (Option.map fun t => t.constraints.length) (h.get?_eq "t")
    revert hconditions
    decide +kernel

end Schema

end Schemata
