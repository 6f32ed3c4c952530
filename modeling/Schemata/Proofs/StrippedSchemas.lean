/-
  Schemas of documents without comments.

  * `Schema.columnsBy p` is what a schema tells about its columns through `p`; statements have the
    same effect on it if they change tables alike (`SameEffect`), and then so do whole documents
    (`columnsBy_described`);
  * statements that are the same up to comments have the same effect on names and enum types
    (`effect_shape`), on types if these have no comments in them (`effect_typing`), and on flags if
    the columns of keys, constraints and references have none (`effect_flags`);
  * `ofDocument_strip`: a document that is parsed is parsed without its comments too, into tables with
    such columns;
  * `format_wideDocument`: a comment between the words of a type stays in the type.
-/
import Schemata.Proofs.Building
import Schemata.Proofs.StrippedStatements

namespace Schemata

open Log Statement Written

variable {β : Type} {p : Column → β}

/-! ## Views of the columns -/

namespace OrderedMap

variable {α γ : Type}

theorem put_map (f : String → α → γ) (k : String) (v : α) (l : List (String × α)) :
    (put k v l).map (fun e => (e.1, f e.1 e.2)) =
      put k (f k v) (l.map fun e => (e.1, f e.1 e.2)) := by
  induction l with
  | nil => rfl
  | cons e l ih =>
    obtain ⟨k', v'⟩ := e
    by_cases hk : k' = k
    · subst hk
      rw [List.map_cons, put, put, if_pos rfl, if_pos rfl, List.map_cons]
    · rw [List.map_cons, put, put, if_neg hk, if_neg hk, List.map_cons, ih]

theorem map_insert (f : String → α → γ) (m : OrderedMap α) (k : String) (v : α) :
    (m.insert k v).map f = (m.map f).insert k (f k v) :=
  ext_entries (put_map f k v m.entries)

theorem map_insertAll (f : String → α → γ) (m : OrderedMap α) (l : List (String × α)) :
    (m.insertAll l).map f = (m.map f).insertAll (l.map fun e => (e.1, f e.1 e.2)) := by
  induction l generalizing m with
  | nil => rfl
  | cons e l ih =>
    rw [insertAll, List.foldl_cons, ← insertAll, ih, map_insert]
    rfl

end OrderedMap

/-- What a table tells about its columns. -/
def Table.columnsBy (p : Column → β) (t : Table) : List β := t.columns.map p

/-- What a schema tells about the columns of its tables. -/
def Schema.columnsBy (p : Column → β) (s : Schema) : OrderedMap (List β) :=
  s.tables.map fun _ t => t.columnsBy p

/-- Changes of tables that tell the same about columns if the tables do. -/
def SameEdit (p : Column → β) (e e' : Schema.TableEdit) : Prop :=
  e'.1 = e.1 ∧ ∀ t t' : Table, t'.columnsBy p = t.columnsBy p →
    (e'.2 t').columnsBy p = (e.2 t).columnsBy p

theorem Schema.columnsBy_setTable (s : Schema) (key : String) (t : Table) :
    (s.setTable key t).columnsBy p = (s.columnsBy p).insert key (t.columnsBy p) :=
  OrderedMap.map_insert _ s.tables key t

theorem Schema.columnsBy_edit {s s' : Schema} {e e' : Schema.TableEdit} (he : SameEdit p e e')
    (h : s'.columnsBy p = s.columnsBy p) : (s'.edit e').columnsBy p = (s.edit e).columnsBy p := by
  obtain ⟨key, f⟩ := e
  obtain ⟨key', f'⟩ := e'
  obtain ⟨hkey, hf⟩ := he
  dsimp only at hkey hf
  subst hkey
  have hget : (s'.tables.get? key').map (Table.columnsBy p) =
      (s.tables.get? key').map (Table.columnsBy p) := by
    have := congrArg (fun m => m.get? key') h
    rwa [Schema.columnsBy, Schema.columnsBy, OrderedMap.get?_map, OrderedMap.get?_map] at this
  rw [Schema.edit, Schema.edit]
  dsimp only
  cases ht : s.tables.get? key' with
  | none =>
    rw [ht, Option.map_none, Option.map_eq_none_iff] at hget
    rw [hget]
    exact h
  | some t =>
    rw [ht, Option.map_some, Option.map_eq_some_iff] at hget
    obtain ⟨t', ht', htable⟩ := hget
    rw [ht']
    dsimp only
    rw [columnsBy_setTable, columnsBy_setTable, h, hf t t' htable]

theorem Schema.columnsBy_foldl_edit {edits edits' : List Schema.TableEdit} {s s' : Schema}
    (he : List.Forall₂ (SameEdit p) edits edits') (h : s'.columnsBy p = s.columnsBy p) :
    (edits'.foldl edit s').columnsBy p = (edits.foldl edit s).columnsBy p := by
  induction he generalizing s s' with
  | nil => exact h
  | cons hone _ ih => exact ih (columnsBy_edit hone h)

/-! ## Edits that change no type -/

/-- What is told about columns does not depend on their flags and comments. -/
structure Column.TypesOnly (p : Column → β) : Prop where
  primaryKey : ∀ c, p { c with primaryKey := true, required := true } = p c
  unique : ∀ c, p { c with unique := true } = p c
  foreignKey : ∀ c text, p { c with foreignKey := some text } = p c
  comment : ∀ c text, p { c with comment := text } = p c

namespace Table

variable {t t' : Table} {f : Column → Column}

theorem map_updateFirst (q : Column → Bool) (hf : ∀ c, p (f c) = p c) (l : List Column) :
    (updateFirst q f l).map p = l.map p := by
  induction l with
  | nil => rfl
  | cons c l ih =>
    rw [updateFirst]
    split
    · rw [List.map_cons, List.map_cons, hf]
    · rw [List.map_cons, List.map_cons, ih]

theorem columnsBy_updateColumn (name : String) (hf : ∀ c, p (f c) = p c) :
    (t.updateColumn name f).columnsBy p = t.columnsBy p :=
  map_updateFirst _ hf t.columns

theorem columnsBy_foldl_updateColumn (hf : ∀ c, p (f c) = p c) (names : List String) :
    (names.foldl (fun t n => t.updateColumn n f) t).columnsBy p = t.columnsBy p := by
  induction names generalizing t with
  | nil => rfl
  | cons n names ih => rw [List.foldl_cons, ih, columnsBy_updateColumn n hf]

theorem columnsBy_setFlags (hp : Column.TypesOnly p) (c : Constraint) :
    (t.setFlags c).columnsBy p = t.columnsBy p := by
  unfold setFlags
  split
  · exact columnsBy_foldl_updateColumn hp.primaryKey _
  · exact columnsBy_updateColumn _ hp.unique
  · split
    · exact columnsBy_updateColumn _ fun c => hp.foreignKey c _
    · rfl
  · rfl

theorem columns_keepConstraint (c : Constraint) : (t.keepConstraint c).columns = t.columns := by
  unfold keepConstraint
  split
  · rfl
  · split <;> rfl

theorem columnsBy_takeConstraint (hp : Column.TypesOnly p) (c : Constraint) :
    (t.takeConstraint c).columnsBy p = t.columnsBy p := by
  unfold takeConstraint
  split
  · rw [columnsBy, columns_keepConstraint]
    exact columnsBy_setFlags hp c
  · rfl

theorem columnsBy_takeComment (hp : ∀ c text, p { c with comment := text } = p c)
    (column text : Option String) : (t.takeComment column text).columnsBy p = t.columnsBy p := by
  cases column with
  | none => rfl
  | some name => exact columnsBy_updateColumn _ fun c => hp c _

/-! ## Edits of flags -/

theorem columnsBy_eq_iff : t'.columnsBy p = t.columnsBy p ↔
    List.Forall₂ (fun c c' => p c' = p c) t.columns t'.columns := by
  rw [columnsBy, columnsBy, eq_comm, ← List.forall₂_eq_eq_eq, List.forall₂_map_left_iff,
    List.forall₂_map_right_iff]
  exact ⟨fun h => h.imp fun _ _ he => he.symm, fun h => h.imp fun _ _ he => he.symm⟩

/-- What is told about two columns is the same after a change if it was so before. -/
def Respects (p : Column → β) (f : Column → Column) : Prop :=
  ∀ c c', p c' = p c → p (f c') = p (f c)

theorem columnsBy_updateColumn_congr (htitle : ∀ c c', p c' = p c → c'.title = c.title)
    (hf : Respects p f) (name : String) (h : t'.columnsBy p = t.columnsBy p) :
    (t'.updateColumn name f).columnsBy p = (t.updateColumn name f).columnsBy p := by
  rw [columnsBy_eq_iff] at h ⊢
  rw [updateColumn, updateColumn]
  generalize t.columns = l at h ⊢
  generalize t'.columns = l' at h ⊢
  dsimp only
  induction h with
  | nil => exact .nil
  | @cons c c' l l' hc hl ih =>
    have hname : hasName (Quote.fold name) c' = hasName (Quote.fold name) c := by
      rw [hasName, hasName, htitle c c' hc]
    rw [updateFirst, updateFirst, hname]
    split
    · exact .cons (hf c c' hc) hl
    · exact .cons hc ih

theorem columnsBy_foldl_congr (htitle : ∀ c c', p c' = p c → c'.title = c.title)
    (hf : Respects p f) (names : List String) (h : t'.columnsBy p = t.columnsBy p) :
    (names.foldl (fun t n => t.updateColumn n f) t').columnsBy p =
      (names.foldl (fun t n => t.updateColumn n f) t).columnsBy p := by
  induction names generalizing t t' with
  | nil => exact h
  | cons n names ih => exact ih (columnsBy_updateColumn_congr htitle hf n h)

end Table

/-- What a column says besides its type. -/
def Column.flags (c : Column) : String × Bool × Bool × Bool × Option String :=
  (c.title, c.required, c.primaryKey, c.unique, c.foreignKey)

namespace Table

variable {t t' : Table}

theorem title_of_flags (c c' : Column) (h : c'.flags = c.flags) : c'.title = c.title := by
  simp only [Column.flags, Prod.mk.injEq] at h
  exact h.1

theorem flags_setFlags (c : Constraint) (h : t'.columnsBy Column.flags = t.columnsBy Column.flags) :
    (t'.setFlags c).columnsBy Column.flags = (t.setFlags c).columnsBy Column.flags := by
  unfold setFlags
  split
  · refine columnsBy_foldl_congr title_of_flags (fun c c' hc => ?_) _ h
    simp only [Column.flags, Prod.mk.injEq] at hc ⊢
    exact ⟨hc.1, trivial, trivial, hc.2.2.2⟩
  · refine columnsBy_updateColumn_congr title_of_flags (fun c c' hc => ?_) _ h
    simp only [Column.flags, Prod.mk.injEq] at hc ⊢
    exact ⟨hc.1, hc.2.1, hc.2.2.1, trivial, hc.2.2.2.2⟩
  · split
    · refine columnsBy_updateColumn_congr title_of_flags (fun c c' hc => ?_) _ h
      simp only [Column.flags, Prod.mk.injEq] at hc ⊢
      exact ⟨hc.1, hc.2.1, hc.2.2.1, hc.2.2.2.1, trivial⟩
    · exact h
  · exact h

theorem isNone_findColumn? (h : t'.columnsBy Column.flags = t.columnsBy Column.flags)
    (name : String) : (t'.findColumn? name).isNone = (t.findColumn? name).isNone := by
  rw [columnsBy_eq_iff] at h
  rw [findColumn?, findColumn?]
  generalize t.columns = l at h ⊢
  generalize t'.columns = l' at h ⊢
  induction h with
  | nil => rfl
  | @cons c c' l l' hc _ ih =>
    have hname : hasName (Quote.fold name) c' = hasName (Quote.fold name) c := by
      rw [hasName, hasName, title_of_flags c c' hc]
    rw [List.find?_cons, List.find?_cons, hname]
    split
    · rfl
    · exact ih

/-- A constraint sets the same flags whatever its condition. -/
theorem flags_takeConstraint {c c' : Constraint} (hkind : c'.kind = c.kind)
    (hcolumns : c'.columns = c.columns) (hreference : c'.reference = c.reference)
    (h : t'.columnsBy Column.flags = t.columnsBy Column.flags) :
    (t'.takeConstraint c').columnsBy Column.flags = (t.takeConstraint c).columnsBy Column.flags := by
  have hset : t'.setFlags c' = t'.setFlags c := by
    unfold setFlags
    rw [hkind, hcolumns, hreference]
  rw [takeConstraint, takeConstraint, hcolumns]
  simp only [isNone_findColumn? h]
  split
  · rw [columnsBy, columnsBy, columns_keepConstraint, columns_keepConstraint, hset]
    exact flags_setFlags c h
  · exact h

end Table

/-! ## Effects of statements -/

/-- Statements that do the same to what is told about columns. -/
structure SameEffect (p : Column → β) (x x' : Statement) : Prop where
  enum : x'.enumOf? = x.enumOf?
  table : ∀ enums, (Schema.tableOf enums x').map (fun e => (e.1, e.2.columnsBy p)) =
    (Schema.tableOf enums x).map fun e => (e.1, e.2.columnsBy p)
  constraints : List.Forall₂ (SameEdit p) (Schema.constraintEdits x) (Schema.constraintEdits x')
  indexes : List.Forall₂ (SameEdit p) (Schema.indexEdits x) (Schema.indexEdits x')
  comments : List.Forall₂ (SameEdit p) (Schema.commentEdits x) (Schema.commentEdits x')

variable {statements statements' : List Statement}

theorem filterMap_enumOf? (h : List.Forall₂ (SameEffect p) statements statements') :
    statements'.filterMap Statement.enumOf? = statements.filterMap Statement.enumOf? := by
  induction h with
  | nil => rfl
  | cons hx _ ih => rw [List.filterMap_cons, List.filterMap_cons, hx.enum, ih]

theorem Schema.columnsBy_withTables (h : List.Forall₂ (SameEffect p) statements statements')
    (s : Schema) : (withTables statements' s).columnsBy p = (withTables statements s).columnsBy p := by
  have htables : (statements'.filterMap (tableOf s.enums)).map (fun e => (e.1, e.2.columnsBy p)) =
      (statements.filterMap (tableOf s.enums)).map fun e => (e.1, e.2.columnsBy p) := by
    rw [List.map_filterMap, List.map_filterMap]
    induction h with
    | nil => rfl
    | cons hx _ ih => rw [List.filterMap_cons, List.filterMap_cons, hx.table, ih]
  rw [withTables_eq, withTables_eq, columnsBy, columnsBy, OrderedMap.map_insertAll,
    OrderedMap.map_insertAll, htables]

/-- Statements of the same effects describe the same columns. -/
theorem Schema.columnsBy_described (h : List.Forall₂ (SameEffect p) statements statements') :
    (described statements').columnsBy p = (described statements).columnsBy p := by
  have hedits : List.Forall₂ (SameEdit p) (allEdits statements) (allEdits statements') :=
    List.rel_append (List.rel_flatMap h fun _ _ hx => hx.constraints)
      (List.rel_append (List.rel_flatMap h fun _ _ hx => hx.indexes)
        (List.rel_flatMap h fun _ _ hx => hx.comments))
  have henums : definedEnums statements' = definedEnums statements := by
    rw [definedEnums, definedEnums, filterMap_enumOf? h]
  rw [described, described, henums]
  exact columnsBy_foldl_edit hedits (columnsBy_withTables h _)

/-! ## Texts without comments -/

/-- The text has no comments, if it is one that scans by itself. -/
def Uncommented (s : String) : Prop := PlainText s → Comment.strip s = s

theorem SameItem.eq {s s' : String} (h : SameItem s s') (hs : Uncommented s) : s' = s := by
  rcases h with rfl | ⟨hplain, rfl⟩
  · rfl
  · exact hs hplain

theorem eq_of_sameItems {l l' : List String} (h : List.Forall₂ SameItem l l')
    (hl : ∀ s ∈ l, Uncommented s) : l' = l := by
  induction h with
  | nil => rfl
  | cons hx _ ih =>
    rw [List.forall_mem_cons] at hl
    rw [hx.eq hl.1, ih hl.2]

/-- The columns of the constraint have no comments, nor have those it refers to. -/
structure Constraint.Uncommented (c : Constraint) : Prop where
  columns : ∀ s ∈ c.columns, Schemata.Uncommented s
  reference : ∀ r, c.reference = some r → ∀ s ∈ r.columns, Schemata.Uncommented s

theorem Reference.Same.eq {r r' : Reference} (h : r.Same r')
    (hr : ∀ s ∈ r.columns, Uncommented s) : r' = r := by
  have hcolumns := eq_of_sameItems h.columns hr
  cases r
  cases r'
  rw [Reference.mk.injEq]
  exact ⟨h.schema, h.table, hcolumns, h.onDelete, h.onUpdate⟩

/-- The column that the definition refers to has no comments, however its text is taken apart. -/
def ColumnDefinition.Uncommented (d : ColumnDefinition) : Prop :=
  ∀ table s, d.foreignKey = some (table ++ "." ++ s) → Schemata.Uncommented s

theorem ColumnDefinition.Same.foreignKey_eq {d d' : ColumnDefinition} (h : d.Same d')
    (hd : d.Uncommented) : d'.foreignKey = d.foreignKey := by
  have hforeign := h.foreignKey
  rw [ColumnDefinition.Uncommented] at hd
  generalize d.foreignKey = o at hforeign hd ⊢
  generalize d'.foreignKey = o' at hforeign ⊢
  cases hforeign with
  | none => rfl
  | some htext =>
    obtain ⟨table, s, s', rfl, rfl, hs⟩ := htext
    rw [hs.eq (hd table s rfl)]

/-- The columns that a statement defines. -/
def Statement.definitions : Statement → List ColumnDefinition
  | .createTable _ _ columns _ => columns
  | _ => []

/-- The constraints that a statement adds. -/
def Statement.constraints : Statement → List Constraint
  | .createTable _ _ _ constraints => constraints
  | .addConstraint _ _ c => [c]
  | _ => []

/-! ## Columns of documents without comments -/

section
variable {d d' : ColumnDefinition} {enums : OrderedMap EnumType} {schema : Option String}

/-- The name of a column and its enum type. -/
def Column.shape (c : Column) : String × Option String := (c.title, c.enumName)

/-- The type of a column. -/
def Column.typing (c : Column) : String × String := (c.format, c.category)

theorem typesOnly_shape : Column.TypesOnly Column.shape :=
  ⟨fun _ => rfl, fun _ => rfl, fun _ _ => rfl, fun _ _ => rfl⟩

theorem typesOnly_typing : Column.TypesOnly Column.typing :=
  ⟨fun _ => rfl, fun _ => rfl, fun _ _ => rfl, fun _ _ => rfl⟩

theorem shape_buildColumn (h : d.Same d') : (Schema.buildColumn enums schema d').shape =
    (Schema.buildColumn enums schema d).shape := by
  cases hn : d.typeName.bind fun n => Schema.resolveEnum? enums n schema <;>
    simp only [Schema.buildColumn, Column.shape, h.typeName, hn, h.name]

theorem typing_buildColumn (h : d.Same d') (ht : Comment.strip d.typeText = d.typeText) :
    (Schema.buildColumn enums schema d').typing = (Schema.buildColumn enums schema d).typing := by
  cases hn : d.typeName.bind fun n => Schema.resolveEnum? enums n schema <;>
    simp only [Schema.buildColumn, Column.typing, h.typeName, hn, h.typeText, ht]

theorem flags_buildColumn (h : d.Same d') (hd : d.Uncommented) :
    (Schema.buildColumn enums schema d').flags = (Schema.buildColumn enums schema d).flags := by
  cases hn : d.typeName.bind fun n => Schema.resolveEnum? enums n schema <;>
    simp only [Schema.buildColumn, Column.flags, h.typeName, hn, h.name, h.notNull, h.primaryKey,
      h.unique, h.foreignKey_eq hd]

theorem map_buildColumn {l l' : List ColumnDefinition} (h : List.Forall₂ ColumnDefinition.Same l l')
    (hbuild : ∀ d ∈ l, ∀ d', d.Same d' →
      p (Schema.buildColumn enums schema d') = p (Schema.buildColumn enums schema d)) :
    (l'.map (Schema.buildColumn enums schema)).map p =
      (l.map (Schema.buildColumn enums schema)).map p := by
  induction h with
  | nil => rfl
  | @cons d d' l l' hd _ ih =>
    rw [List.forall_mem_cons] at hbuild
    simp only [List.map_cons, hbuild.1 d' hd, ih hbuild.2]

end

theorem sameEdit_of_typesOnly (hp : Column.TypesOnly p) (key : String) (c c' : Constraint) :
    SameEdit p (key, Table.takeConstraint c) (key, Table.takeConstraint c') := by
  refine ⟨rfl, fun t t' h => ?_⟩
  rw [Table.columnsBy_takeConstraint hp, Table.columnsBy_takeConstraint hp, h]

theorem sameEdit_comment (hp : ∀ c text, p { c with comment := text } = p c) (key : String)
    (column text : Option String) :
    SameEdit p (key, Table.takeComment column text) (key, Table.takeComment column text) := by
  refine ⟨rfl, fun t t' h => ?_⟩
  rw [Table.columnsBy_takeComment hp, Table.columnsBy_takeComment hp, h]

/-- Statements that agree up to comments do the same, if their columns and constraints do. -/
theorem Statement.Same.effect {x x' : Statement} (h : x.Same x')
    (hp : ∀ c text, p { c with comment := text } = p c)
    (hbuild : ∀ d ∈ x.definitions, ∀ d', d.Same d' → ∀ enums schema,
      p (Schema.buildColumn enums schema d') = p (Schema.buildColumn enums schema d))
    (hedit : ∀ c ∈ x.constraints, ∀ c', c.Same c' → ∀ key,
      SameEdit p (key, Table.takeConstraint c) (key, Table.takeConstraint c')) :
    SameEffect p x x' := by
  cases h with
  | @createTable schema name columns columns' constraints constraints' hcolumns hconstraints =>
    refine ⟨rfl, fun enums => ?_, ?_, .nil, .nil⟩
    · have hmap : (columns'.map (Schema.buildColumn enums schema)).map p =
          (columns.map (Schema.buildColumn enums schema)).map p :=
        map_buildColumn hcolumns fun d hd d' hsame => hbuild d hd d' hsame enums schema
      exact congrArg (fun l => some (Name.key schema name, l)) hmap
    · rw [Schema.constraintEdits, Schema.constraintEdits, List.forall₂_map_left_iff,
        List.forall₂_map_right_iff]
      have hall := (List.forall₂_and_left (p := (· ∈ constraints)) constraints constraints').2
        ⟨fun c hc => hc, hconstraints⟩
      exact hall.imp fun c c' hc => hedit c hc.1 c' hc.2 _
  | createEnum schema name values => exact ⟨rfl, fun _ => rfl, .nil, .nil, .nil⟩
  | @addConstraint schema table c c' hc =>
    exact ⟨rfl, fun _ => rfl, .cons (hedit c List.mem_cons_self c' hc _) .nil, .nil, .nil⟩
  | createIndex hi =>
    exact ⟨rfl, fun _ => rfl, .nil, .cons ⟨rfl, fun _ _ ht => ht⟩ .nil, .nil⟩
  | comment schema table column text =>
    exact ⟨rfl, fun _ => rfl, .nil, .nil, .cons (sameEdit_comment hp _ column text) .nil⟩

theorem Statement.Same.effect_shape {x x' : Statement} (h : x.Same x') :
    SameEffect Column.shape x x' :=
  h.effect typesOnly_shape.comment (fun _ _ _ hd _ _ => shape_buildColumn hd)
    fun c _ c' _ key => sameEdit_of_typesOnly typesOnly_shape key c c'

theorem Statement.Same.effect_typing {x x' : Statement} (h : x.Same x')
    (ht : ∀ d ∈ x.definitions, Comment.strip d.typeText = d.typeText) :
    SameEffect Column.typing x x' :=
  h.effect typesOnly_typing.comment (fun d hd _ hsame _ _ => typing_buildColumn hsame (ht d hd))
    fun c _ c' _ key => sameEdit_of_typesOnly typesOnly_typing key c c'

theorem Constraint.Same.sameEdit_flags {c c' : Constraint} (h : c.Same c') (hc : c.Uncommented)
    (key : String) :
    SameEdit Column.flags (key, Table.takeConstraint c) (key, Table.takeConstraint c') := by
  have hreference : c'.reference = c.reference := by
    have hrel := h.reference
    have hcomments := hc.reference
    generalize c.reference = o at hrel hcomments ⊢
    generalize c'.reference = o' at hrel ⊢
    cases hrel with
    | none => rfl
    | some hr => rw [hr.eq (hcomments _ rfl)]
  have hcolumns := eq_of_sameItems h.columns hc.columns
  exact ⟨rfl, fun t t' ht => Table.flags_takeConstraint h.kind hcolumns hreference ht⟩

theorem Statement.Same.effect_flags {x x' : Statement} (h : x.Same x')
    (hd : ∀ d ∈ x.definitions, d.Uncommented) (hc : ∀ c ∈ x.constraints, c.Uncommented) :
    SameEffect Column.flags x x' :=
  h.effect (fun _ _ => rfl) (fun d hmem _ hsame _ _ => flags_buildColumn hsame (hd d hmem))
    fun c hmem _ hsame key => hsame.sameEdit_flags (hc c hmem) key

/-! ## Documents -/

/-- No type of a column in the document has a comment between its words. -/
def PlainTypes (text : String) : Prop :=
  ∀ statements, (readAll text).result = .ok statements → ∀ x ∈ statements,
    ∀ d ∈ x.definitions, Comment.strip d.typeText = d.typeText

/-- No column of a key, of a constraint or of a reference in the document has a comment in it. -/
def PlainLists (text : String) : Prop :=
  ∀ statements, (readAll text).result = .ok statements → ∀ x ∈ statements,
    (∀ d ∈ x.definitions, d.Uncommented) ∧ ∀ c ∈ x.constraints, c.Uncommented

/-- What the columns of a document and of what is left without its comments have in common. -/
structure SameColumn (text : String) (c c' : Column) : Prop where
  title : c'.title = c.title
  enumName : c'.enumName = c.enumName
  format : PlainTypes text → c'.format = c.format
  category : PlainTypes text → c'.category = c.category
  required : PlainLists text → c'.required = c.required
  primaryKey : PlainLists text → c'.primaryKey = c.primaryKey
  unique : PlainLists text → c'.unique = c.unique
  foreignKey : PlainLists text → c'.foreignKey = c.foreignKey

namespace Schema

variable {s s' : Schema} {text key : String} {t t' : Table}

theorem keys_columnsBy : (s.columnsBy p).keys = s.tables.keys := by
  rw [columnsBy, OrderedMap.keys, OrderedMap.keys, OrderedMap.map, List.map_map]
  rfl

theorem columnsBy_of_get? (h : s'.columnsBy p = s.columnsBy p) (ht : s.tables.get? key = some t)
    (ht' : s'.tables.get? key = some t') :
    List.Forall₂ (fun c c' => p c' = p c) t.columns t'.columns := by
  have hget := congrArg (fun m => m.get? key) h
  rw [columnsBy, columnsBy, OrderedMap.get?_map, OrderedMap.get?_map, ht, ht'] at hget
  exact Table.columnsBy_eq_iff.1 (Option.some.inj hget)

/-- **Comments and declarations.** A document without dollar-quoted literals that is parsed is parsed
    without its comments too, and there are the same tables with the same columns.  The type of a
    column is the same unless there are comments between the words of types, and its flags are the
    same unless there are comments between the words of columns of keys, constraints or references:
    these texts are kept as they are written. -/
theorem ofDocument_strip (hd : NoDollarQuotes text) (h : (ofDocument text).result = .ok s) :
    ∃ s', (ofDocument (Comment.strip text)).result = .ok s' ∧ s'.tables.keys = s.tables.keys ∧
      ∀ key t t', s.tables.get? key = some t → s'.tables.get? key = some t' →
        List.Forall₂ (SameColumn text) t.columns t'.columns := by
  rw [ofDocument, Action.result_within] at h
  obtain ⟨statements, hread, h⟩ := Action.result_bind_ok h
  obtain ⟨s₀, hbuild, h⟩ := Action.result_bind_ok h
  cases h
  obtain ⟨hvalid, rfl⟩ := result_ofStatements.1 hbuild
  obtain ⟨statements', hread', hsame⟩ := readAll_strip hd hread
  have heffect := hsame.imp fun _ _ hx => hx.effect_shape
  have hshape := columnsBy_described heffect
  have hmem := (List.forall₂_and_left (p := (· ∈ statements)) statements statements').2
    ⟨fun _ hx => hx, hsame⟩
  have htyping (hp : PlainTypes text) := columnsBy_described
    (hmem.imp fun x _ hx => hx.2.effect_typing (hp statements hread x hx.1))
  have hflags (hp : PlainLists text) := columnsBy_described (hmem.imp fun x _ hx =>
    hx.2.effect_flags (hp statements hread x hx.1).1 (hp statements hread x hx.1).2)
  refine ⟨described statements', ?_, ?_, fun key t t' ht ht' => ?_⟩
  · have hbuild' : (ofStatements statements').result = .ok (described statements') := by
      refine result_ofStatements.2 ⟨?_, rfl⟩
      rwa [filterMap_enumOf? heffect]
    rw [ofDocument, Action.result_within, Action.result_bind, hread', Except.bind,
      Action.result_bind, hbuild']
    rfl
  · rw [← keys_columnsBy (p := Column.shape), hshape, keys_columnsBy]
  · obtain ⟨hlength, hcolumns⟩ := List.forall₂_iff_zip.1 (columnsBy_of_get? hshape ht ht')
    refine List.forall₂_iff_zip.2 ⟨hlength, fun {c c'} hc => ?_⟩
    have hshape := Prod.mk.inj (hcolumns hc)
    have htyping (hp : PlainTypes text) : c'.typing = c.typing :=
      (List.forall₂_iff_zip.1 (columnsBy_of_get? (htyping hp) ht ht')).2 hc
    have hflags (hp : PlainLists text) : c'.flags = c.flags :=
      (List.forall₂_iff_zip.1 (columnsBy_of_get? (hflags hp) ht ht')).2 hc
    simp only [Column.typing, Column.flags, Prod.mk.injEq] at htyping hflags
    exact ⟨hshape.1, hshape.2, fun hp => (htyping hp).1, fun hp => (htyping hp).2,
      fun hp => (hflags hp).2.1, fun hp => (hflags hp).2.2.1, fun hp => (hflags hp).2.2.2.1,
      fun hp => (hflags hp).2.2.2.2⟩

/-- A document with comments around types and between the columns of a key. -/
def notedDocument : String :=
  "CREATE TABLE t (a int /* first */ NOT NULL, -- and more
  b text, PRIMARY KEY (a /* and */, b));"

/-- What it says. -/
def notedStatements : List Statement :=
  [.createTable none "t"
    [{ name := "a", typeText := "int", typeName := some (none, "int"), notNull := true },
      { name := "b", typeText := "text", typeName := some (none, "text") }]
    [{ kind := .primaryKey, columns := ["a", "b"] }]]

theorem ofDocument_strip_notedDocument :
    NoDollarQuotes notedDocument ∧ PlainTypes notedDocument ∧ PlainLists notedDocument ∧
      ∃ s s', (ofDocument notedDocument).result = .ok s ∧
        (ofDocument (Comment.strip notedDocument)).result = .ok s' ∧
        s'.tables.keys = s.tables.keys ∧
        ∀ key t t', s.tables.get? key = some t → s'.tables.get? key = some t' →
          List.Forall₂ (SameColumn notedDocument) t.columns t'.columns := by
  have hdollar : NoDollarQuotes notedDocument := by decide +kernel
  have hread : (readAll notedDocument).result = .ok notedStatements :=
    toOption_eq_some.1 (by decide +kernel)
  have htypes : PlainTypes notedDocument := by
    intro statements h
    rw [hread] at h
    cases h
    decide +kernel
  have hlists : PlainLists notedDocument := by
    intro statements h x hx
    rw [hread] at h
    cases h
    obtain rfl := List.mem_singleton.1 hx
    refine ⟨fun d hd => ?_, fun c hc => ?_⟩
    · have hnone : d.foreignKey = none := by
        revert d
        decide
      intro table s hs
      rw [hnone] at hs
      cases hs
    · obtain rfl := List.mem_singleton.1 hc
      have hcolumns : ∀ s ∈ ["a", "b"], Comment.strip s = s := by decide +kernel
      exact ⟨fun s hs _ => hcolumns s hs, nofun⟩
  have hok : ((ofDocument notedDocument).result.toOption).isSome = true := by decide +kernel
  cases h : (ofDocument notedDocument).result with
  | error e =>
    rw [h] at hok
    cases hok
  | ok s => exact ⟨hdollar, htypes, hlists, s, _, rfl, (ofDocument_strip hdollar h).choose_spec⟩

/-! ### A comment within a type -/

/-- A table whose column has a comment between the words of its type. -/
def wideDocument : String := "CREATE TABLE t (a double /* wide */ precision);"

/-- The types of the columns of a table that a document describes. -/
def formats (key document : String) : Option (List String) := do
  let s ← (ofDocument document).result.toOption
  let t ← s.tables.get? key
  return t.columns.map (·.format)

theorem of_formats {key document : String} {l : List String} (h : formats key document = some l) :
    ∃ s t, (ofDocument document).result = .ok s ∧ s.tables.get? key = some t ∧
      t.columns.map (·.format) = l := by
  obtain ⟨s, hs, h⟩ := Option.bind_eq_some_iff.1 h
  obtain ⟨t, ht, h⟩ := Option.bind_eq_some_iff.1 h
  exact ⟨s, t, toOption_eq_some.1 hs, ht, Option.some.inj h⟩

/-- A comment within a type stays in it: stripping the comments of a document may change a type. -/
theorem format_wideDocument :
    ¬ ∀ text s, NoDollarQuotes text → (ofDocument text).result = .ok s →
      ∃ s', (ofDocument (Comment.strip text)).result = .ok s' ∧ s'.tables.keys = s.tables.keys ∧
        ∀ key t t', s.tables.get? key = some t → s'.tables.get? key = some t' →
          List.Forall₂ (fun c c' => c'.title = c.title ∧ c'.format = c.format ∧
            c'.category = c.category ∧ c'.enumName = c.enumName ∧ c'.required = c.required ∧
            c'.primaryKey = c.primaryKey ∧ c'.unique = c.unique ∧ c'.foreignKey = c.foreignKey)
            t.columns t'.columns := by
  intro hall
  have hwide : formats "t" wideDocument = some ["double /* wide */ precision"] := by decide +kernel
  have hstripped : formats "t" (Comment.strip wideDocument) = some ["float8"] := by decide +kernel
  obtain ⟨s, t, hs, ht, hformats⟩ := of_formats hwide
  obtain ⟨s', t', hs', ht', hformats'⟩ := of_formats hstripped
  obtain ⟨s'', hs'', -, hcolumns⟩ := hall wideDocument s (by decide +kernel) hs
  rw [hs', Except.ok.injEq] at hs''
  subst hs''
  have hsame : t'.columns.map (·.format) = t.columns.map (·.format) :=
    Table.columnsBy_eq_iff.2 ((hcolumns "t" t t' ht ht').imp fun _ _ hc => hc.2.1)
  rw [hformats, hformats'] at hsame
  exact absurd hsame (by decide)

end Schema

end Schemata
