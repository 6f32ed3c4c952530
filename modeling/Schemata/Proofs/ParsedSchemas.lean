/-
  What the schema of a document is like.

  * `ParsedTable`: the columns of a table have distinct names, its constraints say more than column
    flags could and agree with them, and no constraint or index is there twice;
  * each edit of a table keeps it so (`ParsedTable.takeConstraint`, `ParsedTable.addIndex`,
    `ParsedTable.takeComment`), and a defined table starts so (`parsedTable_defined`);
  * `parsedSchema_ofDocument`: all tables and enum types of the schema of a document are parsed ones,
    each under its own key.
-/
import Schemata.Proofs.Folding
import Schemata.Proofs.ParsedStatements

namespace Schemata

open Log Statement Written

variable {enums : OrderedMap EnumType} {t : Table}

/-! ## Columns -/

/-- A column has an enum type that there is, or a type with the class of its text. -/
structure ParsedColumn (enums : OrderedMap EnumType) (c : Column) : Prop where
  required : c.primaryKey = true → c.required = true
  enumValues : c.enumValues = none
  type : (∃ key e, enums.get? key = some e ∧ c.enumName = nonBlank e.key ∧ c.format = "enum" ∧
      c.category = Category.string.name) ∨
    (c.enumName = none ∧ c.category = (TypeText.category c.format).name)
  default : ∀ s, c.defaultText = some s → ParsedDefault s

theorem exists_of_soleEnumNamed? {name : String} {e : EnumType}
    (h : Schema.soleEnumNamed? enums name = some e) : ∃ key, enums.get? key = some e := by
  unfold Schema.soleEnumNamed? at h
  split at h
  · next d hd =>
    cases h
    have hm : e ∈ enums.values.filter fun e => Quote.fold e.name == Quote.fold name := by
      rw [hd]
      exact List.mem_cons_self
    obtain ⟨entry, hentry, rfl⟩ := List.mem_map.1 (List.mem_filter.1 hm).1
    exact ⟨entry.1, OrderedMap.get?_eq_some_iff.2 hentry⟩
  · cases h

theorem exists_of_resolveEnum? {typeName : Option String × String} {schema : Option String}
    {e : EnumType} (h : Schema.resolveEnum? enums typeName schema = some e) :
    ∃ key, enums.get? key = some e := by
  unfold Schema.resolveEnum? at h
  dsimp only at h
  split at h
  · next he => cases h; exact ⟨_, he⟩
  · cases h
  · split at h
    · next he =>
      cases h
      obtain ⟨s, -, hs⟩ := Option.bind_eq_some_iff.1 he
      exact ⟨_, hs⟩
    · exact exists_of_soleEnumNamed? h

theorem parsedColumn_build (schema : Option String) {d : ColumnDefinition} (h : ParsedDefinition d) :
    ParsedColumn enums (Schema.buildColumn enums schema d) := by
  have hdefault : ∀ s, d.defaultText.bind nonBlank = some s → ParsedDefault s := by
    intro s hs
    obtain ⟨s', hs', hblank⟩ := Option.bind_eq_some_iff.1 hs
    unfold nonBlank at hblank
    split at hblank
    · cases hblank
    · cases hblank
      exact h s hs'
  have hrequired : d.primaryKey = true → (d.notNull || d.primaryKey) = true := fun hk => by simp [hk]
  unfold Schema.buildColumn
  dsimp only
  split
  · next e he =>
    obtain ⟨typeName, -, hresolve⟩ := Option.bind_eq_some_iff.1 he
    obtain ⟨key, hkey⟩ := exists_of_resolveEnum? hresolve
    refine ⟨hrequired, rfl, .inl ⟨key, e, hkey, ?_, ?_, ?_⟩, hdefault⟩ <;> dsimp only
  · refine ⟨hrequired, rfl, .inr ⟨?_, ?_⟩, hdefault⟩ <;> dsimp only

theorem ParsedColumn.flag {c : Column} (constraint : Constraint) (h : ParsedColumn enums c) :
    ParsedColumn enums (c.flag constraint) := by
  refine ⟨fun hk => ?_, h.enumValues, h.type, h.default⟩
  rcases Bool.or_eq_true_iff.1 hk with hk | hk
  · exact Bool.or_eq_true_iff.2 (.inl (h.required hk))
  · exact Bool.or_eq_true_iff.2 (.inr hk)

/-! ## Tables -/

/-- The flags of the columns agree with the constraints, which say more than flags could, and nothing
    is there twice. -/
structure ParsedTable (enums : OrderedMap EnumType) (t : Table) : Prop where
  titles : (t.columns.map Column.folded).Nodup
  columns : ∀ c ∈ t.columns, ParsedColumn enums c
  constraints : ∀ c ∈ t.constraints, ParsedConstraint c
  unfolded : ∀ c ∈ t.constraints, c.isFolded = false
  known : ∀ c ∈ t.constraints, ∀ n ∈ c.columns, Quote.fold n ∈ t.columns.map Column.folded
  apart : t.constraints.Pairwise Constraint.Apart
  keys : ∀ c ∈ t.constraints, ∀ col ∈ t.columns, c.coversKey col.folded = true →
    col.primaryKey = true
  uniques : ∀ c ∈ t.constraints, ∀ col ∈ t.columns, c.coversUnique col.folded = true →
    col.unique = true
  targets : ∀ c ∈ t.constraints, ∀ col ∈ t.columns, (c.target? col.folded).isSome = true →
    col.foreignKey.isSome = true
  indexes : ∀ i ∈ t.indexes, ParsedIndex i
  indexNames : (t.indexes.map (·.name)).Nodup
  isView : t.isView = false
  position : t.position = none

theorem parsedTable_defined {schema : Option String} {name : String}
    {columns : List ColumnDefinition} {constraints : List Constraint}
    (h : ParsedBody [] columns constraints) :
    ParsedTable enums
      { title := name, schema, columns := columns.map (Schema.buildColumn enums schema) } := by
  have htitle : ∀ d, (Schema.buildColumn enums schema d).folded = Quote.fold d.name := by
    intro d
    unfold Schema.buildColumn
    dsimp only
    split <;> rfl
  constructor
  case titles =>
    rw [List.map_map]
    simpa only [Function.comp_def, htitle] using h.distinct
  case columns =>
    intro c hc
    obtain ⟨d, hd, rfl⟩ := List.mem_map.1 hc
    exact parsedColumn_build schema (h.definition d hd)
  case apart => exact List.Pairwise.nil
  case indexNames => exact List.nodup_nil
  case isView => rfl
  case position => rfl
  all_goals exact fun _ hc => absurd hc List.not_mem_nil

/-! ### Constraints -/

namespace Constraint

variable {c d : Constraint} {ds : List Constraint}

theorem mem_keep (h : d ∈ keep ds c) : d ∈ ds ∨ d = c ∧ c.isFolded = false := by
  unfold keep at h
  split at h
  · next name hname =>
    rcases List.mem_append.1 h with h | h
    · exact .inl (List.mem_filter.1 h).1
    · exact .inr ⟨List.mem_singleton.1 h, by simp [isFolded, hname]⟩
  · split at h
    · next hc =>
      rw [Bool.and_eq_true, Bool.not_eq_true'] at hc
      rcases List.mem_append.1 h with h | h
      · exact .inl h
      · exact .inr ⟨List.mem_singleton.1 h, hc.1⟩
    · exact .inl h

/-- What is kept stays apart. -/
theorem pairwise_keep (c : Constraint) (h : ds.Pairwise Apart) : (keep ds c).Pairwise Apart := by
  unfold keep
  split
  · next name hname =>
    refine List.pairwise_append.2 ⟨h.filter _, List.pairwise_singleton _ _, fun d hd e he => ?_⟩
    obtain rfl := List.mem_singleton.1 he
    obtain ⟨-, hd⟩ := List.mem_filter.1 hd
    unfold Apart
    cases hm : filled d.name with
    | none => rw [hname]; trivial
    | some m => simpa [Table.constraintNamed, hm, hname] using hd
  · next hname =>
    split
    · next hc =>
      refine List.pairwise_append.2 ⟨h, List.pairwise_singleton _ _, fun d hd e he => ?_⟩
      obtain rfl := List.mem_singleton.1 he
      unfold Apart
      cases hm : filled d.name with
      | some m => rw [hname]; trivial
      | none =>
        rw [hname]
        rintro rfl
        rw [Bool.and_eq_true, Bool.not_eq_true', Bool.eq_false_iff, ne_eq,
          Bool.not_eq_true', Bool.eq_false_iff, ne_eq, List.contains_iff_mem] at hc
        exact hc.2 hd
    · exact h

end Constraint

theorem Table.mem_folded_of_findColumn? {name : String} {col : Column}
    (h : t.findColumn? name = some col) : Quote.fold name ∈ t.columns.map Column.folded := by
  have hname := List.find?_some h
  rw [hasName, beq_iff_eq] at hname
  exact List.mem_map.2 ⟨col, List.mem_of_find?_eq_some h, hname⟩

/-- One column is another one with more flags. -/
structure Column.Extends (c d : Column) : Prop where
  folded : d.folded = c.folded
  primaryKey : c.primaryKey = true → d.primaryKey = true
  unique : c.unique = true → d.unique = true
  foreignKey : c.foreignKey.isSome = true → d.foreignKey.isSome = true

theorem Column.extends_flag (c : Constraint) (col : Column) : col.Extends (col.flag c) where
  folded := rfl
  primaryKey := fun h => Bool.or_eq_true_iff.2 (.inl h)
  unique := fun h => Bool.or_eq_true_iff.2 (.inl h)
  foreignKey := fun h => by
    rw [Column.flag, Option.isSome_or, h, Bool.or_true]

namespace ParsedTable

/-- More flags do not break the agreement with the constraints. -/
theorem mapColumns {f : Column → Column} (hf : ∀ col : Column, col.Extends (f col))
    (hp : ∀ col, ParsedColumn enums col → ParsedColumn enums (f col)) (h : ParsedTable enums t) :
    ParsedTable enums { t with columns := t.columns.map f } := by
  have hfolded : (t.columns.map f).map Column.folded = t.columns.map Column.folded := by
    rw [List.map_map]
    exact List.map_congr_left fun col _ => (hf col).folded
  constructor
  case titles => exact hfolded ▸ h.titles
  case columns =>
    intro d hd
    obtain ⟨col, hcol, rfl⟩ := List.mem_map.1 hd
    exact hp col (h.columns col hcol)
  case known => exact fun c hc n hn => hfolded ▸ h.known c hc n hn
  case keys =>
    intro c hc d hd hcovers
    obtain ⟨col, hcol, rfl⟩ := List.mem_map.1 hd
    rw [(hf col).folded] at hcovers
    exact (hf col).primaryKey (h.keys c hc col hcol hcovers)
  case uniques =>
    intro c hc d hd hcovers
    obtain ⟨col, hcol, rfl⟩ := List.mem_map.1 hd
    rw [(hf col).folded] at hcovers
    exact (hf col).unique (h.uniques c hc col hcol hcovers)
  case targets =>
    intro c hc d hd htarget
    obtain ⟨col, hcol, rfl⟩ := List.mem_map.1 hd
    rw [(hf col).folded] at htarget
    exact (hf col).foreignKey (h.targets c hc col hcol htarget)
  case constraints => exact h.constraints
  case unfolded => exact h.unfolded
  case apart => exact h.apart
  case indexes => exact h.indexes
  case indexNames => exact h.indexNames
  case isView => exact h.isView
  case position => exact h.position

/-- A constraint is kept by a table whose flags agree with it. -/
theorem keepConstraint {c : Constraint} (hc : ParsedConstraint c)
    (hknown : ∀ n ∈ c.columns, Quote.fold n ∈ t.columns.map Column.folded)
    (hkey : ∀ col ∈ t.columns, c.coversKey col.folded = true → col.primaryKey = true)
    (hunique : ∀ col ∈ t.columns, c.coversUnique col.folded = true → col.unique = true)
    (htarget : ∀ col ∈ t.columns, (c.target? col.folded).isSome = true →
      col.foreignKey.isSome = true)
    (h : ParsedTable enums t) : ParsedTable enums (t.keepConstraint c) := by
  have hkept {p : Constraint → Prop} (hall : ∀ d ∈ t.constraints, p d) (hone : p c) :
      ∀ d ∈ Constraint.keep t.constraints c, p d := by
    intro d hd
    rcases Constraint.mem_keep hd with hd | ⟨rfl, -⟩
    · exact hall d hd
    · exact hone
  rw [Table.keepConstraint_eq]
  constructor
  case constraints => exact hkept h.constraints hc
  case known => exact hkept h.known hknown
  case keys => exact hkept h.keys hkey
  case uniques => exact hkept h.uniques hunique
  case targets => exact hkept h.targets htarget
  case unfolded =>
    intro d hd
    rcases Constraint.mem_keep hd with hd | ⟨rfl, hd⟩
    · exact h.unfolded d hd
    · exact hd
  case apart => exact Constraint.pairwise_keep c h.apart
  case titles => exact h.titles
  case columns => exact h.columns
  case indexes => exact h.indexes
  case indexNames => exact h.indexNames
  case isView => exact h.isView
  case position => exact h.position

theorem takeConstraint {c : Constraint} (hc : ParsedConstraint c) (h : ParsedTable enums t) :
    ParsedTable enums (t.takeConstraint c) := by
  unfold Table.takeConstraint
  split
  · next hknown =>
    rw [Table.setFlags_eq c h.titles]
    refine (h.mapColumns (Column.extends_flag c) fun _ hcol => hcol.flag c).keepConstraint hc
      (fun n hn => ?_) (fun d hd hcovers => ?_) (fun d hd hcovers => ?_) fun d hd htarget => ?_
    · rw [List.isEmpty_iff, List.filter_eq_nil_iff] at hknown
      have hsome := hknown n hn
      rw [Option.isNone_iff_eq_none] at hsome
      obtain ⟨col, hcol⟩ := Option.ne_none_iff_exists'.1 hsome
      rw [List.map_map]
      exact Table.mem_folded_of_findColumn? hcol
    all_goals obtain ⟨col, hcol, rfl⟩ := List.mem_map.1 hd
    · exact Bool.or_eq_true_iff.2 (.inr hcovers)
    · exact Bool.or_eq_true_iff.2 (.inr hcovers)
    · rw [Column.folded_flag] at htarget
      rw [Column.flag, Option.isSome_or, htarget, Bool.true_or]
  · exact h

/-! ### Indexes and comments -/

theorem addIndex {i : Index} (hi : ParsedIndex i) (h : ParsedTable enums t) :
    ParsedTable enums (t.addIndex i) := by
  constructor
  case indexes =>
    intro j hj
    rcases List.mem_append.1 hj with hj | hj
    · exact h.indexes j (List.mem_filter.1 hj).1
    · rw [List.mem_singleton.1 hj]
      exact hi
  case indexNames =>
    show ((t.indexes.filter (fun j => j.name != i.name) ++ [i]).map (·.name)).Nodup
    rw [List.map_append, List.nodup_append]
    refine ⟨h.indexNames.sublist (List.filter_sublist.map _), List.nodup_singleton _, ?_⟩
    intro m hm n hn
    obtain ⟨j, hj, rfl⟩ := List.mem_map.1 hm
    rw [List.mem_singleton.1 hn]
    exact bne_iff_ne.1 (List.mem_filter.1 hj).2
  case titles => exact h.titles
  case columns => exact h.columns
  case constraints => exact h.constraints
  case unfolded => exact h.unfolded
  case known => exact h.known
  case apart => exact h.apart
  case keys => exact h.keys
  case uniques => exact h.uniques
  case targets => exact h.targets
  case isView => exact h.isView
  case position => exact h.position

theorem takeComment (column text : Option String) (h : ParsedTable enums t) :
    ParsedTable enums (t.takeComment column text) := by
  cases column with
  | none => exact { h with }
  | some name =>
    rw [Table.takeComment, Table.updateColumn_eq name h.titles]
    refine h.mapColumns (fun col => ?_) fun col hcol => ?_
    · split <;> exact ⟨rfl, id, id, id⟩
    · split
      · exact { hcol with }
      · exact hcol

end ParsedTable

/-! ## Schemas -/

/-- An edit keeps tables parsed, each under its key. -/
def ParsedEdit (enums : OrderedMap EnumType) (f : Table → Table) : Prop :=
  ∀ t, ParsedTable enums t → ParsedTable enums (f t) ∧ (f t).key = t.key

theorem parsedEdit_takeConstraint {c : Constraint} (hc : ParsedConstraint c) :
    ParsedEdit enums (Table.takeConstraint c) := by
  refine fun t h => ⟨h.takeConstraint hc, ?_⟩
  unfold Table.takeConstraint
  split
  · rw [Table.setFlags_eq c h.titles, Table.keepConstraint_eq]
    rfl
  · rfl

theorem parsedEdit_of_mem_allEdits {statements : List Statement} {e : Schema.TableEdit}
    (hp : ∀ x ∈ statements, ParsedStatement x) (he : e ∈ Schema.allEdits statements) :
    ParsedEdit enums e.2 := by
  unfold Schema.allEdits at he
  rcases List.mem_append.1 he with he | he
  · obtain ⟨x, hx, he⟩ := List.mem_flatMap.1 he
    cases x with
    | createTable schema name columns constraints =>
      obtain ⟨c, hc, rfl⟩ := List.mem_map.1 he
      exact parsedEdit_takeConstraint ((hp _ hx).constraint c hc)
    | addConstraint schema table c =>
      rw [List.mem_singleton.1 he]
      exact parsedEdit_takeConstraint (hp _ hx)
    | _ => exact absurd he List.not_mem_nil
  rcases List.mem_append.1 he with he | he
  · obtain ⟨x, hx, he⟩ := List.mem_flatMap.1 he
    cases x with
    | createIndex schema table i =>
      rw [List.mem_singleton.1 he]
      exact fun t h => ⟨h.addIndex (hp _ hx), rfl⟩
    | _ => exact absurd he List.not_mem_nil
  · obtain ⟨x, hx, he⟩ := List.mem_flatMap.1 he
    cases x with
    | comment schema table column text =>
      rw [List.mem_singleton.1 he]
      refine fun t h => ⟨h.takeComment column text, ?_⟩
      cases column <;> rfl
    | _ => exact absurd he List.not_mem_nil

/-- A run of edits keeps a table parsed, under its key. -/
theorem ParsedTable.foldl_edits {edits : List Schema.TableEdit}
    (he : ∀ e ∈ edits, ParsedEdit enums e.2) (h : ParsedTable enums t) :
    ParsedTable enums (edits.foldl (fun t e => e.2 t) t) ∧
      (edits.foldl (fun t e => e.2 t) t).key = t.key := by
  induction edits generalizing t with
  | nil => exact ⟨h, rfl⟩
  | cons e edits ih =>
    obtain ⟨hone, hkey⟩ := he e List.mem_cons_self t h
    obtain ⟨hall, hkeys⟩ := ih (fun f hf => he f (List.mem_cons_of_mem e hf)) hone
    exact ⟨hall, hkeys.trans hkey⟩

/-- All tables and enum types are parsed ones, each under its own key. -/
structure ParsedSchema (s : Schema) : Prop where
  tables : ∀ k t, s.tables.get? k = some t → k = t.key ∧ ParsedTable s.enums t
  enums : ∀ k e, s.enums.get? k = some e → k = e.key ∧ e.Valid

theorem parsedSchema_ofStatements {statements : List Statement} {s : Schema}
    (hp : ∀ x ∈ statements, ParsedStatement x)
    (h : (Schema.ofStatements statements).result = .ok s) : ParsedSchema s := by
  obtain ⟨hvalid, rfl⟩ := Schema.result_ofStatements.1 h
  constructor
  case tables =>
    intro k t ht
    rw [Schema.get?_described, Option.map_eq_some_iff] at ht
    rw [Schema.enums_described]
    obtain ⟨defined, hdefined, rfl⟩ := ht
    obtain ⟨schema, name, columns, constraints, hx, rfl, rfl⟩ :=
      Schema.exists_of_get?_withTables hdefined
    obtain ⟨hparsed, hkey⟩ := (parsedTable_defined (hp _ hx)).foldl_edits fun e he =>
      parsedEdit_of_mem_allEdits hp (List.mem_filter.1 he).1
    exact ⟨hkey.symm, hparsed⟩
  case enums =>
    intro k e he
    rw [Schema.enums_described] at he
    rcases OrderedMap.mem_of_get?_insertAll _ he with hdefined | hempty
    · obtain ⟨d, hd, hdefined⟩ := List.mem_map.1 hdefined
      cases hdefined
      exact ⟨rfl, hvalid e hd⟩
    · cases hempty

/-- **The schema of a document.** All its tables and enum types are parsed ones. -/
theorem parsedSchema_ofDocument {text : String} {s : Schema}
    (h : (Schema.ofDocument text).result = .ok s) : ParsedSchema s := by
  obtain ⟨statements, hread, hbuild⟩ := Schema.result_ofDocument.1 h
  exact parsedSchema_ofStatements (parsed_readAll hread) hbuild

end Schemata
