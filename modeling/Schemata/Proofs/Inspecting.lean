/-
  Inspecting a document, and generating from what was written.

  * `NormalTable`: but for comments, no text of a column is blank, and keys are required; every table
    of a document is so (`normalTable_ofDocument`), as no edit makes a text blank;
  * a schema is written without regard to blank comments (`result_generate_unblanked`), unless they have
    characters that are written;
  * `perform_generate_inspect`: generating from the JSON of an inspected document writes what formatting
    the document writes, and `perform_generate_blank` says why comments are apart.
-/
import Schemata.Proofs.Projection
import Schemata.Proofs.SchemaFiles

namespace Schemata

open Log Statement
open Cleaning (NormalColumn)

variable {t : Table} {c : Column}

/-! ## Normal tables -/

/-- The columns have no blank texts but comments, and keys are required. -/
def NormalTable (t : Table) : Prop := ∀ c ∈ t.columns, NormalColumn c.unblanked

theorem bind_nonBlank_bind (o : Option String) : (o.bind nonBlank).bind nonBlank = o.bind nonBlank := by
  cases o with
  | none => rfl
  | some s => exact Cleaning.nonBlank_bind s

theorem coherent_eq_self (h : c.primaryKey = true → c.required = true) : c.coherent = c := by
  unfold Column.coherent
  split
  · next hkey => rw [← h hkey]
  · rfl

theorem normalColumn_build (enums : OrderedMap EnumType) (schema : Option String)
    (d : ColumnDefinition) : NormalColumn (Schema.buildColumn enums schema d).unblanked := by
  have hrequired : d.primaryKey = true → (d.notNull || d.primaryKey) = true := fun h => by simp [h]
  unfold Schema.buildColumn
  dsimp only
  split
  · exact ⟨coherent_eq_self hrequired, bind_nonBlank_bind _, bind_nonBlank_bind _,
      Cleaning.nonBlank_bind _, rfl⟩
  · exact ⟨coherent_eq_self hrequired, bind_nonBlank_bind _, bind_nonBlank_bind _, rfl, rfl⟩

namespace Table

theorem mem_updateFirst {α : Type} {p : α → Bool} {f : α → α} {l : List α} {b : α}
    (h : b ∈ updateFirst p f l) : b ∈ l ∨ ∃ a ∈ l, b = f a := by
  induction l with
  | nil => cases h
  | cons a l ih =>
    rw [updateFirst] at h
    split at h
    · rcases List.mem_cons.1 h with rfl | h
      · exact .inr ⟨a, List.mem_cons_self, rfl⟩
      · exact .inl (List.mem_cons_of_mem a h)
    · rcases List.mem_cons.1 h with rfl | h
      · exact .inl List.mem_cons_self
      · rcases ih h with h | ⟨d, hd, rfl⟩
        · exact .inl (List.mem_cons_of_mem a h)
        · exact .inr ⟨d, List.mem_cons_of_mem a hd, rfl⟩

theorem normal_updateColumn (h : NormalTable t) (name : String) {f : Column → Column}
    (hf : ∀ c, NormalColumn c.unblanked → NormalColumn (f c).unblanked) :
    NormalTable (t.updateColumn name f) := by
  intro c hc
  rcases mem_updateFirst hc with hc | ⟨d, hd, rfl⟩
  · exact h c hc
  · exact hf d (h d hd)

/-- Flags and references from constraints are set on columns that stay normal. -/
theorem normal_setFlags (h : NormalTable t) (c : Constraint) : NormalTable (t.setFlags c) := by
  unfold setFlags
  split
  · generalize c.columns = columns
    induction columns generalizing t with
    | nil => exact h
    | cons n columns ih =>
      exact ih (normal_updateColumn h n fun col hcol =>
        { hcol with required := coherent_eq_self fun _ => rfl })
  · exact normal_updateColumn h _ fun col hcol =>
      { hcol with required := coherent_eq_self hcol.required_of_key }
  · split
    · next text htext =>
      have hforeign : (some text).bind nonBlank = some text :=
        Written.nonBlank_eq (Written.point_mem_reference htext) rfl
      exact normal_updateColumn h _ fun col hcol =>
        { hcol with required := coherent_eq_self hcol.required_of_key, foreignKey := hforeign }
    · exact h
  · exact h

theorem normal_takeConstraint (h : NormalTable t) (c : Constraint) :
    NormalTable (t.takeConstraint c) := by
  unfold takeConstraint
  split
  · rw [keepConstraint_eq]
    exact normal_setFlags h c
  · exact h

theorem normal_takeComment (h : NormalTable t) (column text : Option String) :
    NormalTable (t.takeComment column text) := by
  cases column with
  | none => exact h
  | some name =>
    exact normal_updateColumn h name fun col hcol =>
      { hcol with required := coherent_eq_self hcol.required_of_key, comment := bind_nonBlank_bind _ }

end Table

theorem normal_of_mem_allEdits {statements : List Statement} {e : Schema.TableEdit}
    (he : e ∈ Schema.allEdits statements) (h : NormalTable t) : NormalTable (e.2 t) := by
  unfold Schema.allEdits at he
  rcases List.mem_append.1 he with he | he
  · obtain ⟨x, -, he⟩ := List.mem_flatMap.1 he
    cases x with
    | createTable schema name columns constraints =>
      obtain ⟨c, -, rfl⟩ := List.mem_map.1 he
      exact Table.normal_takeConstraint h c
    | addConstraint schema table c =>
      rw [List.mem_singleton.1 he]
      exact Table.normal_takeConstraint h c
    | _ => exact absurd he List.not_mem_nil
  rcases List.mem_append.1 he with he | he
  · obtain ⟨x, -, he⟩ := List.mem_flatMap.1 he
    cases x with
    | createIndex schema table i =>
      rw [List.mem_singleton.1 he]
      exact h
    | _ => exact absurd he List.not_mem_nil
  · obtain ⟨x, -, he⟩ := List.mem_flatMap.1 he
    cases x with
    | comment schema table column text =>
      rw [List.mem_singleton.1 he]
      exact Table.normal_takeComment h column text
    | _ => exact absurd he List.not_mem_nil

theorem normalTable_foldl {edits : List Schema.TableEdit}
    (he : ∀ e ∈ edits, ∀ t, NormalTable t → NormalTable (e.2 t)) (h : NormalTable t) :
    NormalTable (edits.foldl (fun t e => e.2 t) t) := by
  induction edits generalizing t with
  | nil => exact h
  | cons e edits ih =>
    rw [List.forall_mem_cons] at he
    exact ih he.2 (he.1 t h)

/-- The tables of a document are normal. -/
theorem normalTable_ofDocument {text : String} {s : Schema}
    (h : (Schema.ofDocument text).result = .ok s) {k : String} (ht : s.tables.get? k = some t) :
    NormalTable t := by
  obtain ⟨statements, -, hbuild⟩ := Schema.result_ofDocument.1 h
  obtain ⟨-, rfl⟩ := Schema.result_ofStatements.1 hbuild
  rw [Schema.get?_described, Option.map_eq_some_iff] at ht
  obtain ⟨defined, hdefined, rfl⟩ := ht
  obtain ⟨schema, name, columns, constraints, -, rfl, rfl⟩ :=
    Schema.exists_of_get?_withTables hdefined
  refine normalTable_foldl (fun e he _ => normal_of_mem_allEdits (List.mem_filter.1 he).1) ?_
  intro c hc
  obtain ⟨d, -, rfl⟩ := List.mem_map.1 hc
  exact normalColumn_build _ schema d

/-! ## Clean tables -/

/-- Every table has a column, and no title is blank. -/
structure Schema.Titled (s : Schema) : Prop where
  columns : ∀ k t, s.tables.get? k = some t → t.columns ≠ []
  tables : ∀ k t, s.tables.get? k = some t → Text.isBlankText t.title = false
  titles : ∀ k t, s.tables.get? k = some t → ∀ c ∈ t.columns, Text.isBlankText c.title = false

theorem isBlankText_key {title : String} (h : Text.isBlankText title = false)
    (schema : Option String) : Text.isBlankText (Name.key schema title) = false := by
  obtain ⟨c, hc, hb⟩ := List.all_eq_false.1 h
  refine Written.isBlankText_eq_false (c := c) ?_ (Bool.eq_false_iff.2 hb)
  unfold Name.key
  split
  · split
    · exact hc
    · rw [String.toList_append]
      exact List.mem_append_right _ hc
  · exact hc

/-- The tables of a document are clean but for blank comments, if they have columns and titles. -/
theorem cleanTables_unblanked {text : String} {s : Schema}
    (h : (Schema.ofDocument text).result = .ok s) (hs : s.Titled) :
    Cleaning.CleanTables s.unblanked.tables := by
  intro key _ ht
  rw [Schema.unblanked, OrderedMap.get?_map, Option.map_eq_some_iff] at ht
  obtain ⟨t, ht, rfl⟩ := ht
  obtain ⟨hkey, hparsed⟩ := (parsedSchema_ofDocument h).tables key t ht
  have hclean : ∀ c ∈ t.columns, Cleaning.CleanColumn c.unblanked := by
    intro c hc
    obtain ⟨hrequired, hdefault, hforeign, henum, hcomment⟩ := normalTable_ofDocument h ht c hc
    exact ⟨hs.titles key t ht c hc, hrequired, hdefault, hforeign, henum, hcomment⟩
  constructor
  case title =>
    intro hblank
    rw [Table.unblanked, hs.tables key t ht] at hblank
    cases hblank
  case key =>
    rw [hkey]
    exact isBlankText_key (hs.tables key t ht) t.schema
  case nonempty => exact fun hnil => hs.columns key t ht (List.map_eq_nil_iff.1 hnil)
  case columns =>
    refine Written.cleanColumns_of_nodup (List.forall_mem_map.2 hclean) ?_ fun _ _ => List.not_mem_nil
    rw [Table.unblanked, List.map_map]
    exact hparsed.titles

/-! ## Writing without blank comments -/

/-- No comment on a column is blank and has characters. -/
def Schema.Outspoken (s : Schema) : Prop := ∀ k t, s.tables.get? k = some t →
  ∀ c ∈ t.columns, filled (c.comment.bind nonBlank) = filled c.comment

namespace Ddl

variable {options : RenderOptions} {enums : OrderedMap EnumType} {s : Schema} {key : String}

theorem sortedTables_unblanked (s : Schema) :
    sortedTables s.unblanked = (sortedTables s).map fun e => (e.1, e.2.unblanked) := by
  rw [sortedTables, sortedTables, Schema.unblanked]
  exact (List.map_mergeSort (s := fun (a b : String × Table) => textLE a.1 b.1)
    fun _ _ _ _ => rfl).symm

theorem createTable_unblanked (options : RenderOptions) (enums : OrderedMap EnumType) (key : String)
    (t : Table) : createTable options enums key t.unblanked = createTable options enums key t := by
  have hlines : (t.unblanked.columns.map fun c => "  " ++ columnLine options enums c) =
      t.columns.map fun c => "  " ++ columnLine options enums c := List.map_map ..
  unfold createTable
  rw [hlines]
  rfl

theorem allConstraints_unblanked (t : Table) : t.unblanked.allConstraints = t.allConstraints := by
  have hkeys : t.unblanked.primaryKeyColumns = t.primaryKeyColumns := by
    rw [Table.primaryKeyColumns, Table.unblanked, List.filter_map, List.map_map]
    rfl
  have himplied : t.unblanked.impliedConstraints = t.impliedConstraints := by
    rw [Table.impliedConstraints, Table.impliedKey, hkeys, Table.unblanked, List.flatMap_map]
    rfl
  rw [Table.allConstraints, himplied]
  rfl

theorem constraintStatements_unblanked (key : String) (t : Table) :
    constraintStatements key t.unblanked = constraintStatements key t := by
  rw [constraintStatements, allConstraints_unblanked]
  rfl

theorem commentStatements_unblanked (key : String)
    (h : ∀ c ∈ t.columns, filled (c.comment.bind nonBlank) = filled c.comment) :
    commentStatements key t.unblanked = commentStatements key t := by
  rw [commentStatements, commentStatements]
  refine congrArg₂ _ rfl ?_
  rw [Table.unblanked, List.flatMap_map]
  refine List.flatMap_congr fun c hc => ?_
  rw [Column.unblanked, h c hc]
  rfl

/-- The document of a schema does not say whether columns had blank comments. -/
theorem document_unblanked (hs : s.Outspoken) :
    document options enums s.unblanked = document options enums s := by
  have hcomments : ((sortedTables s.unblanked).flatMap fun e => commentStatements e.1 e.2) =
      (sortedTables s).flatMap fun e => commentStatements e.1 e.2 := by
    rw [sortedTables_unblanked, List.flatMap_map]
    refine List.flatMap_congr fun e he => ?_
    have hmem := (List.mergeSort_perm ..).mem_iff.1 he
    exact commentStatements_unblanked e.1 (hs e.1 e.2 (OrderedMap.get?_eq_some_iff.2 hmem))
  have hsections : sections options enums s.unblanked = sections options enums s := by
    rw [sections, sections, hcomments, sortedTables_unblanked, List.map_map, List.flatMap_map,
      List.flatMap_map]
    simp only [Function.comp_def, createTable_unblanked, constraintStatements_unblanked]
    rfl
  rw [document, document, hsections]

theorem tableDocument_unblanked
    (h : ∀ c ∈ t.columns, filled (c.comment.bind nonBlank) = filled c.comment) :
    tableDocument options enums key t.unblanked = tableDocument options enums key t := by
  have hused : (t.unblanked.columns.filterMap fun c => filled c.enumName) =
      t.columns.filterMap fun c => filled c.enumName := List.filterMap_map ..
  rw [tableDocument, tableDocument, hused, createTable_unblanked, constraintStatements_unblanked,
    commentStatements_unblanked key h]
  rfl

theorem knownEnums_unblanked (s : Schema) : knownEnums s.unblanked = knownEnums s := by
  have hcolumns : (s.unblanked.tables.values.flatMap (·.columns)) =
      (s.tables.values.flatMap (·.columns)).map Column.unblanked := by
    have hvalues : s.unblanked.tables.values = s.tables.values.map Table.unblanked := by
      rw [OrderedMap.values, OrderedMap.values, List.map_map]
      exact List.map_map
    rw [List.map_flatMap, hvalues, List.flatMap_map]
    rfl
  rw [knownEnums, knownEnums, hcolumns, List.foldlM_map]
  rfl

/-- **Blank comments are not written.** -/
theorem result_generate_unblanked (hs : s.Outspoken) (only : Option String) :
    (generate options s.unblanked only).result = (generate options s only).result := by
  rw [result_generate, result_generate, knownEnums_unblanked]
  cases only with
  | none => simp only [document_unblanked hs, Option.elim_none]
  | some key =>
    have hget : s.unblanked.tables.get? key = (s.tables.get? key).map Table.unblanked :=
      OrderedMap.get?_map ..
    simp only [Option.elim_some, hget]
    cases ht : s.tables.get? key with
    | none => rfl
    | some t => simp only [Option.map_some, Option.elim_some, tableDocument_unblanked (hs key t ht)]

end Ddl

/-! ## Inspecting and generating -/

namespace Command

variable {outside : Surroundings} {s : Schema}

/-- What is written of a schema is what is written of it without blank comments. -/
theorem result_statements_unblanked (hs : s.Outspoken) (table : Option String) :
    (statements outside s.unblanked table).result = (statements outside s table).result := by
  have hprepare : prepare outside s.unblanked table = prepare outside s table := by
    rw [prepare, prepare, Ddl.knownEnums_unblanked]
  rw [statements, statements, hprepare]
  simp only [Action.result_bind, Action.result_adapt, Ddl.result_generate_unblanked hs]

theorem result_documentOf {file text : String} (hfile : outside.fileText file = some text)
    (hread : (Schema.ofDocument text).result = .ok s) : (documentOf outside file).result = .ok s := by
  rw [documentOf, textOf, hfile]
  simp only [Action.result_bind, Action.result_ofExcept, Except.bind, Action.result_adapt, hread]
  rfl

section

variable {sqlFile jsonFile text json : String}

/-- From an inspected document, what is generated is written of its schema without blank comments. -/
theorem result_generate_inspected (hfile : outside.fileText sqlFile = some text)
    (hread : (Schema.ofDocument text).result = .ok s) (htitled : s.Titled)
    (hinspect : (perform outside (.inspect sqlFile false)).result = .ok json)
    (hjson : outside.fileText jsonFile = some json)
    (hyaml : Yaml.read json = .ok (Yaml.Value.ofJson s.toJson)) (table : Option String) :
    (perform outside (.generate jsonFile table)).result =
      (statements outside s.unblanked table).result.map (· ++ "\n") := by
  have hwritten : json = s.toJson.write .indented ++ "\n" := by
    simp only [perform, Action.result_bind, result_documentOf hfile hread, Except.bind] at hinspect
    cases hinspect
    rfl
  have hnames : Text.Half.mayName json.toList = false := by
    rw [hwritten, Json.mayName_write]
  have hschema : (SchemaFile.read jsonFile json).result = .ok s.unblanked := by
    rw [SchemaFile.read, hyaml]
    exact SchemaFile.result_schema_toJson (cleanTables_unblanked hread htitled)
      (fun k e he => ((parsedSchema_ofDocument hread).enums k e he).2) jsonFile
  simp only [perform, textOf, hjson, hnames, Action.result_bind, Action.result_ofExcept,
    Action.result_adapt, Except.bind, hschema, Except.mapError, Bool.false_eq_true, if_false]
  rfl

theorem result_format (hfile : outside.fileText sqlFile = some text)
    (hread : (Schema.ofDocument text).result = .ok s) (table : Option String) :
    (perform outside (.format sqlFile table)).result =
      (statements outside s table).result.map (· ++ "\n") := by
  simp only [perform, Action.result_bind, result_documentOf hfile hread, Except.bind]
  rfl

/-- **Inspecting, then generating, is formatting.** If what is inspected has columns in every table
    and no blank titles, and no comment on a column is blank and has characters, generating from the
    JSON writes what formatting the document writes, for the whole schema and for every table. -/
theorem perform_generate_inspect (hfile : outside.fileText sqlFile = some text)
    (hread : (Schema.ofDocument text).result = .ok s) (htitled : s.Titled) (houtspoken : s.Outspoken)
    (hinspect : (perform outside (.inspect sqlFile false)).result = .ok json)
    (hjson : outside.fileText jsonFile = some json)
    (hyaml : Yaml.read json = .ok (Yaml.Value.ofJson s.toJson)) (table : Option String) :
    (perform outside (.generate jsonFile table)).result =
      (perform outside (.format sqlFile table)).result := by
  rw [result_generate_inspected hfile hread htitled hinspect hjson hyaml table,
    result_statements_unblanked houtspoken, result_format hfile hread]

end

/-! ### A remark on a column -/

/-- A document with a remark on a column. -/
def remarkDocument (remark : String) : String :=
  "CREATE TABLE t (a int); COMMENT ON COLUMN t.a IS '" ++ remark ++ "';"

/-- The table that it describes. -/
def remarkTable (remark : String) : Table where
  title := "t"
  columns := [{ title := "a", format := "int4", category := "number", comment := some remark }]

def remarkSchema (remark : String) : Schema := { tables := .ofList [("t", remarkTable remark)] }

def remarkJson (remark : String) : String := (remarkSchema remark).toJson.write .indented ++ "\n"

/-- The document and its JSON in files. -/
def remarkFiles (remark : String) : Surroundings where
  settings := .ok {}
  fileText file := if file = "t.sql" then some (remarkDocument remark) else some (remarkJson remark)

section

variable {remark k : String} {t : Table}

theorem eq_remarkTable (h : (remarkSchema remark).tables.get? k = some t) : t = remarkTable remark :=
  congrArg Prod.snd (List.mem_singleton.1 (OrderedMap.get?_eq_some_iff.1 h))

theorem titled_remarkSchema (remark : String) : (remarkSchema remark).Titled := by
  constructor
  case columns =>
    intro k t ht
    rw [eq_remarkTable ht]
    exact List.cons_ne_nil _ _
  case tables =>
    intro k t ht
    rw [eq_remarkTable ht]
    exact (by decide : Text.isBlankText "t" = false)
  case titles =>
    intro k t ht c hc
    rw [eq_remarkTable ht] at hc
    rw [List.mem_singleton.1 hc]
    exact (by decide : Text.isBlankText "a" = false)

theorem ofDocument_remark (h : remark ∈ ["", " "]) :
    (Schema.ofDocument (remarkDocument remark)).result = .ok (remarkSchema remark) := by
  refine toOption_eq_some.1 ?_
  revert remark
  decide +kernel

theorem result_inspect_remark (h : remark ∈ ["", " "]) :
    (perform (remarkFiles remark) (.inspect "t.sql" false)).result = .ok (remarkJson remark) := by
  have hfile : (remarkFiles remark).fileText "t.sql" = some (remarkDocument remark) := rfl
  simp only [perform, Action.result_bind, result_documentOf hfile (ofDocument_remark h), Except.bind]
  rfl

theorem toList_remarkJson (remark : String) :
    (remarkJson remark).toList = Json.chars .indented 0 (remarkSchema remark).toJson ++ ['\n'] := by
  rw [remarkJson, String.toList_append, Json.write, String.toList_ofList]
  rfl

theorem read_remarkJson (h : remark ∈ ["", " "]) :
    Yaml.read (remarkJson remark) = .ok (Yaml.Value.ofJson (remarkSchema remark).toJson) := by
  refine Yaml.Value.read_eq_ofJson ?_
  rw [Yaml.read, Yaml.Piece.ofText, toList_remarkJson]
  revert remark
  decide +kernel

end

theorem perform_generate_inspect_empty :
    (Schema.ofDocument (remarkDocument "")).result = .ok (remarkSchema "") ∧
      (remarkSchema "").Titled ∧ (remarkSchema "").Outspoken ∧
      (perform (remarkFiles "") (.inspect "t.sql" false)).result = .ok (remarkJson "") ∧
      Yaml.read (remarkJson "") = .ok (Yaml.Value.ofJson (remarkSchema "").toJson) ∧
      ∀ table, (perform (remarkFiles "") (.generate "t.json" table)).result =
        (perform (remarkFiles "") (.format "t.sql" table)).result := by
  have hempty : "" ∈ ["", " "] := by decide
  have houtspoken : (remarkSchema "").Outspoken := by
    intro k t ht c hc
    rw [eq_remarkTable ht] at hc
    rw [List.mem_singleton.1 hc]
    decide
  have hread := ofDocument_remark hempty
  have hinspect := result_inspect_remark hempty
  have hyaml := read_remarkJson hempty
  exact ⟨hread, titled_remarkSchema "", houtspoken, hinspect, hyaml,
    perform_generate_inspect rfl hread (titled_remarkSchema "") houtspoken hinspect rfl hyaml⟩

/-- A comment that is blank, but has a character, is written of the document and not of its JSON. -/
theorem perform_generate_blank :
    (Schema.ofDocument (remarkDocument " ")).result = .ok (remarkSchema " ") ∧
      (remarkSchema " ").Titled ∧
      (perform (remarkFiles " ") (.inspect "t.sql" false)).result = .ok (remarkJson " ") ∧
      Yaml.read (remarkJson " ") = .ok (Yaml.Value.ofJson (remarkSchema " ").toJson) ∧
      (perform (remarkFiles " ") (.format "t.sql" none)).result =
        .ok ("-- Tables\nCREATE TABLE \"t\" (\n  \"a\" INT4\n);\n\n" ++
          "-- Comments\nCOMMENT ON COLUMN \"t\".\"a\" IS ' ';\n") ∧
      (perform (remarkFiles " ") (.generate "t.json" none)).result =
        .ok "-- Tables\nCREATE TABLE \"t\" (\n  \"a\" INT4\n);\n" := by
  have hblank : " " ∈ ["", " "] := by decide
  have hread := ofDocument_remark hblank
  have hinspect := result_inspect_remark hblank
  have hyaml := read_remarkJson hblank
  refine ⟨hread, titled_remarkSchema " ", hinspect, hyaml, ?_, ?_⟩
  · rw [result_format rfl hread]
    exact toOption_eq_some.1 (by decide +kernel)
  · rw [result_generate_inspected rfl hread (titled_remarkSchema " ") hinspect rfl hyaml]
    exact toOption_eq_some.1 (by decide +kernel)

end Command

end Schemata
