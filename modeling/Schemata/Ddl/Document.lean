/-
  Generated documents: a whole schema in sections, or one table with the enum types that it uses.

  * `knownEnums` adds to the enum types of a schema those that are known from columns alone;
  * `document` and `tableDocument` are the texts; enum types are ordered by schema and name, tables
    by key, so the text does not depend on the order in which the schema was built;
  * `generate` is the text for a whole schema or for one table, with what is noted on the way.
-/
import Schemata.Ddl.Statements
import Schemata.Decode.Schema
import Schemata.Schema.Outline

namespace Schemata.Ddl

open Log

/-! ## Enum types -/

/-- The enum types with one that a column knows by name and values. -/
def addColumnEnum (enums : OrderedMap EnumType) (c : Column) :
    Except (List Decode.Fault) (OrderedMap EnumType) :=
  match filled c.enumName, c.enumValues with
  | some key, some (v :: vs) =>
    if enums.contains key then .ok enums
    else
      let (schema, name) := Name.qualified key
      (Decode.enumOf name schema (v :: vs)).toExcept.map fun e => enums.insert key e
  | _, _ => .ok enums

/-- The enum types of a schema, and those that are known from columns alone. -/
def knownEnums (s : Schema) : Except (List Decode.Fault) (OrderedMap EnumType) :=
  (s.tables.values.flatMap (·.columns)).foldlM addColumnEnum s.enums

/-- The order of enum types: by schema, then by name. -/
def enumLE (a b : EnumType) : Bool :=
  textsLE [a.schema.getD "", a.name] [b.schema.getD "", b.name]

/-- Enum types in their order. -/
def sortedEnums (enums : OrderedMap EnumType) : List EnumType := enums.values.mergeSort enumLE

/-- The tables of a schema by key. -/
def sortedTables (s : Schema) : List (String × Table) :=
  s.tables.entries.mergeSort fun a b => textLE a.1 b.1

/-! ## Documents -/

/-- The sections of the document of a schema, each with its heading. -/
def sections (options : RenderOptions) (enums : OrderedMap EnumType) (s : Schema) :
    List (String × List String) :=
  let tables := sortedTables s
  [(options.enumSection, (sortedEnums enums).map createEnum),
    (options.tableSection, tables.map fun (k, t) => createTable options enums k t),
    (options.constraintSection, tables.flatMap fun (k, t) => constraintStatements k t),
    (options.indexSection, tables.flatMap fun (k, t) => indexStatements k t),
    (options.commentSection, tables.flatMap fun (k, t) => commentStatements k t)]

/-- The text of a section. -/
def sectionText (heading : String) (statements : List String) : String :=
  heading ++ "\n" ++ "\n\n".intercalate statements

/-- The document of a schema: its sections, without the empty ones. -/
def document (options : RenderOptions) (enums : OrderedMap EnumType) (s : Schema) : String :=
  let filledSections := (sections options enums s).filter fun e => !e.2.isEmpty
  Text.strip ("\n\n".intercalate (filledSections.map fun e => sectionText e.1 e.2))

/-- The document of one table: the enum types that it uses, its definition, and what belongs to
    it. -/
def tableDocument (options : RenderOptions) (enums : OrderedMap EnumType) (key : String)
    (t : Table) : String :=
  let used := t.columns.filterMap fun c => filled c.enumName
  let usedEnums := sortedEnums (enums.filter fun k _ => used.contains k)
  let blocks := [constraintStatements key t, indexStatements key t, commentStatements key t]
  "\n".intercalate <|
    (if usedEnums.isEmpty then []
      else options.usedEnumSection :: (usedEnums.map createEnum ++ [""])) ++
    [createTable options enums key t] ++
    blocks.flatMap fun statements => if statements.isEmpty then [] else "" :: statements

/-! ## Generating -/

/-- What is noted about the columns of a table. -/
def columnNotes (options : RenderOptions) (key : String) (t : Table) : Logged Unit := do
  for c in t.columns do
    if (filled c.enumName).isNone && c.format == "enum" then
      Logged.log .warning .generator
        ("Column " ++ key ++ "." ++ c.title ++
          " is enum-typed without a type name; rendering as " ++ options.fallbackType)

/-- What is noted about the tables of a whole schema, or about one of them. -/
def notes (options : RenderOptions) (s : Schema) (only : Option String) : Logged Unit := do
  let tables := match only with
    | some key => (s.tables.get? key).toList.map fun t => (key, t)
    | none => sortedTables s
  for (key, t) in tables do
    columnNotes options key t
  for (_, t) in tables do
    t.constraintNotes

/-- The text of a whole schema, or of one of its tables. -/
def generate (options : RenderOptions) (s : Schema) (only : Option String) :
    Action (List Decode.Fault) String := do
  let enums ← Action.ofExcept (knownEnums s)
  notes options s only
  match only with
  | some key =>
    match s.tables.get? key with
    | none => return options.missingTable
    | some t => return tableDocument options enums key t
  | none =>
    Logged.log .debug .generator
      ("Generated SQL for " ++ toString s.tables.size ++ " tables and " ++
        toString enums.size ++ " enum types")
    return document options enums s

end Schemata.Ddl
