/-
  Building a schema from the statements of a document.  The statements are applied by kind, enum
  types before tables, then constraints, indexes and comments, so that it does not matter whether a
  name is used before or after its definition.

  * A later definition of the same key replaces an earlier one; what is said about unknown tables or
    columns is passed over with a warning;
  * `Schema.addConstraint` sets the flags that a constraint implies and keeps the constraint itself
    unless the flags carry all of it;
  * `Schema.ofStatements` builds, `Schema.ofDocument` reads and builds.
-/
import Schemata.Decode.Schema
import Schemata.Statement.Reader
import Schemata.TypeText

namespace Schemata

open Log

/-- A text that is not blank. -/
def nonBlank (s : String) : Option String := if Text.isBlankText s then none else some s

namespace Schema

/-! ## Enum types and tables -/

/-- The words for what makes an enum type invalid. -/
def enumReason : Decode.Cause → String
  | .tooShort => "String should have at least 1 character"
  | cause => cause.message?.getD cause.code

/-- The schema with an enum type that a statement defines. -/
def defineEnum (s : Schema) (schema : Option String) (name : String) (values : List String) :
    Action ParseError Schema := do
  match Decode.enumOf name schema values with
  | .bad faults =>
    let reason := (faults.head?.map fun f => enumReason f.cause).getD ""
    throw { fault := .invalidEnum name reason }
  | .ok e =>
    if s.enums.contains e.key then
      Logged.log .debug .parser ("Enum " ++ e.key ++ " redefined; keeping the later definition")
    return { s with enums := s.enums.insert e.key e }

/-- The only enum type that goes by a bare name, whatever its case and quotes. -/
def soleEnumNamed? (enums : OrderedMap EnumType) (name : String) : Option EnumType :=
  match enums.values.filter fun e => Quote.fold e.name == Quote.fold name with
  | [e] => some e
  | _ => none

/-- The enum type that a plain type name denotes: the one of that key; for a bare name also the one
    in the schema of the table, or the only one of that name. -/
def resolveEnum? (enums : OrderedMap EnumType) (typeName : Option String × String)
    (tableSchema : Option String) : Option EnumType :=
  let (schema, name) := typeName
  match enums.get? (Name.key schema name), schema with
  | some e, _ => some e
  | none, some _ => none
  | none, none =>
    match (filled tableSchema).bind fun s => enums.get? (Name.key (some s) name) with
    | some e => some e
    | none => soleEnumNamed? enums name

/-- A column of a table from its definition. -/
def buildColumn (enums : OrderedMap EnumType) (tableSchema : Option String)
    (d : ColumnDefinition) : Column :=
  let format := TypeText.normalize d.typeText
  let base : Column :=
    { title := d.name, format, category := (TypeText.category format).name,
      defaultText := d.defaultText.bind nonBlank, required := d.notNull || d.primaryKey,
      primaryKey := d.primaryKey, unique := d.unique, foreignKey := d.foreignKey.bind nonBlank }
  match d.typeName.bind fun n => resolveEnum? enums n tableSchema with
  | some e =>
    { base with format := "enum", category := Category.string.name, enumName := nonBlank e.key }
  | none => base

/-- The schema with a table that a statement defines. -/
def defineTable (s : Schema) (schema : Option String) (name : String)
    (columns : List ColumnDefinition) : Logged Schema := do
  let key := Name.key schema name
  if s.tables.contains key then
    Logged.log .debug .parser ("Table " ++ key ++ " redefined; keeping the later definition")
  let table : Table :=
    { title := name, schema, columns := columns.map (buildColumn s.enums schema) }
  return { s with tables := s.tables.insert key table }

end Schema

/-! ## Constraints -/

namespace Table

/-- A list with the first item that satisfies a test changed. -/
def updateFirst {α : Type} (p : α → Bool) (f : α → α) : List α → List α
  | [] => []
  | a :: l => if p a then f a :: l else a :: updateFirst p f l

/-- The table with the first column of a name changed. -/
def updateColumn (t : Table) (name : String) (f : Column → Column) : Table :=
  { t with columns := updateFirst (hasName (Quote.fold name)) f t.columns }

/-- The table with the flags that a constraint implies. -/
def setFlags (t : Table) (c : Constraint) : Table :=
  match c.kind, c.columns with
  | .primaryKey, columns =>
    columns.foldl
      (fun t n => t.updateColumn n fun col => { col with primaryKey := true, required := true }) t
  | .unique, [n] => t.updateColumn n fun col => { col with unique := true }
  | .foreignKey, [n] =>
    match filled (c.reference.bind Reference.columnText?) with
    | some text => t.updateColumn n fun col => { col with foreignKey := some text }
    | none => t
  | _, _ => t

/-- Whether a constraint goes by a name, whatever its case and quotes. -/
def constraintNamed (name : String) (c : Constraint) : Bool :=
  (filled c.name).any fun n => Quote.fold n == Quote.fold name

/-- The table with a constraint kept: a named one replaces those of its name, an unnamed one is kept
    once and only if it says more than column flags. -/
def keepConstraint (t : Table) (c : Constraint) : Table :=
  match filled c.name with
  | some name =>
    { t with constraints := t.constraints.filter (fun d => !constraintNamed name d) ++ [c] }
  | none =>
    if !c.isFolded && !t.constraints.contains c then
      { t with constraints := t.constraints ++ [c] }
    else t

/-- The table with an index; it replaces one of the same name. -/
def addIndex (t : Table) (i : Index) : Table :=
  { t with indexes := t.indexes.filter (fun j => j.name != i.name) ++ [i] }

end Table

namespace Schema

/-- The schema with one of its tables replaced. -/
def setTable (s : Schema) (key : String) (t : Table) : Schema :=
  { s with tables := s.tables.insert key t }

/-- The schema with a constraint on a table. -/
def addConstraint (s : Schema) (key : String) (c : Constraint) : Logged Schema :=
  match s.tables.get? key with
  | none => do
    Logged.log .warning .parser
      ("Skipping " ++ c.kind.name ++ " constraint on unknown table " ++ key)
    return s
  | some t =>
    let unknown := c.columns.filter fun n => (t.findColumn? n).isNone
    if unknown.isEmpty then pure (s.setTable key ((t.setFlags c).keepConstraint c))
    else do
      Logged.log .warning .parser
        ("Skipping " ++ c.kind.name ++ " constraint on " ++ key ++ ": unknown columns " ++
          Text.displayList unknown)
      return s

/-! ## Indexes and comments -/

/-- The schema with an index on a table. -/
def addIndex (s : Schema) (key : String) (i : Index) : Logged Schema :=
  match s.tables.get? key with
  | none => do
    Logged.log .warning .parser ("Skipping index " ++ i.name ++ " on unknown table " ++ key)
    return s
  | some t => pure (s.setTable key (t.addIndex i))

/-- The schema with a comment on a table or on one of its columns. -/
def setComment (s : Schema) (key : String) (column text : Option String) : Logged Schema :=
  match s.tables.get? key with
  | none => do
    Logged.log .warning .parser ("Skipping comment on unknown table " ++ key)
    return s
  | some t =>
    match column with
    | none => pure (s.setTable key { t with comment := text })
    | some name =>
      match t.findColumn? name with
      | none => do
        Logged.log .warning .parser
          ("Skipping comment on unknown column " ++ key ++ "." ++ name)
        return s
      | some _ => pure (s.setTable key (t.updateColumn name fun c => { c with comment := text }))

/-! ## The phases -/

/-- The first phase: enum types. -/
def enumPhase (s : Schema) : Statement → Action ParseError Schema
  | .createEnum schema name values => s.defineEnum schema name values
  | _ => pure s

/-- The second phase: tables. -/
def tablePhase (s : Schema) : Statement → Logged Schema
  | .createTable schema name columns _ => s.defineTable schema name columns
  | _ => pure s

/-- The third phase: constraints, from table bodies and from changes. -/
def constraintPhase (s : Schema) : Statement → Logged Schema
  | .createTable schema name _ constraints =>
    constraints.foldlM (fun s c => s.addConstraint (Name.key schema name) c) s
  | .addConstraint schema table c => s.addConstraint (Name.key schema table) c
  | _ => pure s

/-- The fourth phase: indexes. -/
def indexPhase (s : Schema) : Statement → Logged Schema
  | .createIndex schema table i => s.addIndex (Name.key schema table) i
  | _ => pure s

/-- The last phase: comments. -/
def commentPhase (s : Schema) : Statement → Logged Schema
  | .comment schema table column text => s.setComment (Name.key schema table) column text
  | _ => pure s

/-- The phases after the first. -/
def laterPhases (statements : List Statement) (s : Schema) : Logged Schema := do
  let s ← statements.foldlM tablePhase s
  let s ← statements.foldlM constraintPhase s
  let s ← statements.foldlM indexPhase s
  statements.foldlM commentPhase s

/-- The schema that statements describe. -/
def ofStatements (statements : List Statement) : Action ParseError Schema := do
  let s ← statements.foldlM enumPhase {}
  ExceptT.lift (laterPhases statements s)

/-- The schema that a document describes. -/
def ofDocument (text : String) : Action ParseError Schema :=
  Action.within [("operation", .str "parse_sql")] do
    let statements ← Statement.readAll text
    let s ← ofStatements statements
    Logged.log .debug .parser
      ("Parsed " ++ toString s.tables.size ++ " tables and " ++ toString s.enums.size ++
        " enum types")
    return s

/-- The schema that a document describes; an error is noted, and the schema is then empty. -/
def ofDocument? (text : String) : Logged (Except ParseError Schema) := do
  let r ← (ofDocument text).run
  match r with
  | .ok s => return .ok s
  | .error e =>
    Logged.log .warning .parser ("SQL parse failed: " ++ e.message)
    return .error e

end Schema

end Schemata
