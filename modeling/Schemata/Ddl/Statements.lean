/-
  The statements that define a schema, each as a text.  Names are quoted, texts of the schema are
  written as they stand.
-/
import Schemata.Ddl.Constraints
import Schemata.Schema.Outline
import Schemata.Settings
import Schemata.TypeText

namespace Schemata.Ddl

/-! ## Parts -/

/-- A name with its schema, if there is one. -/
def qualified (schema : Option String) (name : String) : String :=
  match filled schema with
  | some s => Quote.identifier s ++ "." ++ Quote.identifier name
  | none => Quote.identifier name

/-- A list of columns. -/
def identifiers (columns : List String) : String := ", ".intercalate (columns.map Quote.identifier)

/-- The schema and the name of a table; what it does not say itself is taken from its key. -/
def identity (key : String) (t : Table) : Option String × String :=
  let (schema, name) := Name.qualified key
  ((filled t.schema).or schema, if t.title.isEmpty then name else t.title)

/-- The qualified name of a table. -/
def tableName (key : String) (t : Table) : String :=
  let (schema, name) := identity key t
  qualified schema name

/-- The type of a column: the name of its enum type, or the text of its type. -/
def columnType (options : RenderOptions) (enums : OrderedMap EnumType) (c : Column) : String :=
  match filled c.enumName with
  | some key =>
    match enums.get? key with
    | some e => qualified e.schema e.name
    | none =>
      let (schema, name) := Name.qualified key
      qualified schema name
  | none =>
    if c.format == "enum" || c.format.isEmpty then TypeText.render options.fallbackType
    else TypeText.render c.format

/-! ## Statements -/

/-- The definition of an enum type. -/
def createEnum (e : EnumType) : String :=
  "CREATE TYPE " ++ qualified e.schema e.name ++ " AS ENUM (" ++
    ", ".intercalate (e.values.map Quote.literal) ++ ");"

/-- One line of the body of a table. -/
def columnLine (options : RenderOptions) (enums : OrderedMap EnumType) (c : Column) : String :=
  " ".intercalate <|
    [Quote.identifier c.title, columnType options enums c] ++
    (if c.required then ["NOT NULL"] else []) ++
    (match c.defaultText with
      | some text => ["DEFAULT " ++ text]
      | none => [])

/-- The definition of a table. -/
def createTable (options : RenderOptions) (enums : OrderedMap EnumType) (key : String)
    (t : Table) : String :=
  "CREATE TABLE " ++ tableName key t ++ " (\n" ++
    ",\n".intercalate (t.columns.map fun c => "  " ++ columnLine options enums c) ++ "\n);"

/-- The referential actions of a foreign key. -/
def actions (r : Reference) : String :=
  (match filled r.onDelete with
    | some a => " ON DELETE " ++ Text.upper a
    | none => "") ++
  (match filled r.onUpdate with
    | some a => " ON UPDATE " ++ Text.upper a
    | none => "")

/-- What a constraint says. -/
def constraintBody (c : Constraint) : String :=
  match c.kind, c.reference with
  | .primaryKey, _ => "PRIMARY KEY (" ++ identifiers c.columns ++ ")"
  | .unique, _ => "UNIQUE (" ++ identifiers c.columns ++ ")"
  | .check, _ => "CHECK (" ++ c.expression.getD "" ++ ")"
  | .foreignKey, none => "FOREIGN KEY (" ++ identifiers c.columns ++ ")"
  | .foreignKey, some r =>
    "FOREIGN KEY (" ++ identifiers c.columns ++ ") REFERENCES " ++ qualified r.schema r.table ++
      " (" ++ identifiers r.columns ++ ")" ++ actions r

/-- The addition of a constraint to a table. -/
def addConstraint (key : String) (t : Table) (c : Constraint) : String :=
  "ALTER TABLE " ++ tableName key t ++ " ADD " ++
    (match filled c.name with
      | some name => "CONSTRAINT " ++ Quote.identifier name ++ " "
      | none => "") ++
    constraintBody c ++ ";"

/-- The definition of an index. -/
def createIndex (key : String) (t : Table) (i : Index) : String :=
  "CREATE " ++ (if i.unique then "UNIQUE " else "") ++ "INDEX " ++ Quote.identifier i.name ++
    " ON " ++ tableName key t ++
    (match filled i.method with
      | some m => " USING " ++ Text.upper m
      | none => "") ++
    " (" ++ ", ".intercalate i.columns ++ ")" ++
    (match filled i.condition with
      | some w => " WHERE " ++ w
      | none => "") ++ ";"

/-- The comment on a table. -/
def commentOnTable (key : String) (t : Table) (text : String) : String :=
  "COMMENT ON TABLE " ++ tableName key t ++ " IS " ++ Quote.literal text ++ ";"

/-- The comment on a column. -/
def commentOnColumn (key : String) (t : Table) (column text : String) : String :=
  "COMMENT ON COLUMN " ++ tableName key t ++ "." ++ Quote.identifier column ++ " IS " ++
    Quote.literal text ++ ";"

/-! ## The statements of a table -/

/-- The constraints of a table. -/
def constraintStatements (key : String) (t : Table) : List String :=
  t.allConstraints.map (addConstraint key t)

/-- The indexes of a table, by name; one without columns is left out. -/
def indexStatements (key : String) (t : Table) : List String :=
  ((t.indexes.mergeSort Index.le).filter fun i => !i.columns.isEmpty).map (createIndex key t)

/-- The comments of a table, its own one first. -/
def commentStatements (key : String) (t : Table) : List String :=
  ((filled t.comment).toList.map (commentOnTable key t)) ++
    t.columns.flatMap fun c => (filled c.comment).toList.map (commentOnColumn key t c.title)

end Schemata.Ddl
