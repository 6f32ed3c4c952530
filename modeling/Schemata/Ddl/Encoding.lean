/-
  The encoding of generated documents.  Names and texts of a schema are encoded one by one, in the
  order in which they are written; a text that holds half a character has no encoding.

  * `pieces` lists the names and texts of the document of a schema or of one of its tables;
  * `unencodable?` is the first one among them that cannot be encoded.
-/
import Schemata.Ddl.Document
import Schemata.Text.Half

namespace Schemata.Ddl

/-- A name with its schema, if there is one. -/
def qualifiedPieces (schema : Option String) (name : String) : List String :=
  (filled schema).toList.map Quote.unquote ++ [Quote.unquote name]

/-- The pieces of the name of a table. -/
def tablePieces (key : String) (t : Table) : List String :=
  let (schema, name) := identity key t
  qualifiedPieces schema name

/-- The pieces of an enum type. -/
def enumPieces (e : EnumType) : List String :=
  qualifiedPieces e.schema e.name ++ e.values.map Quote.literal

/-- The pieces of the type of a column. -/
def typePieces (options : RenderOptions) (enums : OrderedMap EnumType) (c : Column) : List String :=
  match filled c.enumName with
  | some key =>
    match enums.get? key with
    | some e => qualifiedPieces e.schema e.name
    | none =>
      let (schema, name) := Name.qualified key
      qualifiedPieces schema name
  | none => [columnType options enums c]

/-- The pieces of the definition of a table. -/
def definitionPieces (options : RenderOptions) (enums : OrderedMap EnumType) (key : String)
    (t : Table) : List String :=
  tablePieces key t ++
    t.columns.flatMap fun c =>
      Quote.unquote c.title :: (typePieces options enums c ++ c.defaultText.toList)

/-- The pieces of a constraint on a table. -/
def constraintPieces (key : String) (t : Table) (c : Constraint) : List String :=
  tablePieces key t ++ (filled c.name).toList.map Quote.unquote ++
    match c.kind, c.reference with
    | .check, _ => c.expression.toList
    | .foreignKey, some r =>
      c.columns.map Quote.unquote ++ qualifiedPieces r.schema r.table ++
        r.columns.map Quote.unquote ++ [actions r]
    | _, _ => c.columns.map Quote.unquote

/-- The pieces of an index of a table. -/
def indexPieces (key : String) (t : Table) (i : Index) : List String :=
  Quote.unquote i.name ::
    (tablePieces key t ++ (filled i.method).toList ++ i.columns ++ (filled i.condition).toList)

/-- The pieces of the comments on a table and on its columns. -/
def commentPieces (key : String) (t : Table) : List String :=
  ((filled t.comment).toList.flatMap fun text => tablePieces key t ++ [Quote.literal text]) ++
    t.columns.flatMap fun c => (filled c.comment).toList.flatMap fun text =>
      tablePieces key t ++ [Quote.unquote c.title, Quote.literal text]

/-- The names and texts of the document of a schema or of one of its tables, in order. -/
def pieces (options : RenderOptions) (enums : OrderedMap EnumType) (s : Schema)
    (only : Option String) : List String :=
  let tables := match only with
    | some key => (s.tables.get? key).toList.map fun t => (key, t)
    | none => sortedTables s
  let used := tables.flatMap fun (_, t) => t.columns.filterMap fun c => filled c.enumName
  let shown := enums.filter fun k _ => only.isNone || used.contains k
  (sortedEnums shown).flatMap enumPieces ++
    (tables.flatMap fun (k, t) => definitionPieces options enums k t) ++
    (tables.flatMap fun (k, t) => t.allConstraints.flatMap (constraintPieces k t)) ++
    (tables.flatMap fun (k, t) =>
      ((t.indexes.mergeSort Index.le).filter fun i => !i.columns.isEmpty).flatMap
        (indexPieces k t)) ++
    (tables.flatMap fun (k, t) => commentPieces k t)

/-- The first run of halves in the names and texts of a document. -/
def unencodable? (options : RenderOptions) (enums : OrderedMap EnumType) (s : Schema)
    (only : Option String) : Option Text.Half.Run :=
  (pieces options enums s only).findSome? fun text => Text.Half.run? text.toList

end Schemata.Ddl
