/-
  The JSON form of schemas: absent values are left out, everything else is written, each object with
  its members in a fixed order.
-/
import Schemata.Json.Value
import Schemata.Schema.Basic

namespace Schemata

open Json (optional strings)

/-- The JSON form of a column. -/
def Column.toJson (c : Column) : Json :=
  .obj <|
    [("title", .str c.title), ("format", .str c.format), ("type", .str c.category)] ++
    optional "default" .str c.defaultText ++
    [("required", .bool c.required), ("pk", .bool c.primaryKey), ("unique", .bool c.unique)] ++
    optional "fk" .str c.foreignKey ++
    optional "enumTypeName" .str c.enumName ++
    optional "enumValues" strings c.enumValues ++
    optional "comment" .str c.comment

/-- The JSON form of an enum type. -/
def EnumType.toJson (e : EnumType) : Json :=
  .obj <| [("name", .str e.name)] ++ optional "schema" .str e.schema ++
    [("values", strings e.values)]

/-- The JSON form of the target of a foreign key. -/
def Reference.toJson (r : Reference) : Json :=
  .obj <| optional "schema" .str r.schema ++
    [("table", .str r.table), ("columns", strings r.columns)] ++
    optional "onDelete" .str r.onDelete ++ optional "onUpdate" .str r.onUpdate

/-- The JSON form of a constraint. -/
def Constraint.toJson (c : Constraint) : Json :=
  .obj <| [("type", .str c.kind.name)] ++ optional "name" .str c.name ++
    [("columns", strings c.columns)] ++ optional "reference" Reference.toJson c.reference ++
    optional "expression" .str c.expression

/-- The JSON form of an index. -/
def Index.toJson (i : Index) : Json :=
  .obj <| [("name", .str i.name), ("columns", strings i.columns), ("unique", .bool i.unique)] ++
    optional "using" .str i.method ++ optional "where" .str i.condition

/-- The JSON form of a place. -/
def Position.toJson (p : Position) : Json := .obj [("x", .float p.x), ("y", .float p.y)]

/-- The JSON form of a table. -/
def Table.toJson (t : Table) : Json :=
  .obj <| [("title", .str t.title)] ++ optional "schema" .str t.schema ++
    [("columns", .arr (t.columns.map Column.toJson)),
      ("constraints", .arr (t.constraints.map Constraint.toJson)),
      ("indexes", .arr (t.indexes.map Index.toJson))] ++
    optional "position" Position.toJson t.position ++ optional "color" .str t.color ++
    optional "comment" .str t.comment ++ [("is_view", .bool t.isView)]

/-- The JSON form of a table map. -/
def tablesJson (tables : OrderedMap Table) : Json := .ofMap Table.toJson tables

/-- The JSON form of an enum map. -/
def enumsJson (enums : OrderedMap EnumType) : Json := .ofMap EnumType.toJson enums

/-- The JSON form of the cardinalities of edges. -/
def cardinalitiesJson (m : OrderedMap Cardinality) : Json := .ofMap (fun c => .str c.name) m

/-- The JSON form of a schema. -/
def Schema.toJson (s : Schema) : Json :=
  .obj [("tables", tablesJson s.tables), ("enumTypes", enumsJson s.enums)]

end Schemata
