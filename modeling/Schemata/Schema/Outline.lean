/-
  The outline of a schema: all that statements can express.  Where and in which colour a table is
  drawn does not count, nor does the order of its constraints and indexes.

  * `Table.outline` is a table in that form, and `Schema.sameOutline` compares two schemas by it,
    whatever the order of their entries;
  * `outlineJson` is the written form, in which absent values are kept.
-/
import Schemata.Json.Value
import Schemata.Schema.Basic

namespace Schemata

/-! ## Order -/

/-- The order of strings by code points. -/
def textLE (a b : String) : Bool := !(b < a)

/-- The lexicographic order of lists of strings. -/
def textsLE : List String → List String → Bool
  | [], _ => true
  | _ :: _, [] => false
  | a :: as, b :: bs => if a = b then textsLE as bs else textLE a b

/-- The order of constraints: by the name of the kind, the name, and the columns in lower case. -/
def Constraint.le (c d : Constraint) : Bool :=
  textsLE (c.kind.name :: c.name.getD "" :: c.columns.map Text.lower)
    (d.kind.name :: d.name.getD "" :: d.columns.map Text.lower)

/-- The order of indexes by name. -/
def Index.le (i j : Index) : Bool := textLE i.name j.name

/-! ## Outlines -/

/-- The table without its layout, its constraints and indexes in a fixed order. -/
def Table.outline (t : Table) : Table :=
  { t with
    position := none
    color := none
    constraints := t.constraints.mergeSort Constraint.le
    indexes := t.indexes.mergeSort Index.le }

/-- The schema without layout, the parts of its tables in a fixed order. -/
def Schema.outline (s : Schema) : Schema :=
  { s with tables := s.tables.map fun _ t => t.outline }

/-- Whether two schemas have the same outline. -/
def Schema.sameOutline (a b : Schema) : Bool :=
  a.outline.tables.sameBy (· == ·) b.outline.tables && a.enums.sameBy (· == ·) b.enums

/-! ## The written form -/

/-- An optional text, `null` if it is absent. -/
def textOrNull : Option String → Json := .ofOption .str

/-- All fields of a column by name. -/
def Column.members (c : Column) : List (String × Json) :=
  [("title", .str c.title), ("format", .str c.format), ("type", .str c.category),
    ("default", textOrNull c.defaultText), ("required", .bool c.required),
    ("pk", .bool c.primaryKey), ("unique", .bool c.unique), ("fk", textOrNull c.foreignKey),
    ("enum_type_name", textOrNull c.enumName),
    ("enum_values", .ofOption .strings c.enumValues), ("comment", textOrNull c.comment)]

/-- The written outline of a column. -/
def Column.outlineJson (c : Column) : Json := .obj c.members

/-- The written outline of an enum type. -/
def EnumType.outlineJson (e : EnumType) : Json :=
  .obj [("name", .str e.name), ("schema_name", textOrNull e.schema),
    ("values", .strings e.values)]

/-- The written outline of the target of a foreign key. -/
def Reference.outlineJson (r : Reference) : Json :=
  .obj [("schema_name", textOrNull r.schema), ("table", .str r.table),
    ("columns", .strings r.columns), ("on_delete", textOrNull r.onDelete),
    ("on_update", textOrNull r.onUpdate)]

/-- The written outline of a constraint. -/
def Constraint.outlineJson (c : Constraint) : Json :=
  .obj [("type", .str c.kind.name), ("name", textOrNull c.name), ("columns", .strings c.columns),
    ("reference", .ofOption Reference.outlineJson c.reference),
    ("expression", textOrNull c.expression)]

/-- The written outline of an index. -/
def Index.outlineJson (i : Index) : Json :=
  .obj [("name", .str i.name), ("columns", .strings i.columns), ("unique", .bool i.unique),
    ("using", textOrNull i.method), ("where", textOrNull i.condition)]

/-- The written outline of a table. -/
def Table.outlineJson (t : Table) : Json :=
  let t := t.outline
  .obj [("title", .str t.title), ("schema_name", textOrNull t.schema),
    ("columns", .arr (t.columns.map Column.outlineJson)),
    ("constraints", .arr (t.constraints.map Constraint.outlineJson)),
    ("indexes", .arr (t.indexes.map Index.outlineJson)),
    ("comment", textOrNull t.comment), ("is_view", .bool t.isView)]

end Schemata
