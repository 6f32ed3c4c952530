/-
  Edits of tables and their columns.  Each is a function from a schema to the edited one; what an
  edit does not address stays as it is.

  * A table is added under the key of its schema and title, and renaming moves it to the end;
  * the title of a column differs from the other titles of its table, whatever its case and quotes;
  * `updateColumn` lays new values over the fields of a column and decodes the result.
-/
import Schemata.Decode.Schema
import Schemata.Edit.Refusal
import Schemata.Schema.Outline

namespace Schemata

/-- Fails with a refusal. -/
def refuse {α : Type} (reason : Refusal) : Except EditError α := .error (.refused reason)

namespace Table

/-- The column at a position, which may be beyond the table. -/
def columnAt (t : Table) (index : Int) : Except EditError Column :=
  match if index < 0 then none else t.columns[index.toNat]? with
  | some c => .ok c
  | none => refuse (.noColumn index t.key t.columns.length)

/-- Fails unless a title is free for a column of the table, perhaps one that is there already. -/
def checkTitle (t : Table) (title : String) (own : Option Nat) : Except EditError Unit :=
  if Text.isBlankText title then refuse .blankColumn
  else
    match t.columnIndex? title with
    | none => .ok ()
    | some i => if own = some i then .ok () else refuse (.columnExists title t.key)

end Table

namespace Schema

/-- The table under a key. -/
def tableAt (s : Schema) (key : String) : Except EditError Table :=
  match s.tables.get? key with
  | some t => .ok t
  | none => refuse (.noTable key)

/-- The schema with the table under a key changed. -/
def changeTable (s : Schema) (key : String) (f : Table → Except EditError Table) :
    Except EditError Schema := do
  let t ← s.tableAt key
  let t ← f t
  return { s with tables := s.tables.insert key t }

/-! ## Tables -/

/-- The column that a table has if none are given. -/
def keyColumn : Column :=
  { title := "id", format := "int4", category := "number", primaryKey := true, required := true }

/-- Adds a table; the result has its key. -/
def addTable (s : Schema) (title : String) (schema : Option String) (columns : List Column)
    (position : Option Position) : Except EditError (Schema × String) :=
  let key := Name.key schema title
  if Text.isBlankText title then refuse .blankTable
  else if s.tables.contains key then refuse (.tableExists key)
  else
    let table : Table :=
      { title, schema, columns := if columns.isEmpty then [keyColumn] else columns,
        position := some (position.getD {}) }
    .ok ({ s with tables := s.tables.insert key table }, key)

/-- Renames a table within its schema; the result has its new key. -/
def renameTable (s : Schema) (key title : String) : Except EditError (Schema × String) := do
  let t ← s.tableAt key
  if Text.isBlankText title then refuse .blankTable
  let newKey := Name.key t.schema title
  if newKey != key && s.tables.contains newKey then refuse (.tableExists newKey)
  return ({ s with tables := (s.tables.erase key).insert newKey { t with title } }, newKey)

/-- Removes a table. -/
def deleteTable (s : Schema) (key : String) : Except EditError Schema := do
  let _ ← s.tableAt key
  return { s with tables := s.tables.erase key }

/-- A place from its raw coordinates. -/
def positionOf (x y : Json) : Except EditError Position :=
  (Decode.position (.obj [("x", x), ("y", y)])).orInvalid

/-- Moves a table. -/
def moveTable (s : Schema) (key : String) (x y : Json) : Except EditError Schema :=
  s.changeTable key fun t => do
    let p ← positionOf x y
    return { t with position := some p }

/-- Moves several tables. -/
def moveTables (s : Schema) (places : OrderedMap (Json × Json)) : Except EditError Schema :=
  places.entries.foldlM (fun s (key, x, y) => s.moveTable key x y) s

/-- Sets or takes away the colour of a table. -/
def setColor (s : Schema) (key : String) (color : Option String) : Except EditError Schema :=
  s.changeTable key fun t => .ok { t with color := filled color }

/-- Sets or takes away the comment on a table. -/
def setTableComment (s : Schema) (key : String) (comment : Option String) :
    Except EditError Schema :=
  s.changeTable key fun t => .ok { t with comment := filled comment }

/-! ## Columns -/

/-- Adds a column at the end of a table. -/
def addColumn (s : Schema) (key : String) (c : Column) : Except EditError Schema :=
  s.changeTable key fun t => do
    t.checkTitle c.title none
    return { t with columns := t.columns ++ [c] }

/-- The field of a column that a name stands for. -/
def columnField (name : String) : String :=
  match name with
  | "enumTypeName" => "enum_type_name"
  | "enumValues" => "enum_values"
  | _ => name

/-- A column with new values laid over its fields. -/
def updatedColumn (c : Column) (updates : List (String × Json)) : Except EditError Column :=
  (Decode.column (.obj (updates.foldl (fun m (k, v) => OrderedMap.put (columnField k) v m)
    c.members))).orInvalid

/-- Lays new values over the fields of a column. -/
def updateColumn (s : Schema) (key : String) (index : Int) (updates : List (String × Json)) :
    Except EditError Schema :=
  s.changeTable key fun t => do
    let c ← t.columnAt index
    let c ← updatedColumn c updates
    t.checkTitle c.title (some index.toNat)
    return { t with columns := t.columns.set index.toNat c }

/-- Removes a column. -/
def deleteColumn (s : Schema) (key : String) (index : Int) : Except EditError Schema :=
  s.changeTable key fun t => do
    let _ ← t.columnAt index
    return { t with columns := t.columns.eraseIdx index.toNat }

/-- Moves a column to another position; the others keep their order. -/
def reorderColumns (s : Schema) (key : String) (source target : Int) : Except EditError Schema :=
  s.changeTable key fun t => do
    let c ← t.columnAt source
    let _ ← t.columnAt target
    return { t with columns := (t.columns.eraseIdx source.toNat).insertIdx target.toNat c }

end Schema

end Schemata
