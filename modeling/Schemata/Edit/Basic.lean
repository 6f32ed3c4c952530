/-
  Edits as values.  `Edit.apply` is the effect of an edit on a schema, with what the edit answers:
  the key of what it made or renamed, or how much cleaning dropped.
-/
import Schemata.Cleaning
import Schemata.Edit.Enums
import Schemata.Edit.Label

namespace Schemata

open Log

/-- An edit of a schema. -/
inductive Edit where
  | addTable (title : String) (schema : Option String) (columns : List Column)
      (position : Option Position)
  | renameTable (key title : String)
  | deleteTable (key : String)
  | moveTable (key : String) (x y : Json)
  | moveTables (places : OrderedMap (Json × Json))
  | setColor (key : String) (color : Option String)
  | setComment (key : String) (comment : Option String)
  | addColumn (key : String) (column : Column)
  | updateColumn (key : String) (index : Int) (updates : List (String × Json))
  | deleteColumn (key : String) (index : Int)
  | reorderColumns (key : String) (source target : Int)
  /-- Raw tables and enum types laid over those of the schema. -/
  | addTables (tables enums : OrderedMap Json)
  /-- Raw tables in the place of those of the schema, and enum types too if they are given. -/
  | replaceTables (tables : OrderedMap Json) (enums : Option (OrderedMap Json))
  | clear
  | createEnum (name : String) (values : List String) (schema : Option String)
  | updateEnum (key : String) (values : List String)
  | renameEnum (key name : String)
  | deleteEnum (key : String)

/-- What an edit answers. -/
inductive EditResult where
  | done
  | key (key : String)
  | removed (tables columns : Nat)
deriving DecidableEq, Repr

namespace Schema

/-- Lays raw tables and enum types over those of a schema. -/
def addTables (s : Schema) (tables enums : OrderedMap Json) : Logged (Schema × EditResult) := do
  let cleaned ← Cleaning.merge s.tables tables
  let enums ← Cleaning.mergeEnums s.enums enums
  return ({ tables := cleaned.tables, enums },
    .removed cleaned.removedTables cleaned.removedColumns)

/-- Puts raw tables, and perhaps enum types, in the place of those of a schema. -/
def replaceTables (s : Schema) (tables : OrderedMap Json) (enums : Option (OrderedMap Json)) :
    Logged (Schema × EditResult) := do
  let cleaned ← Cleaning.replace s.tables tables
  let enums ← match enums with
    | none => pure s.enums
    | some raw => Cleaning.mergeEnums {} raw
  return ({ tables := cleaned.tables, enums },
    .removed cleaned.removedTables cleaned.removedColumns)

end Schema

namespace Edit

/-- An edited schema without more to say. -/
def plain (r : Except EditError Schema) : Action EditError (Schema × EditResult) :=
  Action.ofExcept (r.map fun s => (s, .done))

/-- An edited schema with a key. -/
def keyed (r : Except EditError (Schema × String)) : Action EditError (Schema × EditResult) :=
  Action.ofExcept (r.map fun (s, key) => (s, .key key))

/-- The effect of an edit on a schema. -/
def apply (s : Schema) : Edit → Action EditError (Schema × EditResult)
  | addTable title schema columns position => keyed (s.addTable title schema columns position)
  | renameTable key title => keyed (s.renameTable key title)
  | deleteTable key => plain (s.deleteTable key)
  | moveTable key x y => plain (s.moveTable key x y)
  | moveTables places => plain (s.moveTables places)
  | setColor key color => plain (s.setColor key color)
  | setComment key comment => plain (s.setTableComment key comment)
  | addColumn key column => plain (s.addColumn key column)
  | updateColumn key index updates => plain (s.updateColumn key index updates)
  | deleteColumn key index => plain (s.deleteColumn key index)
  | reorderColumns key source target => plain (s.reorderColumns key source target)
  | addTables tables enums => ExceptT.lift (s.addTables tables enums)
  | replaceTables tables enums => ExceptT.lift (s.replaceTables tables enums)
  | clear => pure ({}, .done)
  | createEnum name values schema => keyed (s.createEnum name values schema)
  | updateEnum key values => plain (s.updateEnum key values)
  | renameEnum key name => keyed (s.renameEnum key name)
  | deleteEnum key => do
    let edited ← Action.ofExcept (s.deleteEnum key)
    Logged.log .debug .edits ("Deleted enum " ++ key ++ "; values kept inline on its columns")
    return (edited, .done)

/-- The title of a column of a schema; empty if there is none. -/
def columnTitle (s : Schema) (key : String) (index : Int) : String :=
  (((s.tables.get? key).bind fun t => t.columns[index.toNat]?).map (·.title)).getD ""

/-- The label of an edit, from the schemas before and after it. -/
def label (before after : Schema) : Edit → Label
  | addTable title _ _ _ => .addTable title
  | renameTable key title => .renameTable (Name.bare key) title
  | deleteTable key => .deleteTable (Name.bare key)
  | moveTable key _ _ => .moveTable (Name.bare key)
  | moveTables places => .moveTables places.size
  | setColor key _ => .changeColor (Name.bare key)
  | setComment key _ => .updateComment (Name.bare key)
  | addColumn key column => .addColumn (Name.bare key) column.title
  | updateColumn key index _ => .updateColumn (Name.bare key) (columnTitle after key index)
  | deleteColumn key index => .deleteColumn (Name.bare key) (columnTitle before key index)
  | reorderColumns key _ _ => .reorderColumns (Name.bare key)
  | addTables tables _ => .addTables tables.size
  | replaceTables _ _ => .applyDocument
  | clear => .clear
  | createEnum name _ _ => .createEnum name
  | updateEnum key _ => .updateEnum (Name.bare key)
  | renameEnum key name => .renameEnum (Name.bare key) name
  | deleteEnum key => .deleteEnum (Name.bare key)

end Edit

end Schemata
