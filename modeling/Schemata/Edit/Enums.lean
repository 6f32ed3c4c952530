/-
  Edits of enum types.  Columns that refer to an enum type by its key follow it.

  * New values are copied to the columns that keep values of their own;
  * renaming re-points the columns to the new key;
  * deleting leaves the values with the columns.
-/
import Schemata.Edit.Tables

namespace Schemata.Schema

/-- The enum type under a key. -/
def enumAt (s : Schema) (key : String) : Except EditError EnumType :=
  match s.enums.get? key with
  | some e => .ok e
  | none => refuse (.noEnum key)

/-- The tables with every column changed that refers to an enum type. -/
def mapUsers (s : Schema) (key : String) (f : Column → Column) : OrderedMap Table :=
  s.tables.map fun _ t =>
    { t with columns := t.columns.map fun c => if c.enumName = some key then f c else c }

/-- Adds an enum type; the result has its key. -/
def createEnum (s : Schema) (name : String) (values : List String) (schema : Option String) :
    Except EditError (Schema × String) := do
  let e ← (Decode.enumOf name schema values).orInvalid
  if s.enums.contains e.key then refuse (.enumExists e.key)
  return ({ s with enums := s.enums.insert e.key e }, e.key)

/-- Gives an enum type new values. -/
def updateEnum (s : Schema) (key : String) (values : List String) : Except EditError Schema := do
  let e ← s.enumAt key
  let updated ← (Decode.enumOf e.name e.schema values).orInvalid
  return {
    tables := s.mapUsers key fun c => { c with enumValues := c.enumValues.map fun _ => values }
    enums := s.enums.insert key updated }

/-- Renames an enum type within its schema; the result has its new key. -/
def renameEnum (s : Schema) (key name : String) : Except EditError (Schema × String) := do
  let e ← s.enumAt key
  if Text.isBlankText name then refuse .blankEnum
  let renamed := { e with name }
  if renamed.key != key && s.enums.contains renamed.key then refuse (.enumExists renamed.key)
  let edited : Schema :=
    { tables := s.mapUsers key fun c => { c with enumName := some renamed.key }
      enums := (s.enums.erase key).insert renamed.key renamed }
  return (edited, renamed.key)

/-- Removes an enum type. -/
def deleteEnum (s : Schema) (key : String) : Except EditError Schema := do
  let e ← s.enumAt key
  return {
    tables := s.mapUsers key fun c =>
      { c with enumName := none, enumValues := some e.values, format := "enum" }
    enums := s.enums.erase key }

end Schemata.Schema
