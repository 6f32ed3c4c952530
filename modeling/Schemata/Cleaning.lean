/-
  Cleaning of tables that come from outside.  What is invalid is dropped and counted, never an
  error, so cleaning always has a result.

  * A column is dropped if it is no object, has a blank title, repeats an earlier title or does not
    decode; a table is dropped if its key is blank, if no column is left, or if it does not decode;
  * `clean` cleans a map of raw tables; `merge` lays cleaned tables over others and `replace` puts
    them in their place, and both keep the layout of tables that stay;
  * `mergeEnums` lays enum types over others.
-/
import Schemata.Decode.Schema
import Schemata.Log.Event
import Schemata.Schema.Encode

namespace Schemata.Cleaning

open Log

/-! ## Columns -/

/-- The title of a raw table or column, if it is a text that is not blank. -/
def title? (members : List (String × Json)) : Option String :=
  ((OrderedMap.find "title" members).bind Json.str?).filter (! Text.isBlankText ·)

/-- A column, if it is valid and new.  `seen` holds the titles of the columns before, in the form in
    which names are compared. -/
def cleanColumn (seen : List String) (raw : Json) : Logged (Option Column) :=
  match raw.members?.bind title? with
  | none => pure none
  | some title =>
    if seen.contains (Quote.fold title) then pure none
    else
      match Decode.column raw with
      | .ok column => pure (some column)
      | .bad faults => do
        Logged.log .debug .cleaning
          ("Dropping invalid column '" ++ title ++ "': " ++ toString faults.length ++ " errors")
        return none

/-- The valid columns of a list, and how many were dropped. -/
def cleanColumns (seen : List String) : List Json → Logged (List Column × Nat)
  | [] => pure ([], 0)
  | raw :: rest => do
    match ← cleanColumn seen raw with
    | none =>
      let (columns, removed) ← cleanColumns seen rest
      return (columns, removed + 1)
    | some column =>
      let (columns, removed) ← cleanColumns (Quote.fold column.title :: seen) rest
      return (column :: columns, removed)

/-! ## Tables -/

/-- What became of a raw table. -/
structure Outcome where
  table : Option Table := none
  removedColumns : Nat := 0

/-- The raw columns of a table. -/
def rawColumns (members : List (String × Json)) : List Json :=
  ((OrderedMap.find "columns" members).bind Json.items?).getD []

/-- The fields of a table with a title: its own, or the bare name of its key. -/
def titled (key : String) (members : List (String × Json)) : List (String × Json) :=
  if (title? members).isSome then members
  else OrderedMap.put "title" (.str (Name.bare key)) members

/-- A table from its fields. -/
def cleanMembers (key : String) (members : List (String × Json)) : Logged Outcome := do
  let (columns, removed) ← cleanColumns [] (rawColumns members)
  if columns.isEmpty then return { removedColumns := removed }
  match Decode.tableWith (.ok columns) (titled key members) with
  | .ok table => return { table := some table, removedColumns := removed }
  | .bad faults =>
    Logged.log .debug .cleaning
      ("Dropping invalid table '" ++ key ++ "': " ++ toString faults.length ++ " errors")
    return { removedColumns := removed + columns.length }

/-- A table under a key. -/
def cleanTable (key : String) (raw : Json) : Logged Outcome :=
  match raw with
  | .obj members => if Text.isBlankText key then pure {} else cleanMembers key members
  | _ => pure {}

/-- Cleaned tables, and how many tables and columns were dropped. -/
structure Cleaned where
  tables : OrderedMap Table := {}
  removedTables : Nat := 0
  removedColumns : Nat := 0

/-- Whether something was dropped. -/
def Cleaned.changed (c : Cleaned) : Bool := c.removedTables != 0 || c.removedColumns != 0

/-- What is left of some outcomes, with `nameless` tables that were dropped for want of a name. -/
def Cleaned.ofOutcomes (nameless : Nat) (outcomes : OrderedMap Outcome) : Cleaned where
  tables := outcomes.filterMap fun _ o => o.table
  removedTables := nameless + outcomes.values.countP fun o => o.table.isNone
  removedColumns := outcomes.sumBy fun _ o => o.removedColumns

/-- The valid tables of a map; `nameless` counts further tables whose keys are no names. -/
def clean (tables : OrderedMap Json) (nameless : Nat := 0) : Logged Cleaned := do
  let outcomes ← Logged.overMap cleanTable tables
  let cleaned := Cleaned.ofOutcomes nameless outcomes
  if cleaned.changed then
    Logged.log .info .cleaning
      ("Sanitized tables: removed " ++ toString cleaned.removedTables ++ " tables, " ++
        toString cleaned.removedColumns ++ " columns")
  return cleaned

/-! ## Merging -/

/-- A table with the place and the colour of an earlier one where it has none of its own. -/
def keepLayout (table : Table) : Option Table → Table
  | none => table
  | some earlier =>
    { table with
      position := table.position.or earlier.position
      color := (filled table.color).or earlier.color }

/-- Raw tables laid over others, all of them cleaned. -/
def merge (current : OrderedMap Table) (incoming : OrderedMap Json) : Logged Cleaned := do
  let cleaned ← clean incoming
  let placed := cleaned.tables.map fun key t => keepLayout t (current.get? key)
  let result ← clean ((current.overlay placed).map fun _ t => t.toJson)
  return { result with
    removedTables := result.removedTables + cleaned.removedTables
    removedColumns := result.removedColumns + cleaned.removedColumns }

/-- Raw tables in the place of others. -/
def replace (current : OrderedMap Table) (incoming : OrderedMap Json) : Logged Cleaned := do
  let cleaned ← clean incoming
  return { cleaned with tables := cleaned.tables.map fun key t => keepLayout t (current.get? key) }

/-- An enum type under a key, if it is valid. -/
def cleanEnum (key : String) (raw : Json) : Logged (Option EnumType) :=
  match Decode.enumType raw with
  | .ok e => pure (some e)
  | .bad faults => do
    Logged.log .debug .cleaning
      ("Dropping invalid enum type '" ++ key ++ "': " ++ toString faults.length ++ " errors")
    return none

/-- Raw enum types laid over others. -/
def mergeEnums (current : OrderedMap EnumType) (incoming : OrderedMap Json) :
    Logged (OrderedMap EnumType) := do
  let outcomes ← Logged.overMap cleanEnum incoming
  return current.overlay (outcomes.filterMap fun _ e => e)

end Schemata.Cleaning
