/-
  Schema files: a schema as YAML or JSON text, with its tables and its enum types by key.  What is
  invalid in it is dropped with a warning; only a file of another shape is an error.
-/
import Schemata.Cleaning
import Schemata.Yaml.Reader

namespace Schemata

open Log Yaml

/-- Why a text is no schema file. -/
inductive SchemaFileError where
  /-- The text is not YAML. -/
  | unreadable (problem : Problem)
  /-- The text is no mapping. -/
  | notMapping (path : String)
  /-- The tables or the enum types are given, but not as a mapping; `kind` names what they are. -/
  | notEntries (kind : String)
  /-- The key of an enum type is no text. -/
  | notName (key : String)
deriving DecidableEq, Repr

/-- The text of an error. -/
def SchemaFileError.message : SchemaFileError → String
  | unreadable problem => problem.message
  | notMapping path => path ++ ": expected a mapping with 'tables' and 'enumTypes'"
  | notEntries kind => "'" ++ kind ++ "' object has no attribute 'items'"
  | notName key => "the key " ++ key ++ " of an enum type is no text"

namespace SchemaFile

/-! ## Raw values -/

mutual

/-- A value as JSON.  A timestamp fits nowhere, which a value that is no number says as well; keys
    that are no texts are left out. -/
def raw : Value → Json
  | .null => .null
  | .bool b => .bool b
  | .int i => .int i
  | .float x => .float x
  | .timestamp _ => .float (.nan (some 0))
  | .str s => .str s
  | .seq items => .arr (rawItems items)
  | .map entries => .obj (rawMembers entries)

/-- The items of a sequence as JSON. -/
def rawItems : List Value → List Json
  | [] => []
  | v :: rest => raw v :: rawItems rest

/-- The entries of a mapping as JSON. -/
def rawMembers : List (Value × Value) → List (String × Json)
  | [] => []
  | (.str k, v) :: rest => (k, raw v) :: rawMembers rest
  | _ :: rest => rawMembers rest

end

/-- The value under a name with a function of its own, the others as JSON. -/
def rawWith (name : String) (f : Value → Json) : Value → Json
  | .map entries =>
    .obj (entries.filterMap fun (k, v) =>
      match k with
      | .str k => some (k, if k == name then f v else raw v)
      | _ => none)
  | v => raw v

/-- The default of a column: of every value but null and the truth values, its text. -/
def rawDefault : Value → Json
  | .null => .null
  | .bool b => .bool b
  | v => .str v.text

/-- A list with a function for its items. -/
def rawList (f : Value → Json) : Value → Json
  | .seq items => .arr (items.map f)
  | v => raw v

/-- A table. -/
def rawTable : Value → Json := rawWith "columns" (rawList (rawWith "default" rawDefault))

/-! ## Schemas -/

/-- The entries under the first of some names that counts as present. -/
def entries (v : Value) (names : List String) : Except SchemaFileError (List (Value × Value)) :=
  match (names.filterMap fun name => v.get? name).find? Value.isPresent with
  | none => .ok []
  | some (.map entries) => .ok entries
  | some other => .error (.notEntries other.kindName)

/-- The entries whose keys are texts, in a form of their own. -/
def named (f : Value → Json) (entries : List (Value × Value)) : OrderedMap Json :=
  .ofList <| entries.filterMap fun (k, v) =>
    match k with
    | .str k => some (k, f v)
    | _ => none

/-- The first key of a valid enum type that is no text. -/
def badName? (entries : List (Value × Value)) : Option Value :=
  (entries.find? fun (k, v) =>
    match k with
    | .str _ => false
    | _ => (Decode.enumType (raw v)).value?.isSome).map (·.1)

/-- The schema of a value; `path` tells where it is from. -/
def schema (path : String) (v : Value) : Action SchemaFileError Schema := do
  let tables ← Action.ofExcept (entries v ["tables"])
  let known := named rawTable tables
  let cleaned ← (Cleaning.clean known (tables.length - known.size) : Logged _)
  let enums ← Action.ofExcept (entries v ["enumTypes", "enum_types"])
  let bad := badName? enums
  let enums ← (Cleaning.mergeEnums {} (named raw enums) : Logged _)
  if cleaned.changed then
    Logged.log .warning .cli
      ("Dropped " ++ toString cleaned.removedTables ++ " tables and " ++
        toString cleaned.removedColumns ++ " columns from " ++ path)
  match bad with
  | some k => throw (.notName k.shown)
  | none => return { tables := cleaned.tables, enums }

/-- The schema of a text; an empty one has no tables. -/
def read (path text : String) : Action SchemaFileError Schema :=
  match Yaml.read text with
  | .error problem => Action.ofExcept (.error (.unreadable problem))
  | .ok v =>
    match v with
    | .map (e :: rest) => schema path (.map (e :: rest))
    | v => if v.isPresent then Action.ofExcept (.error (.notMapping path)) else pure {}

end SchemaFile

end Schemata
