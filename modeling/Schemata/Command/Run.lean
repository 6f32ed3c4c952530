/-
  Runs of commands.  `Command.perform` is the text that a command writes, with the events of its
  making; `Invocation.report` is what is seen of a run: its status, its output, and the lines of
  events and errors.
-/
import Schemata.Command.Basic
import Schemata.Command.SchemaFile
import Schemata.Ddl.Encoding
import Schemata.Log.Configuration
import Schemata.Settings
import Schemata.Statement.Build
import Schemata.Yaml.Writer

namespace Schemata

open Log

/-- Why a command fails. -/
inductive CommandError where
  | missingFile (path : String)
  | parse (e : ParseError)
  | schemaFile (e : SchemaFileError)
  | settings (e : SettingsError)
  | invalid (faults : List Decode.Fault)
  | unencodable (run : Text.Half.Run)
  /-- Two dashes stand in the place of the key of a table. -/
  | noKey

/-- The line that tells an error. -/
def CommandError.line : CommandError → String
  | missingFile path => "Error: [Errno 2] No such file or directory: " ++ Text.display path
  | parse e => "Parse error: " ++ e.message
  | schemaFile e => "Error: " ++ e.message
  | settings e => "Error: " ++ e.message
  | invalid faults => "Error: " ++ toString faults.length ++ " validation errors"
  | unencodable run => "Error: " ++ run.message
  | noKey => "TypeError: unhashable type: 'list'"

/-- What commands take from outside. -/
structure Surroundings where
  settings : Except SettingsError Settings
  /-- The text of a file, if there is one. -/
  fileText : String → Option String

namespace Command

/-- The text of a file. -/
def textOf (outside : Surroundings) (file : String) : Action CommandError String :=
  Action.ofExcept <|
    match outside.fileText file with
    | some text => .ok text
    | none => .error (.missingFile file)

/-- The schema of a document in a file. -/
def documentOf (outside : Surroundings) (file : String) : Action CommandError Schema := do
  ExceptT.adapt CommandError.parse (Schema.ofDocument (← textOf outside file))

/-- What the statements of a schema are written with: the options of writing, and the enum types.
    Two dashes are no key of a table. -/
def prepare (outside : Surroundings) (s : Schema) (table : Option String) :
    Action CommandError (RenderOptions × OrderedMap EnumType) := do
  let settings ← Action.ofExcept (outside.settings.mapError CommandError.settings)
  let enums ← Action.ofExcept ((Ddl.knownEnums s).mapError CommandError.invalid)
  if table = some "--" then throw .noKey
  return (settings.render, enums)

/-- The statements of a schema, or of one of its tables. -/
def statements (outside : Surroundings) (s : Schema) (table : Option String) :
    Action CommandError String := do
  let (options, _) ← prepare outside s table
  ExceptT.adapt CommandError.invalid (Ddl.generate options s table)

/-- The statements of a schema from a file, which may hold halves of characters. -/
def fileStatements (outside : Surroundings) (s : Schema) (table : Option String) :
    Action CommandError String := do
  let (options, enums) ← prepare outside s table
  match Ddl.unencodable? options enums s table with
  | some run =>
    (Ddl.notes options s table : Logged _)
    throw (.unencodable run)
  | none => statements outside s table

/-- The text that a command writes. -/
def perform (outside : Surroundings) : Command → Action CommandError String
  | format file table => do
    return (← statements outside (← documentOf outside file) table) ++ "\n"
  | inspect file yaml => do
    let schema ← documentOf outside file
    return if yaml then Yaml.write schema.toJson else schema.toJson.write .indented ++ "\n"
  | generate file table => do
    let text ← textOf outside file
    let schema ← ExceptT.adapt CommandError.schemaFile (SchemaFile.read file text)
    if Text.Half.mayName text.toList then return (← fileStatements outside schema table) ++ "\n"
    else return (← statements outside schema table) ++ "\n"

end Command

/-- What is seen of a run. -/
structure Report where
  status : Nat
  output : String
  /-- The lines of events and errors. -/
  notices : String
deriving DecidableEq, Repr

namespace Invocation

/-- The lowest level of the events that are written. -/
def level (i : Invocation) : Level := if i.verbose then .debug else .warning

/-- The lines of some events. -/
def eventLines (i : Invocation) (structured : Bool) (now : Moment) (events : List Event) :
    List String :=
  (events.filter fun e => i.level.rank ≤ e.level.rank).map fun e =>
    let record := e.record now
    if structured then record.structured now true else record.human now

/-- Lines as one text; halves of characters that belong together are joined. -/
def linesText (lines : List String) : String :=
  String.ofList (Text.Half.join (String.join (lines.map (· ++ "\n"))).toList)

/-- What is seen of a run with some outcome. -/
def report (i : Invocation) (structured : Bool) (now : Moment)
    (outcome : Logged (Except CommandError String)) : Report :=
  let lines := i.eventLines structured now outcome.events
  match outcome.value with
  | .ok output => ⟨0, output, linesText lines⟩
  | .error e => ⟨1, "", linesText (lines ++ [e.line])⟩

end Invocation

end Schemata
