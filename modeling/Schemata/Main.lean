/-
  The program: reads its arguments, the environment and one file, and writes what is seen of the
  run.
-/
import Schemata.Command.Reading
import Schemata.Command.Run
import Std.Time.DateTime

open Schemata

/-- The environment variables that settings and log lines depend on. -/
def variableNames : List String :=
  ["SCHEMA_HISTORY_MAX_ENTRIES", "SCHEMA_HISTORY_SAVE_ENTRIES", "SCHEMA_HISTORY_STORAGE_KEY",
    "SCHEMA_STORAGE_MAX_BYTES", "SCHEMA_STORAGE_MAX_ITEM_BYTES", "SCHEMA_FALLBACK_COLUMN_TYPE",
    "LOG_FORMAT"]

/-- The environment as far as the program looks at it. -/
def readEnvironment : IO (String → Option String) := do
  let values ← variableNames.mapM fun name => return (name, ← IO.getEnv name)
  return fun name => (values.lookup name).join

/-- The moment of the run. -/
def readClock : IO Log.Moment := do
  let now := (← Std.Time.Timestamp.now).val
  return .ofUnix (now.second.val.toNat * 1000000 + now.nano.val.toNat / 1000)

/-- The rest of a stream. -/
partial def readRest (stream : IO.FS.Stream) (read : ByteArray) : IO ByteArray := do
  let more ← stream.read 65536
  if more.isEmpty then return read else readRest stream (read ++ more)

/-- The text of a file; `-` is the standard input. -/
def readFile (file : String) : IO (Option String) := do
  if file == "-" then
    return String.fromUTF8? (← readRest (← IO.getStdin) .empty)
  try return some (← IO.FS.readFile file) catch _ => return none

/-- Runs one command and returns its status. -/
def runCommand (i : Invocation) : IO UInt32 := do
  let env ← readEnvironment
  let text ← readFile i.command.file
  let outcome := i.command.perform { settings := Settings.ofEnv env, fileText := fun _ => text }
  let report := i.report (Log.isStructured false env) (← readClock) outcome.run
  IO.print report.output
  IO.eprint report.notices
  return report.status.toUInt32

def main (args : List String) : IO UInt32 := do
  match Request.ofArguments args with
  | .run i => runCommand i
  | .version => IO.print versionLine; return 0
  | .help => IO.print helpText; return 0
  | .misuse => IO.eprint helpText; return 2
