/-
  Log lines.  A record is written as one JSON object for shipping, or as one line for reading.
-/
import Schemata.Json.Writer
import Schemata.Log.Event
import Schemata.Log.Moment

namespace Schemata.Log

/-- What a line shows. -/
structure Record where
  level : String
  logger : String
  message : String
  context : Context := {}
  payload : List (String × Json) := []
  /-- The text of a value error that was caught. -/
  exception : Option String := none
  /-- Where the record was made. -/
  place : String := ""

/-- The text of a caught value error. -/
def exceptionLine (text : String) : String :=
  if text.isEmpty then "ValueError" else "ValueError: " ++ text

/-- The record as a JSON object on one line. -/
def Record.structured (now : Moment) (includeContext : Bool) (r : Record) : String :=
  let context := r.context.toMembers
  Json.write .spaced <| .obj <|
    [("timestamp", .str now.full), ("level", .str r.level), ("logger", .str r.logger),
      ("message", .str r.message)] ++
    (if includeContext && !context.isEmpty then [("context", .obj context)] else []) ++
    (if r.payload.isEmpty then [] else [("data", .obj r.payload)]) ++
    Json.optional "exception" (fun t => .str (exceptionLine t)) r.exception ++
    [("source", .str r.place)]

/-- The fields of a context that a line for reading shows, with their short names. -/
def tags (c : Context) : List String :=
  let shown := [("op", c.operation), ("table", c.tableKey), ("stmt", c.statementIndex),
    ("action", c.historyLabel)]
  (shown.filter fun e => Context.isSet e.2).map fun e => e.1 ++ "=" ++ e.2.plain

/-- A text filled up with blanks to a width. -/
def padRight (width : Nat) (s : String) : String :=
  s ++ String.ofList (List.replicate (width - s.length) ' ')

/-- The record as a line for reading. -/
def Record.human (now : Moment) (r : Record) : String :=
  let tags := tags r.context
  now.short ++ " " ++ padRight 8 r.level ++ " " ++ r.logger ++
    (if tags.isEmpty then "" else " [" ++ ", ".intercalate tags ++ "]") ++ ": " ++ r.message ++
    (if r.payload.isEmpty then "" else " " ++ (Json.obj r.payload).shown) ++
    (match r.exception with
      | some text => "\n" ++ exceptionLine text
      | none => "")

/-- The record of an event. -/
def Event.record (now : Moment) (e : Event) : Record :=
  { level := e.level.name, logger := e.source.name, message := e.message, context := e.context,
    payload := e.payload now.full }

end Schemata.Log
