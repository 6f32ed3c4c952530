/-
  How events are written: from which level on, and in which form.
-/
import Schemata.Log.Line
import Schemata.Text.Case

namespace Schemata.Log

/-- The name of the level that a text asks for, in any case; an unknown one asks for `INFO`. -/
def levelNamed (s : String) : String :=
  match Text.upper s with
  | "CRITICAL" => "CRITICAL"
  | "FATAL" => "CRITICAL"
  | "ERROR" => "ERROR"
  | "WARN" => "WARNING"
  | "WARNING" => "WARNING"
  | "DEBUG" => "DEBUG"
  | "NOTSET" => "NOTSET"
  | _ => "INFO"

/-- The name of the level of a rank; between the usual ranks a level has a number for a name. -/
def levelRanked (rank : Int) : String :=
  match rank with
  | 0 => "NOTSET"
  | 10 => "DEBUG"
  | 20 => "INFO"
  | 30 => "WARNING"
  | 40 => "ERROR"
  | 50 => "CRITICAL"
  | n => "Level " ++ toString n

/-- Whether lines are written as JSON: on demand, or if the environment says so. -/
def isStructured (demanded : Bool) (env : String → Option String) : Bool :=
  demanded || Text.lower ((env "LOG_FORMAT").getD "") == "json"

end Schemata.Log
