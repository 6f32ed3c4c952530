/-
  Reading the arguments of the program.

  * Options before the command are global, those after it belong to the command; they stand before
    or after its one file;
  * two dashes end the options; what follows is a file, also if it begins like an option;
  * an unknown option or a second file makes the request a misuse, but only once all arguments are
    read: help and the version go first; a known option that is misused ends the reading;
  * `ofArguments_eq_misuse`: an ambiguous option is a misuse wherever it stands.
-/
import Schemata.Command.Basic
import Schemata.Command.Option

namespace Schemata.Command

/-! ## After the command -/

/-- The commands by their names. -/
inductive Kind where
  | format
  | inspect
  | generate
deriving DecidableEq, Repr

/-- The command of a name. -/
def Kind.ofName? (s : String) : Option Kind :=
  match s with
  | "format" => some .format
  | "inspect" => some .inspect
  | "generate" => some .generate
  | _ => none

/-- The options of a command. -/
def Kind.options : Kind → OptionTable
  | format | generate => renderingOptions
  | inspect => inspectionOptions

/-- What is known of an invocation while its arguments are read. -/
structure Draft where
  verbose : Bool := false
  file : Option String := none
  table : Option String := none
  yaml : Bool := false
  /-- Whether an argument was met that belongs nowhere. -/
  stray : Bool := false
deriving DecidableEq, Repr

namespace Draft

/-- The request of a finished draft. -/
def finish (kind : Kind) (d : Draft) : Request :=
  match d.file with
  | none => .misuse
  | some file =>
    if d.stray then .misuse
    else
      .run ⟨d.verbose, match kind with
        | .format => .format file d.table
        | .inspect => .inspect file d.yaml
        | .generate => .generate file d.table⟩

/-- The draft after a file; a second one is stray. -/
def addFile (d : Draft) (file : String) : Draft :=
  match d.file with
  | none => { d with file }
  | some _ => { d with stray := true }

/-- The draft after options without values, or the request that one of them makes at once. -/
def addFlags (d : Draft) : List Switch → Except Request Draft
  | [] => .ok d
  | .help :: _ => .error .help
  | .version :: _ => .error .version
  | .verbose :: rest => addFlags { d with verbose := true } rest
  | .yaml :: rest => addFlags { d with yaml := true } rest
  | .table :: rest => addFlags d rest

/-- The draft after the two dashes that end the options, and the arguments after them. -/
def finishOperands (kind : Kind) (d : Draft) (rest : List String) : Request :=
  match d.file, rest with
  | none, [file] => finish kind { d with file := some file }
  | _, _ => .misuse

end Draft

/-- Whether an argument can be the value of an option. -/
def isValue (options : OptionTable) (s : String) : Bool :=
  s != "--" && Argument.read options s == .operand

/-- The request of the arguments after a command. -/
def readAfter (kind : Kind) (d : Draft) : List String → Request
  | [] => d.finish kind
  | "--" :: rest => d.finishOperands kind rest
  | a :: rest =>
    match Argument.read kind.options a with
    | .operand =>
      -- two dashes right after the file belong to it
      if d.file.isNone && rest == ["--"] then (d.addFile a).finish kind
      else readAfter kind (d.addFile a) rest
    | .flags switches =>
      match d.addFlags switches with
      | .ok d => readAfter kind d rest
      | .error r => r
    | .valued _ (some value) => readAfter kind { d with table := some value } rest
    | .valued _ none =>
      match rest with
      | value :: rest =>
        if isValue kind.options value then readAfter kind { d with table := some value } rest
        else .misuse
      | [] => .misuse
    | .unknown => readAfter kind { d with stray := true } rest
    | .ambiguous => .misuse
    | .misused => .misuse

/-! ## Before the command -/

/-- The request of some arguments, of which none is ambiguous. -/
def readFrom (d : Draft) : List String → Request
  | [] => .misuse
  | "--" :: _ => .misuse
  | a :: rest =>
    match Argument.read globalOptions a with
    | .operand =>
      match Kind.ofName? a with
      | some kind => readAfter kind d rest
      | none => .misuse
    | .flags switches =>
      match d.addFlags switches with
      | .ok d => readFrom d rest
      | .error r => r
    | .unknown => readFrom { d with stray := true } rest
    | _ => .misuse

/-- Whether an argument begins several of the global options. -/
def isAmbiguous (s : String) : Bool := Argument.read globalOptions s == .ambiguous

end Schemata.Command

namespace Schemata

open Command

/-- The request of some arguments. -/
def Request.ofArguments (args : List String) : Request :=
  if (args.takeWhile (· != "--")).any isAmbiguous then .misuse else readFrom {} args

theorem Request.ofArguments_eq_misuse {args : List String} {s : String}
    (hs : s ∈ args.takeWhile (· != "--")) (ha : isAmbiguous s = true) :
    ofArguments args = .misuse := by
  rw [ofArguments, if_pos (List.any_eq_true.2 ⟨s, hs, ha⟩)]

end Schemata
