/-
  Arguments against the options that a command line knows.

  * A long option may be cut short as long as one option alone begins like it, and may have its
    value after an equals sign; one-letter options may be written together;
  * a dash alone, a negative number and a text with a blank that is no option are operands;
  * `Argument.read` says what an argument is.
-/
import Schemata.Text.Class
import Schemata.Text.Search

namespace Schemata.Command

/-- What an option sets or asks for. -/
inductive Switch where
  | help
  | version
  | verbose
  | table
  | yaml
deriving DecidableEq, Repr

/-- Whether an option needs a value. -/
def Switch.takesValue : Switch → Bool
  | table => true
  | _ => false

/-- The options of a command line by their spellings. -/
abbrev OptionTable := List (String × Switch)

/-- The options that may stand before the command. -/
def globalOptions : OptionTable :=
  [("-h", .help), ("--help", .help), ("--version", .version), ("--verbose", .verbose),
    ("-v", .verbose)]

/-- The options of the commands that write statements. -/
def renderingOptions : OptionTable := [("-h", .help), ("--help", .help), ("--table", .table)]

/-- The options of the command that shows a schema. -/
def inspectionOptions : OptionTable := [("-h", .help), ("--help", .help), ("--yaml", .yaml)]

/-- What an argument is. -/
inductive Argument where
  | operand
  /-- Options without values, from left to right. -/
  | flags (switches : List Switch)
  /-- An option that takes a value, with the value that stands in the same argument. -/
  | valued (switch : Switch) (value : Option String)
  /-- An option that is not known. -/
  | unknown
  /-- The beginning of several options. -/
  | ambiguous
  /-- Known options that are not used as they can be. -/
  | misused
deriving DecidableEq, Repr

namespace Argument

/-- An option with the value that is attached to it. -/
def ofSwitch (s : Switch) (value : Option String) : Argument :=
  if s.takesValue then valued s value
  else if value.isNone then flags [s]
  else misused

/-- The option of one letter. -/
def letter? (options : OptionTable) (c : Char) : Option Switch :=
  options.lookup (String.ofList ['-', c])

/-- One-letter options that are written together; all of them must be known. -/
def ofLetters (options : OptionTable) (switches : List Switch) : List Char → Argument
  | [] => flags switches
  | c :: cs =>
    match letter? options c with
    | some switch =>
      if switch.takesValue then misused else ofLetters options (switches ++ [switch]) cs
    | none => misused

/-- A one-letter option and what is attached to it: further ones, perhaps after an equals sign. -/
def ofCluster (options : OptionTable) (switch : Switch) : List Char → Argument
  | ['='] => misused
  | '=' :: cs => ofLetters options [switch] cs
  | cs => ofLetters options [switch] cs

/-- The parts of an argument before and after its first equals sign. -/
def splitValue (cs : List Char) : List Char × Option String :=
  match Text.cut? ['='] cs with
  | some (before, value) => (before, some (String.ofList value))
  | none => (cs, none)

/-- Whether a text holds digits, and nothing else but a line feed at its end. -/
def isNumeral (cs : List Char) : Bool :=
  match cs.span Text.isDigit with
  | (_ :: _, rest) => rest == [] || rest == ['\n']
  | _ => false

/-- Whether a text is a negative number without an exponent. -/
def isNegativeNumber : List Char → Bool
  | '-' :: cs =>
    match cs.dropWhile Text.isDigit with
    | '.' :: places => isNumeral places
    | _ => isNumeral cs
  | _ => false

/-- An argument that begins like an option but is none. -/
def ofOther (cs : List Char) : Argument :=
  if isNegativeNumber cs || cs.contains ' ' then operand else unknown

/-- An argument of two dashes and a name that is no whole option. -/
def ofBeginning (options : OptionTable) (cs : List Char) : Argument :=
  let (name, value) := splitValue cs
  match options.filter fun e => name.isPrefixOf e.1.toList with
  | [] => ofOther cs
  | [e] => ofSwitch e.2 value
  | _ => ambiguous

/-- What an argument is to some options. -/
def read (options : OptionTable) (s : String) : Argument :=
  match s.toList with
  | '-' :: c :: rest =>
    match options.lookup s with
    | some switch => ofSwitch switch none
    | none =>
      if c = '-' then
        let (name, value) := splitValue s.toList
        match options.lookup (String.ofList name) with
        | some switch => ofSwitch switch value
        | none => ofBeginning options s.toList
      else
        match letter? options c with
        | some switch => ofCluster options switch rest
        | none => ofOther s.toList
  | _ => operand

end Argument

end Schemata.Command
