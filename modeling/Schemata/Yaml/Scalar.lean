/-
  What a scalar of YAML 1.1 stands for.  A plain scalar stands for null, a truth value, a number or
  a timestamp if it is spelled like one, and for its text otherwise.

  * `Kind.ofText` is the kind of value that a plain scalar is spelled like;
  * `truth?`, `integer`, `decimal` and `timestamp` are the values that texts of a kind stand for.
-/
import Schemata.Json.Reader
import Schemata.Number.Arithmetic
import Schemata.Text.Display
import Schemata.Yaml.Problem
import Schemata.Yaml.Timestamp

namespace Schemata.Yaml

/-! ## Spellings -/

/-- A kind of scalar. -/
inductive Kind where
  | null
  | bool
  | int
  | float
  | timestamp
  /-- The key `<<`, which merges another mapping. -/
  | merge
  /-- The sign `=`. -/
  | default
  | str
deriving DecidableEq, Repr

/-- A nonempty text of characters of a class. -/
def allOf (p : Char → Bool) (cs : List Char) : Bool := !cs.isEmpty && cs.all p

/-- A digit, or an underscore between digits. -/
def isDigitOrLine (c : Char) : Bool := Text.isAsciiDigit c || c == '_'

/-- A digit of a base up to 16, or an underscore between digits. -/
def isBaseDigit (base : Nat) (c : Char) : Bool :=
  c == '_' ||
    let n := c.toNat
    if Text.isAsciiDigit c then n < 48 + base
    else base == 16 && ((97 ≤ n && n ≤ 102) || (65 ≤ n && n ≤ 70))

/-- A whole number in decimal digits, the first one of them in a range. -/
def isWhole (least : Char) (cs : List Char) : Bool :=
  cs.head?.any (fun c => least ≤ c && c ≤ '9') && cs.all isDigitOrLine

/-- A place of a number to the base 60: `0` to `59`, the tens perhaps left out. -/
def isSixtieth (cs : List Char) : Bool :=
  match cs with
  | [d] => Text.isAsciiDigit d
  | [t, d] => '0' ≤ t && t ≤ '5' && Text.isAsciiDigit d
  | _ => false

/-- The parts of a text between colons. -/
def colonParts : List Char → List (List Char)
  | [] => [[]]
  | c :: cs =>
    match colonParts cs with
    | [] => [[c]]
    | p :: ps => if c = ':' then [] :: p :: ps else (c :: p) :: ps

/-- A number to the base 60 of more than one place. -/
def isSexagesimal (least : Char) (cs : List Char) : Bool :=
  match colonParts cs with
  | first :: p :: places => isWhole least first && (p :: places).all isSixtieth
  | _ => false

/-- The text without a sign. -/
def unsigned (cs : List Char) : List Char := (Number.splitSign cs).2

/-- Whether a text is spelled like an integer. -/
def isInteger (cs : List Char) : Bool :=
  let cs := unsigned cs
  (match cs with
    | ['0'] => true
    | '0' :: 'b' :: ds => allOf (isBaseDigit 2) ds
    | '0' :: 'x' :: ds => allOf (isBaseDigit 16) ds
    | '0' :: ds => allOf (isBaseDigit 8) ds
    | _ => false) ||
  isWhole '1' cs || isSexagesimal '1' cs

/-- An exponent with its sign, or nothing. -/
def isExponent (cs : List Char) : Bool :=
  match cs with
  | [] => true
  | e :: sign :: ds =>
    (e == 'e' || e == 'E') && (sign == '+' || sign == '-') && allOf Text.isAsciiDigit ds
  | _ => false

/-- Whether a text is spelled like a number with a point. -/
def isDecimal (cs : List Char) : Bool :=
  let body := unsigned cs
  let whole := body.takeWhile (· != '.')
  match body.dropWhile (· != '.') with
  | _ :: rest =>
    let exponent := rest.dropWhile isDigitOrLine
    (isWhole '0' whole && isExponent exponent) ||
      (isSexagesimal '0' whole && exponent.isEmpty) ||
      (whole.isEmpty && body.length == cs.length && rest.head?.any Text.isAsciiDigit &&
        isExponent exponent)
  | [] => false

/-- Whether a text is a name of infinity. -/
def isInfinity (cs : List Char) : Bool :=
  [".inf", ".Inf", ".INF"].contains (String.ofList (unsigned cs))

/-- Whether a text is a name of no number. -/
def isNoNumber (s : String) : Bool := [".nan", ".NaN", ".NAN"].contains s

/-- The spellings of null. -/
def nullWords : List String := ["", "~", "null", "Null", "NULL"]

/-- The spellings of true. -/
def trueWords : List String :=
  ["yes", "Yes", "YES", "true", "True", "TRUE", "on", "On", "ON"]

/-- The spellings of false. -/
def falseWords : List String :=
  ["no", "No", "NO", "false", "False", "FALSE", "off", "Off", "OFF"]

/-- The kind of value that a plain scalar is spelled like. -/
def Kind.ofText (s : String) : Kind :=
  let cs := s.toList
  if trueWords.contains s || falseWords.contains s then .bool
  else if isDecimal cs || isInfinity cs || isNoNumber s then .float
  else if isInteger cs then .int
  else if s = "<<" then .merge
  else if nullWords.contains s then .null
  else if (Timestamp.read? false cs).isSome then .timestamp
  else if s = "=" then .default
  else .str

/-! ## Values -/

/-- The truth value of a word in any case. -/
def truth? (s : String) : Option Bool :=
  let word := String.ofList (s.toList.map Text.asciiLower)
  if trueWords.contains word then some true
  else if falseWords.contains word then some false
  else none

/-- The number that digits in a base stand for; there must be at least one. -/
def inBase (base : Nat) (cs : List Char) : Except Problem Int :=
  if allOf (fun c => c != '_' && isBaseDigit base c) cs then
    .ok (cs.foldl (fun n c => n * base + (Json.hexValue? c).getD 0) 0 : Nat)
  else
    .error <| .value <| "invalid literal for int() with base " ++ toString base ++ ": " ++
      Text.display (String.ofList cs)

/-- The number that decimal digits stand for. -/
def inTen (cs : List Char) : Except Problem Int :=
  let s := String.ofList cs
  (Number.integer s).mapError fun flaw => .value (flaw.message s)

/-- The integer that a text stands for. -/
def integer (s : String) : Except Problem Int :=
  let (negative, cs) := Number.splitSign (s.toList.filter (· != '_'))
  let value : Except Problem Int :=
    match cs with
    | [] => .error .form
    | ['0'] => .ok 0
    | '0' :: 'b' :: ds => inBase 2 ds
    | '0' :: 'x' :: ds => inBase 16 ds
    | '0' :: _ => inBase 8 cs
    | _ => (colonParts cs).foldlM (fun n p => (inTen p).map (n * 60 + ·)) 0
  value.map fun n => if negative then -n else n

/-- The number of a text with a point. -/
def decimalPart (cs : List Char) : Except Problem Number.Binary64 :=
  let s := String.ofList cs
  match Number.decimal? s with
  | some x => .ok x
  | none => .error (.value ("could not convert string to float: " ++ Text.display s))

/-- The sum of the places of a number to the base 60, the last place first. -/
def sexagesimal (total : Number.Binary64) (base : Nat) :
    List Number.Binary64 → Number.Binary64
  | [] => total
  | x :: places =>
    sexagesimal (total.add (x.mul (.ofInt base))) (base * 60) places

/-- The number that a text stands for. -/
def decimal (s : String) : Except Problem Number.Binary64 :=
  let (negative, cs) := Number.splitSign
    ((s.toList.filter (· != '_')).map Text.asciiLower)
  let value : Except Problem Number.Binary64 :=
    if cs.isEmpty then .error .form
    else if isInfinity cs then .ok (.infinity false)
    else if isNoNumber (String.ofList cs) then .ok (.nan (some 0))
    else
      match colonParts cs with
      | [p] => decimalPart p
      | parts => do return sexagesimal .zero 1 (← parts.mapM decimalPart).reverse
  value.map fun x => if negative then x.negate else x

/-- The timestamp that a text stands for. -/
def timestamp (s : String) : Except Problem Timestamp :=
  match Timestamp.read? true s.toList with
  | some t => t.checked.mapError .value
  | none => .error .form

end Schemata.Yaml
