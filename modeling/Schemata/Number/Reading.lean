/-
  Numbers and truth values written as text outside JSON.

  * `integer` reads an integer with digits of any script, single underscores between digits and
    white space around it; no integer of more than `maxDigits` digits is read;
  * `PlainInteger.ofString` reads one with ASCII digits, in any of the forms of `plainSpelling?`;
  * `decimal?` reads a number with a fraction and an exponent, or a name of infinity or of no
    number;
  * `truth?` reads the usual words for true and false.
-/
import Schemata.Number.Binary64
import Schemata.Text.Blank
import Schemata.Text.Display
import Schemata.Text.Search

namespace Schemata.Number

/-! ## Integers -/

/-- A text without its sign, and whether the sign was a minus. -/
def splitSign (cs : List Char) : Bool × List Char :=
  match cs with
  | '-' :: rest => (true, rest)
  | '+' :: rest => (false, rest)
  | _ => (false, cs)

/-- An absolute value with its sign. -/
def signed (negative : Bool) (n : Nat) : Int := if negative then -n else n

/-- The number that digits with single underscores between them stand for.  `ready` says whether
    the last character was a digit. -/
def digitsFrom (value? : Char → Option Nat) (ready : Bool) (acc : Nat) : List Char → Option Nat
  | [] => if ready then some acc else none
  | c :: rest =>
    if c = '_' then if ready then digitsFrom value? false acc rest else none
    else
      match value? c with
      | some d => digitsFrom value? true (acc * 10 + d) rest
      | none => none

/-- The most digits of an integer that is read. -/
def maxDigits : Nat := 4300

/-- Why a text is not read as an integer. -/
inductive IntegerFlaw where
  | malformed
  /-- The text has more digits than are read. -/
  | tooLong (digits : Nat)
deriving DecidableEq, Repr

/-- The integer of a text with digits of any script and white space around it. -/
def integer (s : String) : Except IntegerFlaw Int :=
  let (negative, cs) := splitSign (Text.trimSpace s.toList)
  let run := cs.takeWhile fun c => c == '_' || Text.isDigit c
  match digitsFrom Text.digitValue? false 0 run with
  | none => .error .malformed
  | some n =>
    let count := run.countP (· != '_')
    if maxDigits < count then .error (.tooLong count)
    else if run.length = cs.length then .ok (signed negative n)
    else .error .malformed

/-- The text of too many digits. -/
def tooManyDigits (count : Nat) : String :=
  "Exceeds the limit (" ++ toString maxDigits ++
    " digits) for integer string conversion: value has " ++ toString count ++
    " digits; use sys.set_int_max_str_digits() to increase the limit"

/-- The text of a flaw; of the value that has it, at most 200 characters are shown. -/
def IntegerFlaw.message (value : String) : IntegerFlaw → String
  | malformed =>
    "invalid literal for int() with base 10: " ++
      String.ofList ((Text.display value).toList.take 200)
  | tooLong count => tooManyDigits count

/-- The number that ASCII digits stand for. -/
def asciiValue (cs : List Char) : Nat := cs.foldl (fun n c => n * 10 + (c.toNat - 48)) 0

/-- The text after some zeros, where underscores may stand between the zeros; what follows starts
    with a digit or a minus sign.  Zeros alone leave their last character, and a point keeps the
    character before it. -/
def dropZeros? (last : Char) : List Char → Option (List Char)
  | [] => some [last]
  | c :: rest =>
    if c = '0' ∨ c = '_' then dropZeros? c rest
    else if c = '.' then some (last :: c :: rest)
    else if Text.isAsciiDigit c ∨ c = '-' then some (c :: rest)
    else none

/-- A text that starts with a digit, without its leading zeros. -/
def significant? : List Char → Option (List Char)
  | [] => none
  | c :: rest =>
    if c = '0' then dropZeros? c rest
    else if Text.isAsciiDigit c then some (c :: rest)
    else none

/-- The text before a point that zeros follow, and nothing else. -/
def dropZeroFraction (cs : List Char) : List Char :=
  match cs.dropWhile (· != '.') with
  | _ :: '0' :: zeros => if zeros.all (· = '0') then cs.takeWhile (· != '.') else cs
  | _ => cs

/-- The text without its underscores, if each of them stands alone between other characters. -/
def dropUnderscores? (cs : List Char) : Option (List Char) :=
  if cs.head? = some '_' ∨ cs.getLast? = some '_' then none
  else if (Text.cut? ['_', '_'] cs).isSome then none
  else some (cs.filter (· != '_'))

/-- The digits of a text that starts with some, after a minus sign if there is one; none if the
    first of them is a zero. -/
def leadingDigits (cs : List Char) : List Char :=
  match (if cs.head? = some '-' then cs.tail else cs).takeWhile Text.isAsciiDigit with
  | '0' :: _ => []
  | digits => digits

/-- An integer in its plain spelling: digits without leading zeros, after a minus sign if it is
    negative. -/
def plainInteger? (cs : List Char) : Option Int :=
  let digits := leadingDigits cs
  if cs = ['0'] ∨ cs = ['-', '0'] then some 0
  else if digits = [] ∨ maxDigits < digits.length then none
  else if cs = digits then some (asciiValue digits)
  else if cs = '-' :: digits then some (-asciiValue digits)
  else none

/-- A text that may be an integer without what is needless in it: white space around it, a plus
    sign, leading zeros, single underscores between its digits, and a fraction of zeros. -/
def plainSpelling? (s : String) : Option (List Char) := do
  let (negative, body) := splitSign (Text.trimSpace s.toList)
  let digits := dropZeroFraction (← significant? body)
  let digits := (dropUnderscores? digits).getD digits
  some (if negative then '-' :: digits else digits)

/-- What a text that should be an integer is. -/
inductive PlainInteger where
  | value (i : Int)
  /-- The text starts with more digits than are read. -/
  | tooLong
  | malformed
deriving DecidableEq, Repr

/-- Reads a text with ASCII digits as an integer. -/
def PlainInteger.ofString (s : String) : PlainInteger :=
  if maxDigits < (leadingDigits s.toList).length then tooLong
  else
    match (plainSpelling? s).bind plainInteger? with
    | some i => value i
    | none => malformed

/-! ## Decimal numbers -/

/-- An exponent mark with its digits; an empty text is the exponent zero. -/
def exponentOf? (cs : List Char) : Option Int :=
  match cs with
  | [] => some 0
  | e :: rest =>
    if e = 'e' ∨ e = 'E' then
      let (negative, ds) := splitSign rest
      if ds.isEmpty || !ds.all Text.isAsciiDigit then none
      else some (signed negative (asciiValue ds))
    else none

/-- A number with digits before or after its point, and perhaps an exponent. -/
def unsignedDecimal? (negative : Bool) (cs : List Char) : Option Binary64 :=
  let whole := cs.takeWhile Text.isAsciiDigit
  let rest := cs.dropWhile Text.isAsciiDigit
  let (places, rest) : List Char × List Char :=
    match rest with
    | '.' :: r => (r.takeWhile Text.isAsciiDigit, r.dropWhile Text.isAsciiDigit)
    | _ => ([], rest)
  if whole.isEmpty && places.isEmpty then none
  else
    (exponentOf? rest).map fun e =>
      .ofDecimal negative (asciiValue (whole ++ places)) (e - places.length)

/-- A number, or a name of infinity or of no number in any case. -/
def decimalList? (cs : List Char) : Option Binary64 :=
  let (negative, body) := splitSign cs
  let word := String.ofList (body.map Text.asciiLower)
  if word = "inf" ∨ word = "infinity" then some (.infinity negative)
  else if word = "nan" then some (.nan none)
  else unsignedDecimal? negative body

/-- The number of a text, with white space around it or single underscores inside it. -/
def decimal? (s : String) : Option Binary64 :=
  match decimalList? (Text.trimSpace s.toList) with
  | some x => some x
  | none => (dropUnderscores? s.toList).bind decimalList?

/-! ## Truth values -/

/-- The truth value of a word, in any case. -/
def truth? (s : String) : Option Bool :=
  let word := String.ofList (s.toList.map Text.asciiLower)
  if ["0", "off", "f", "false", "n", "no"].contains word then some false
  else if ["1", "on", "t", "true", "y", "yes"].contains word then some true
  else none

end Schemata.Number
