/-
  Reading JSON.  The grammar is the usual one with three more words, `NaN`, `Infinity` and
  `-Infinity`.  Strings hold no bare control character; integers have any size; of a repeated name
  the last value stays, at the place of the first.

  * `read` is the value of a text, or the fault that it has, with the place where the fault shows;
  * `ReadFault.message` is the text of a fault.
-/
import Schemata.Json.Value
import Schemata.Number.Reading

namespace Schemata.Json

/-! ## Faults -/

/-- What can be wrong with a text. -/
inductive Flaw where
  | noValue
  | noName
  | noColon
  | noComma
  | openString
  | controlCharacter
  | badEscape
  | badUnit
  | extraText
  /-- The text starts with a byte order mark. -/
  | byteOrderMark
  /-- An integer has more digits than are read. -/
  | tooManyDigits (count : Nat)
deriving DecidableEq, Repr

/-- The words for a flaw. -/
def Flaw.words : Flaw → String
  | noValue => "Expecting value"
  | noName => "Expecting property name enclosed in double quotes"
  | noColon => "Expecting ':' delimiter"
  | noComma => "Expecting ',' delimiter"
  | openString => "Unterminated string starting at"
  | controlCharacter => "Invalid control character at"
  | badEscape => "Invalid \\escape"
  | badUnit => "Invalid \\uXXXX escape"
  | extraText => "Extra data"
  | byteOrderMark => "Unexpected UTF-8 BOM (decode using utf-8-sig)"
  | tooManyDigits count => Number.tooManyDigits count

/-- A flaw and the number of characters from it to the end of the text. -/
structure Flawed where
  flaw : Flaw
  remaining : Nat
deriving DecidableEq, Repr

/-- The fault of a text: a flaw at an offset, on a line and in a column. -/
structure ReadFault where
  flaw : Flaw
  offset : Nat
  line : Nat
  column : Nat
deriving DecidableEq, Repr

/-- The place of a flaw in its text. -/
def Flawed.locate (f : Flawed) (cs : List Char) : ReadFault :=
  let before := cs.take (cs.length - f.remaining)
  let lines := before.filter (· == '\n')
  let current := before.reverse.takeWhile (· != '\n')
  ⟨f.flaw, before.length, lines.length + 1, current.length + 1⟩

/-- Whether the text of a flaw names its place. -/
def Flaw.isPlaced : Flaw → Bool
  | tooManyDigits _ => false
  | _ => true

/-- The text of a fault. -/
def ReadFault.message (f : ReadFault) : String :=
  if !f.flaw.isPlaced then f.flaw.words else
  f.flaw.words ++ ": line " ++ toString f.line ++ " column " ++ toString f.column ++
    " (char " ++ toString f.offset ++ ")"

/-! ## Strings -/

/-- The value of a hexadecimal digit. -/
def hexValue? (c : Char) : Option Nat :=
  let n := c.toNat
  if 48 ≤ n ∧ n ≤ 57 then some (n - 48)
  else if 97 ≤ n ∧ n ≤ 102 then some (n - 87)
  else if 65 ≤ n ∧ n ≤ 70 then some (n - 55)
  else none

/-- The number that four hexadecimal digits stand for. -/
def unitValue? (a b c d : Char) : Option Nat := do
  let a ← hexValue? a
  let b ← hexValue? b
  let c ← hexValue? c
  let d ← hexValue? d
  return ((a * 16 + b) * 16 + c) * 16 + d

/-- The character that a short escape stands for. -/
def shortEscape? : Char → Option Char
  | '"' => some '"'
  | '\\' => some '\\'
  | '/' => some '/'
  | 'b' => some (Char.ofNat 8)
  | 'f' => some (Char.ofNat 12)
  | 'n' => some '\n'
  | 'r' => some '\r'
  | 't' => some '\t'
  | _ => none

/-- Whether a unit is the first of a pair. -/
def isHighUnit (n : Nat) : Bool := 55296 ≤ n && n ≤ 56319

/-- Whether a unit is the second of a pair. -/
def isLowUnit (n : Nat) : Bool := 56320 ≤ n && n ≤ 57343

/-- The character of one unit; half a pair has none of its own. -/
def unitChar (n : Nat) : Char := if 55296 ≤ n ∧ n ≤ 57343 then Char.ofNat 65533 else Char.ofNat n

/-- The character of a pair of units. -/
def pairChar (high low : Nat) : Char :=
  Char.ofNat (65536 + (high - 55296) * 1024 + (low - 56320))

/-- The characters of a string up to its closing quote, and what follows the quote.  `start` is the
    text from the opening quote on, `acc` what was read, in reverse. -/
def stringTail (start acc : List Char) : List Char → Except Flawed (List Char × List Char)
  | [] => .error ⟨.openString, start.length⟩
  | '"' :: rest => .ok (acc.reverse, rest)
  | '\\' :: 'u' :: a :: b :: c :: d :: '\\' :: 'u' :: e :: f :: g :: h :: rest =>
    match unitValue? a b c d with
    | none => .error ⟨.badUnit, rest.length + 11⟩
    | some n =>
      match unitValue? e f g h with
      | some m =>
        if isHighUnit n && isLowUnit m then stringTail start (pairChar n m :: acc) rest
        else stringTail start (unitChar n :: acc) ('\\' :: 'u' :: e :: f :: g :: h :: rest)
      | none => stringTail start (unitChar n :: acc) ('\\' :: 'u' :: e :: f :: g :: h :: rest)
  | '\\' :: 'u' :: a :: b :: c :: d :: rest =>
    match unitValue? a b c d with
    | none => .error ⟨.badUnit, rest.length + 5⟩
    | some n => stringTail start (unitChar n :: acc) rest
  | '\\' :: c :: rest =>
    if c = 'u' then .error ⟨.badUnit, rest.length + 1⟩
    else
      match shortEscape? c with
      | some e => stringTail start (e :: acc) rest
      | none => .error ⟨.badEscape, rest.length + 2⟩
  | ['\\'] => .error ⟨.openString, start.length⟩
  | c :: rest =>
    if c.toNat < 32 then .error ⟨.controlCharacter, rest.length + 1⟩
    else stringTail start (c :: acc) rest

/-! ## Numbers and words -/

/-- The white space between the parts of a value. -/
def isGap (c : Char) : Bool := c == ' ' || c == '\t' || c == '\n' || c == '\r'

/-- The text without leading white space. -/
def skipGap (cs : List Char) : List Char := cs.dropWhile isGap

/-- The digits at the start of a text, and the rest. -/
def spanDigits (cs : List Char) : List Char × List Char := cs.span Text.isAsciiDigit

/-- The digits of a fraction after its point, and the rest. -/
def fraction (cs : List Char) : List Char × List Char :=
  match cs with
  | '.' :: rest =>
    let (ds, rest') := spanDigits rest
    if ds.isEmpty then ([], cs) else (ds, rest')
  | _ => ([], cs)

/-- The value of an exponent, and the rest. -/
def exponent? (cs : List Char) : Option (Int × List Char) :=
  match cs with
  | e :: rest =>
    if e = 'e' ∨ e = 'E' then
      let (negative, rest) : Bool × List Char :=
        match rest with
        | '-' :: r => (true, r)
        | '+' :: r => (false, r)
        | r => (false, r)
      let (ds, rest') := spanDigits rest
      if ds.isEmpty then none
      else
        let n : Int := Number.asciiValue ds
        some (if negative then -n else n, rest')
    else none
  | [] => none

/-- A whole number, unless it has more digits than are read. -/
def wholeNumber (start : List Char) (negative : Bool) (digits : List Char) : Except Flawed Json :=
  if Number.maxDigits < digits.length then .error ⟨.tooManyDigits digits.length, start.length⟩
  else .ok (.int (Number.signed negative (Number.asciiValue digits)))

/-- A number without its sign, and the rest.  `start` is the text from the value on. -/
def number (start : List Char) (negative : Bool) (cs : List Char) :
    Except Flawed (Json × List Char) :=
  let (whole, rest) : List Char × List Char :=
    match cs with
    | '0' :: rest => (['0'], rest)
    | _ => spanDigits cs
  if whole.isEmpty then .error ⟨.noValue, start.length⟩
  else
    let (places, rest) := fraction rest
    match exponent? rest with
    | some (e, rest) =>
      let digits := Number.asciiValue (whole ++ places)
      .ok (.float (.ofDecimal negative digits (e - places.length)), rest)
    | none =>
      if places.isEmpty then (wholeNumber start negative whole).map fun v => (v, rest)
      else
        let digits := Number.asciiValue (whole ++ places)
        .ok (.float (.ofDecimal negative digits (-places.length)), rest)

/-- A word or a number at the start of a text, and the rest. -/
def scalar (cs : List Char) : Except Flawed (Json × List Char) :=
  match cs with
  | 'n' :: 'u' :: 'l' :: 'l' :: rest => .ok (.null, rest)
  | 't' :: 'r' :: 'u' :: 'e' :: rest => .ok (.bool true, rest)
  | 'f' :: 'a' :: 'l' :: 's' :: 'e' :: rest => .ok (.bool false, rest)
  | 'N' :: 'a' :: 'N' :: rest => .ok (.float (.nan (some 0)), rest)
  | 'I' :: 'n' :: 'f' :: 'i' :: 'n' :: 'i' :: 't' :: 'y' :: rest =>
    .ok (.float (.infinity false), rest)
  | '-' :: 'I' :: 'n' :: 'f' :: 'i' :: 'n' :: 'i' :: 't' :: 'y' :: rest =>
    .ok (.float (.infinity true), rest)
  | '-' :: rest => number cs true rest
  | _ => number cs false cs

/-! ## Values -/

mutual

/-- The value at the start of a text, and the rest.  Every second step down takes at least a
    character, so twice the length of the text bounds the depth. -/
def value (fuel : Nat) (cs : List Char) : Except Flawed (Json × List Char) :=
  match fuel with
  | 0 => .error ⟨.noValue, cs.length⟩
  | fuel + 1 =>
    match cs with
    | '"' :: rest => do
      let (s, rest) ← stringTail cs [] rest
      return (.str (String.ofList s), rest)
    | '[' :: rest =>
      match skipGap rest with
      | ']' :: rest => .ok (.arr [], rest)
      | rest => elements fuel [] rest
    | '\x7b' :: rest =>
      match skipGap rest with
      | '\x7d' :: rest => .ok (.obj [], rest)
      | rest => membersFrom fuel [] rest
    | _ => scalar cs

/-- The items of an array from the next one on, after those of `acc` in reverse. -/
def elements (fuel : Nat) (acc : List Json) (cs : List Char) :
    Except Flawed (Json × List Char) :=
  match fuel with
  | 0 => .error ⟨.noValue, cs.length⟩
  | fuel + 1 =>
    match value fuel cs with
    | .error f => .error f
    | .ok (v, rest) =>
      match skipGap rest with
      | ']' :: rest => .ok (.arr (v :: acc).reverse, rest)
      | ',' :: rest => elements fuel (v :: acc) (skipGap rest)
      | rest => .error ⟨.noComma, rest.length⟩

/-- The members of an object from the next one on, after those of `acc`. -/
def membersFrom (fuel : Nat) (acc : List (String × Json)) (cs : List Char) :
    Except Flawed (Json × List Char) :=
  match fuel with
  | 0 => .error ⟨.noName, cs.length⟩
  | fuel + 1 =>
    match cs with
    | '"' :: rest =>
      match stringTail cs [] rest with
      | .error f => .error f
      | .ok (k, rest) =>
        match skipGap rest with
        | ':' :: rest =>
          match value fuel (skipGap rest) with
          | .error f => .error f
          | .ok (v, rest) =>
            let acc := OrderedMap.put (String.ofList k) v acc
            match skipGap rest with
            | '\x7d' :: rest => .ok (.obj acc, rest)
            | ',' :: rest => membersFrom fuel acc (skipGap rest)
            | rest => .error ⟨.noComma, rest.length⟩
        | rest => .error ⟨.noColon, rest.length⟩
    | _ => .error ⟨.noName, cs.length⟩

end

/-- The value of a whole text. -/
def readList (cs : List Char) : Except Flawed Json :=
  if cs.head? == some '\ufeff' then .error ⟨.byteOrderMark, cs.length⟩ else
  match value (2 * cs.length + 2) (skipGap cs) with
  | .error f => .error f
  | .ok (v, rest) =>
    match skipGap rest with
    | [] => .ok v
    | rest => .error ⟨.extraText, rest.length⟩

/-- The value of a text, or its fault. -/
def read (s : String) : Except ReadFault Json :=
  let cs := s.toList
  (readList cs).mapError fun f => f.locate cs

end Schemata.Json
