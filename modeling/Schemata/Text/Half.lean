/-
  Halves of characters.  A text may name a unit of 16 bits that is only half a character; in its
  place stands a character for private use, `U+10D800` to `U+10DFFF`, so that the halves are told
  apart.

  * `ofUnit` is the stand-in of a unit, `unit?` the unit of a stand-in;
  * `join` puts a character in the place of its two halves where they stand next to each other;
  * `display` is a string with its quotes inside a message;
  * `mayName` is whether a text has an escape for a half at all: otherwise what looks like a stand-in
    is a character of its own;
  * `run?` is the first run of halves in a text: such a text has no encoding.
-/
import Schemata.Text.Display

namespace Schemata.Text.Half

/-- Whether a unit is half a character. -/
def isHalf (n : Nat) : Bool := 55296 ≤ n && n ≤ 57343

/-- The character of a number; half a character has a stand-in. -/
def ofUnit (n : Nat) : Char := if isHalf n then Char.ofNat (n + 1048576) else Char.ofNat n

/-- The unit that a character stands in for. -/
def unit? (c : Char) : Option Nat :=
  if isHalf (c.toNat - 1048576) then some (c.toNat - 1048576) else none

/-- The character of two units, if they are its first and its second half. -/
def pair? (first second : Nat) : Option Char :=
  if 55296 ≤ first ∧ first ≤ 56319 ∧ 56320 ≤ second ∧ second ≤ 57343 then
    some (Char.ofNat (65536 + (first - 55296) * 1024 + (second - 56320)))
  else none

/-- Whether a text may name half a character: a backslash, not escaped itself, stands before `U`, or
    before `u` and a digit that halves begin with. -/
def mayName : List Char → Bool
  | '\\' :: c :: rest =>
    c == 'U' || (c == 'u' && rest.head?.any fun d => d == 'd' || d == 'D') || mayName rest
  | _ :: rest => mayName rest
  | [] => false

/-- The text with every two halves that belong together as one character. -/
def join : List Char → List Char
  | c :: d :: rest =>
    match (do pair? (← unit? c) (← unit? d)) with
    | some e => e :: join rest
    | none => c :: join (d :: rest)
  | cs => cs

/-- A string as it is shown, quotes included; a half is shown by its unit. -/
def display (s : String) : String :=
  let q := displayQuote s.toList
  let one (c : Char) : List Char :=
    match unit? c with
    | some u => '\\' :: 'u' :: hexDigits 4 u
    | none => displayChar q c
  String.ofList (q :: (s.toList.flatMap one ++ [q]))

/-- A run of halves in a text: their units, and the number of characters before them. -/
structure Run where
  offset : Nat
  units : List Nat
deriving DecidableEq, Repr

/-- The first run of halves in a text. -/
def run? (cs : List Char) : Option Run :=
  let before := cs.takeWhile fun c => (unit? c).isNone
  let halves := (cs.drop before.length).takeWhile fun c => (unit? c).isSome
  if halves.isEmpty then none else some ⟨before.length, halves.filterMap unit?⟩

/-- The text of the error that a run is. -/
def Run.message (r : Run) : String :=
  let place := match r.units with
    | [u] =>
      "character '\\u" ++ String.ofList (hexDigits 4 u) ++ "' in position " ++ toString r.offset
    | us =>
      "characters in position " ++ toString r.offset ++ "-" ++
        toString (r.offset + us.length - 1)
  "'utf-8' codec can't encode " ++ place ++ ": surrogates not allowed"

end Schemata.Text.Half
