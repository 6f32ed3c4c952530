/-
  Writing JSON.  A style fixes the separators, whether characters beyond ASCII are escaped, and
  whether the items stand on lines of their own.

  * `Style.spaced` is the form with `", "` and `": "`, `Style.compact` the one without blanks, both
    in ASCII; `Style.indented` has two blanks of indentation and keeps characters as they are;
  * `write` is the text of a value in a style.
-/
import Schemata.Json.Value

namespace Schemata.Json

/-- How a value is laid out. -/
structure Style where
  /-- What stands between two items on one line. -/
  itemSeparator : String
  /-- What stands between a name and its value. -/
  nameSeparator : String
  /-- Whether characters beyond printable ASCII are escaped. -/
  asciiOnly : Bool
  /-- The indentation of a level, if the items stand on lines of their own. -/
  indent : Option Nat
deriving DecidableEq, Repr

/-- One line with blanks after commas and colons. -/
def Style.spaced : Style := ⟨", ", ": ", true, none⟩

/-- One line without blanks. -/
def Style.compact : Style := ⟨",", ":", true, none⟩

/-- A line for every item, indented by two blanks a level. -/
def Style.indented : Style := ⟨",", ": ", false, some 2⟩

/-! ## Strings -/

/-- The escape of a unit of 16 bits. -/
def unitEscape (n : Nat) : List Char := '\\' :: 'u' :: Text.hexDigits 4 n

/-- The escape of a character by one or two units of 16 bits. -/
def numericEscape (c : Char) : List Char :=
  let n := c.toNat
  if n < 65536 then unitEscape n
  else unitEscape (55296 + (n - 65536) / 1024) ++ unitEscape (56320 + (n - 65536) % 1024)

/-- A character inside a written string. -/
def stringChar (asciiOnly : Bool) (c : Char) : List Char :=
  if c = '"' ∨ c = '\\' then ['\\', c]
  else if c = '\n' then ['\\', 'n']
  else if c = '\r' then ['\\', 'r']
  else if c = '\t' then ['\\', 't']
  else if c.toNat = 8 then ['\\', 'b']
  else if c.toNat = 12 then ['\\', 'f']
  else if c.toNat < 32 ∨ (asciiOnly ∧ 126 < c.toNat) then numericEscape c
  else [c]

/-- A written string, quotes included. -/
def stringChars (asciiOnly : Bool) (s : String) : List Char :=
  '"' :: (s.toList.flatMap (stringChar asciiOnly) ++ ['"'])

/-! ## Values -/

/-- What opens the line of an item at a depth. -/
def lineBreak (style : Style) (depth : Nat) : List Char :=
  match style.indent with
  | none => []
  | some width => '\n' :: List.replicate (width * depth) ' '

/-- Items between two brackets. -/
def bracketed (style : Style) (opening closing : Char) (depth : Nat) (items : List (List Char)) :
    List Char :=
  if items.isEmpty then [opening, closing]
  else
    opening :: (lineBreak style (depth + 1) ++
      (style.itemSeparator.toList ++ lineBreak style (depth + 1)).intercalate items ++
      lineBreak style depth ++ [closing])

mutual

/-- The characters of a value at a depth. -/
def chars (style : Style) (depth : Nat) : Json → List Char
  | null => ['n', 'u', 'l', 'l']
  | bool b => if b then ['t', 'r', 'u', 'e'] else ['f', 'a', 'l', 's', 'e']
  | int i => (toString i).toList
  | float x => (x.textWith "Infinity" "NaN").toList
  | str s => stringChars style.asciiOnly s
  | arr items => bracketed style '[' ']' depth (itemChars style (depth + 1) items)
  | obj members =>
    bracketed style '\x7b' '\x7d' depth (memberChars style (depth + 1) members)

/-- The characters of each item. -/
def itemChars (style : Style) (depth : Nat) : List Json → List (List Char)
  | [] => []
  | v :: rest => chars style depth v :: itemChars style depth rest

/-- The characters of each member. -/
def memberChars (style : Style) (depth : Nat) : List (String × Json) → List (List Char)
  | [] => []
  | (k, v) :: rest =>
    (stringChars style.asciiOnly k ++ style.nameSeparator.toList ++ chars style depth v) ::
      memberChars style depth rest

end

/-- The text of a value. -/
def write (style : Style) (v : Json) : String := String.ofList (chars style 0 v)

end Schemata.Json
