/-
  Strings shown with their quotes inside messages.  The quote is a single one unless the text holds
  single quotes and no double ones; the quote in use, backslashes and unprintable characters are
  escaped, by `\n`, `\r`, `\t` or by the shortest of `\xHH`, `\uHHHH` and `\UHHHHHHHH`.
-/
import Schemata.Text.Class

namespace Schemata.Text

/-- The low `width` hexadecimal digits of a number, in lower case. -/
def hexDigits : (width : Nat) → Nat → List Char
  | 0, _ => []
  | width + 1, n => hexDigits width (n / 16) ++ [Nat.digitChar (n % 16)]

/-- The quote that a text is shown in. -/
def displayQuote (cs : List Char) : Char :=
  if cs.contains '\'' && !cs.contains '"' then '"' else '\''

/-- One character as it is shown between two quotes `q`. -/
def displayChar (q c : Char) : List Char :=
  if c = q ∨ c = '\\' then ['\\', c]
  else if c = '\n' then ['\\', 'n']
  else if c = '\r' then ['\\', 'r']
  else if c = '\t' then ['\\', 't']
  else if isPrintable c then [c]
  else if c.toNat < 256 then '\\' :: 'x' :: hexDigits 2 c.toNat
  else if c.toNat < 65536 then '\\' :: 'u' :: hexDigits 4 c.toNat
  else '\\' :: 'U' :: hexDigits 8 c.toNat

/-- A string as it is shown, quotes included. -/
def display (s : String) : String :=
  let q := displayQuote s.toList
  String.ofList (q :: (s.toList.flatMap (displayChar q) ++ [q]))

/-- A list of strings as it is shown: `['a', "it's"]`. -/
def displayList (items : List String) : String :=
  "[" ++ ", ".intercalate (items.map display) ++ "]"

end Schemata.Text
