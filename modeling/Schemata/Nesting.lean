/-
  Scanning text by its quotes and parentheses.  A character counts when it stands outside single and
  double quotes and is no quote itself.

  * `splitBy` and `splitTopLevel` split a text at separators outside all parentheses;
  * `parenthetical?` is the group that opens at an offset, with the offset of its end;
  * `leadingIdentifier` splits off a leading name.
-/
import Schemata.Text.Blank
import Schemata.Text.Search

namespace Schemata.Nesting

/-! ## Quotes -/

/-- Which quotes a place stands in. -/
inductive Quotes where
  | outside
  | single
  | double
deriving DecidableEq, Repr

/-- The quotes after a character. -/
def Quotes.next : Quotes → Char → Quotes
  | outside, c => if c = '\'' then single else if c = '"' then double else outside
  | single, c => if c = '\'' then outside else single
  | double, c => if c = '"' then outside else double

/-- Whether a character counts at a place. -/
def Quotes.counts (q : Quotes) (c : Char) : Bool := q == outside && c != '\'' && c != '"'

/-- The quotes after a text. -/
def Quotes.after (q : Quotes) (cs : List Char) : Quotes := cs.foldl Quotes.next q

/-! ## Splitting -/

/-- The pieces of a text between the separators at depth zero; `depth` counts the parentheses that
    are open before the text. -/
def piecesFrom (isSeparator : Char → Bool) (q : Quotes) (depth : Int) :
    List Char → List (List Char)
  | [] => [[]]
  | c :: cs =>
    if q.counts c && c != '(' && c != ')' && isSeparator c && depth == 0 then
      [] :: piecesFrom isSeparator q depth cs
    else
      let depth :=
        if !q.counts c then depth
        else if c = '(' then depth + 1
        else if c = ')' then depth - 1
        else depth
      Text.consFirst c (piecesFrom isSeparator (q.next c) depth cs)

/-- The trimmed, non-empty items of a text. -/
def splitList (isSeparator : Char → Bool) (cs : List Char) : List (List Char) :=
  ((piecesFrom isSeparator .outside 0 cs).map Text.trim).filter (! ·.isEmpty)

/-- The trimmed, non-empty items of a string between the characters of a class. -/
def splitBy (isSeparator : Char → Bool) (s : String) : List String :=
  (splitList isSeparator s.toList).map String.ofList

/-- The trimmed, non-empty items of a string between separators. -/
def splitTopLevel (separator : Char) (s : String) : List String := splitBy (· == separator) s

/-- The statements of a text without comments. -/
def splitStatements (s : String) : List String := splitTopLevel ';' s

/-! ## Groups -/

/-- The number of characters before the parenthesis that closes the outermost open one; `depth`
    counts those that are open. -/
def closing? (q : Quotes) (depth : Int) : List Char → Option Nat
  | [] => none
  | c :: cs =>
    if q.counts c && c == ')' && depth == 1 then some 0
    else
      let depth :=
        if !q.counts c then depth
        else if c = '(' then depth + 1
        else if c = ')' then depth - 1
        else depth
      (closing? (q.next c) depth cs).map (· + 1)

/-- The content of the group that opens at an offset, and the offset of its closing parenthesis. -/
def groupAt? (cs : List Char) (start : Nat) : Option (List Char × Nat) :=
  if cs[start]? = some '(' then
    let before := cs.take start
    let rest := cs.drop start
    (closing? (Quotes.after .outside before) 0 rest).map fun n =>
      ((rest.take n).drop 1, start + n)
  else none

/-- The content of the group that opens at an offset, and the offset of its closing parenthesis. -/
def parenthetical? (s : String) (start : Int) : Option (String × Nat) :=
  if start < 0 then none
  else (groupAt? s.toList start.toNat).map fun (content, stop) => (String.ofList content, stop)

/-! ## Leading names -/

/-- The text up to the first blank or opening parenthesis that counts, and the rest. -/
def spanName (q : Quotes) : List Char → List Char × List Char
  | [] => ([], [])
  | c :: cs =>
    if q.counts c && (Text.isBlank c || c == '(') then ([], c :: cs)
    else
      let (name, rest) := spanName (q.next c) cs
      (c :: name, rest)

/-- A leading name, quoted or qualified as it may be, and the rest, both trimmed. -/
def leadingIdentifier (s : String) : String × String :=
  let (name, rest) := spanName .outside (Text.trimStart s.toList)
  (String.ofList (Text.trim name), String.ofList (Text.trim rest))

end Schemata.Nesting
