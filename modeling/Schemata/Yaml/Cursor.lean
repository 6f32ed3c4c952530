/-
  Places in a YAML text.

  * A cursor is what remains of a text, with the number of characters before it, its line and its
    column; a byte order mark takes up no column;
  * a line ends with a line feed, a carriage return, both together, or one of the characters
    `U+0085`, `U+2028` and `U+2029`; `lineBreak?` tells what stands for its end;
  * `skipGap` goes on to the next thing that is no blank, no line end and no comment.
-/
import Schemata.Text.Class

namespace Schemata.Yaml

/-! ## Classes of characters -/

/-- One of the two separators `U+2028` and `U+2029`. -/
def isSeparator (c : Char) : Bool := c.toNat == 8232 || c.toNat == 8233

/-- A character that ends a line. -/
def isBreak (c : Char) : Bool := c == '\n' || c == '\r' || c.toNat == 133 || isSeparator c

/-- Whether a text is at its end or at the end of a line. -/
def atLineEnd (cs : List Char) : Bool := cs.head?.all isBreak

/-- Whether a text is at its end, at a blank or at the end of a line. -/
def atSpace (cs : List Char) : Bool := cs.head?.all fun c => c == ' ' || isBreak c

/-- Whether a text is at its end, at a blank, at a tab or at the end of a line. -/
def atGap (cs : List Char) : Bool := cs.head?.all fun c => c == ' ' || c == '\t' || isBreak c

/-- Whether a line of three equal marks, alone or before a gap, starts here. -/
def atMarks (c : Char) (cs : List Char) : Bool := [c, c, c].isPrefixOf cs && atGap (cs.drop 3)

/-- Whether a line that parts documents starts here. -/
def atDocumentMark (cs : List Char) : Bool := atMarks '-' cs || atMarks '.' cs

/-! ## Cursors -/

/-- What remains of a text, with the place of its start. -/
structure Cursor where
  /-- The number of characters before the place. -/
  index : Nat
  line : Nat
  column : Nat
  rest : List Char
deriving DecidableEq, Repr

namespace Cursor

/-- The start of a text. -/
def ofText (cs : List Char) : Cursor := ⟨0, 0, 0, cs⟩

/-- The cursor one character on. -/
def next (c : Cursor) : Cursor :=
  match c.rest with
  | [] => c
  | x :: rest =>
    if isBreak x && !(x == '\r' && rest.head? == some '\n') then ⟨c.index + 1, c.line + 1, 0, rest⟩
    else if x.toNat = 65279 then ⟨c.index + 1, c.line, c.column, rest⟩
    else ⟨c.index + 1, c.line, c.column + 1, rest⟩

/-- The cursor some characters on. -/
def drop (c : Cursor) : Nat → Cursor
  | 0 => c
  | n + 1 => c.next.drop n

/-- The characters of a class at a cursor, and the cursor after them. -/
def span (c : Cursor) (p : Char → Bool) : List Char × Cursor :=
  let cs := c.rest.takeWhile p
  (cs, c.drop cs.length)

/-- The cursor after the characters of a class. -/
def dropWhile (c : Cursor) (p : Char → Bool) : Cursor := (c.span p).2

/-- What stands for the line end at a cursor, and the cursor after it.  A separator stands for
    itself, any other end for a line feed. -/
def lineBreak? (c : Cursor) : Option (Char × Cursor) :=
  match c.rest with
  | '\r' :: '\n' :: _ => some ('\n', c.drop 2)
  | x :: _ => if isBreak x then some (if isSeparator x then x else '\n', c.next) else none
  | [] => none

/-- The cursor after the comment that may start at a cursor. -/
def skipComment (c : Cursor) : Cursor :=
  if c.rest.head? = some '#' then c.dropWhile fun x => !isBreak x else c

/-- The cursor at the next thing of the text, and whether a line ends before it.  `bound` is no
    shorter than the rest of the text. -/
def skipGapFrom (bound : List Char) (c : Cursor) : Cursor × Bool :=
  match bound with
  | [] => (c, false)
  | _ :: bound =>
    let c := (c.dropWhile (· == ' ')).skipComment
    match c.lineBreak? with
    | some (_, after) => ((skipGapFrom bound after).1, true)
    | none => (c, false)

/-- The cursor at the next thing of the text, and whether a line ends before it. -/
def skipGap (c : Cursor) : Cursor × Bool := skipGapFrom c.rest c

end Cursor

end Schemata.Yaml
