/-
  Scalars as they are written: without quotes where the text reads back as it is, between single
  quotes where it needs no escapes, and between double quotes otherwise.

  * `Style.ofText` is the style of a text;
  * `scalarText` is the written scalar; where it may be split, a line that is full is continued on
    the next one at a single blank, or anywhere behind a backslash between double quotes.
-/
import Schemata.Text.Search
import Schemata.Yaml.Cursor
import Schemata.Yaml.Scalar

namespace Schemata.Yaml

/-! ## Styles -/

/-- A style of a scalar. -/
inductive Style where
  | plain
  | single
  | double
deriving DecidableEq, Repr

/-- A character beyond ASCII that is written as it is outside double quotes. -/
def isWide (c : Char) : Bool :=
  let n := c.toNat
  n == 133 || (160 ≤ n && n ≤ 65533 && n != 65279) || (65536 ≤ n && n < 1114111)

/-- A character that is written as it is outside double quotes. -/
def isShown (c : Char) : Bool := c == '\n' || (' ' ≤ c && c ≤ '~') || isWide c

/-- A character that a written line ends with. -/
def isWrittenBreak (c : Char) : Bool := isBreak c && c != '\r'

/-- Whether two characters of some classes stand next to each other. -/
def hasPair (p q : Char → Bool) : List Char → Bool
  | c :: d :: cs => (p c && q d) || hasPair p q (d :: cs)
  | _ => false

/-- Whether a mark in a text, not at its start, keeps it from being plain.  `afterGap` says whether
    a gap stands before the text. -/
def hasInnerMark (afterGap : Bool) : List Char → Bool
  | [] => false
  | c :: cs => (c == ':' && atGap cs) || (c == '#' && afterGap) || hasInnerMark (atGap [c]) cs

/-- Whether a text looks like something else than a plain scalar. -/
def hasMark (cs : List Char) : Bool :=
  ['-', '-', '-'].isPrefixOf cs || ['.', '.', '.'].isPrefixOf cs ||
    match cs with
    | [] => false
    | c :: rest =>
      "#,[]\x7b\x7d&*!|>'\"%@\x60".toList.contains c ||
        (['?', ':', '-'].contains c && atGap rest) || hasInnerMark (atGap [c]) rest

/-- Whether a text has a line end. -/
def isMultiline (cs : List Char) : Bool := cs.any isWrittenBreak

/-- Whether a text needs double quotes: it has a blank next to a line end, or a character that is
    written as an escape. -/
def needsEscapes (cs : List Char) : Bool :=
  cs.any (fun c => !isShown c) || hasPair (· == ' ') isWrittenBreak cs ||
    hasPair isWrittenBreak (· == ' ') cs

/-- The style of a text. -/
def Style.ofText (s : String) : Style :=
  let cs := s.toList
  if needsEscapes cs then .double
  else if Kind.ofText s != .str || isMultiline cs || hasMark cs || cs.head? == some ' ' ||
      cs.getLast? == some ' ' then .single
  else .plain

/-! ## Lines -/

/-- The column after which a line is full. -/
def lineWidth : Nat := 80

/-- Blanks up to a column. -/
def blanks (n : Nat) : List Char := List.replicate n ' '

/-- A further line, indented. -/
def newLine (indent : Nat) : List Char := '\n' :: blanks indent

/-- A part of a text: blanks, line ends, or neither. -/
inductive Part where
  | blanks (count : Nat)
  | breaks (ends : List Char)
  | word (cs : List Char)
deriving DecidableEq, Repr

/-- A text before some parts. -/
def Part.cons (c : Char) (parts : List Part) : List Part :=
  if c == ' ' then
    match parts with
    | .blanks n :: rest => .blanks (n + 1) :: rest
    | _ => .blanks 1 :: parts
  else if isWrittenBreak c then
    match parts with
    | .breaks ends :: rest => .breaks (c :: ends) :: rest
    | _ => .breaks [c] :: parts
  else
    match parts with
    | .word cs :: rest => .word (c :: cs) :: rest
    | _ => .word [c] :: parts

/-- The parts of a text, each as long as possible. -/
def Part.ofText : List Char → List Part
  | [] => []
  | c :: cs => Part.cons c (Part.ofText cs)

/-- The parts of a scalar that starts at a column.  A blank between two parts is a new line where
    the line is full and the scalar may be split; line ends stand for one more than themselves. -/
def partsText (split : Bool) (indent : Nat) (isFirst : Bool) (column : Nat) :
    List Part → List Char
  | [] => []
  | .blanks n :: rest =>
    if n = 1 ∧ lineWidth < column ∧ split ∧ !isFirst ∧ !rest.isEmpty then
      newLine indent ++ partsText split indent false indent rest
    else blanks n ++ partsText split indent false (column + n) rest
  | .breaks ends :: rest =>
    (if ends.head? = some '\n' then ['\n'] else []) ++ ends ++ blanks indent ++
      partsText split indent false indent rest
  | .word cs :: rest => cs ++ partsText split indent false (column + cs.length) rest

/-! ## Double quotes -/

/-- A character that is written as it is between double quotes. -/
def isPlainInQuotes (c : Char) : Bool :=
  let n := c.toNat
  c != '"' && c != '\\' && !isSeparator c && n != 65279 &&
    ((32 ≤ n && n ≤ 126) || (160 ≤ n && n ≤ 65533))

/-- The letter of the short escape of a character. -/
def escapeLetter? (c : Char) : Option Char :=
  match c.toNat with
  | 0 => some '0'
  | 7 => some 'a'
  | 8 => some 'b'
  | 9 => some 't'
  | 10 => some 'n'
  | 11 => some 'v'
  | 12 => some 'f'
  | 13 => some 'r'
  | 27 => some 'e'
  | 34 => some '"'
  | 92 => some '\\'
  | 133 => some 'N'
  | 160 => some '_'
  | 8232 => some 'L'
  | 8233 => some 'P'
  | _ => none

/-- Hexadecimal digits in upper case. -/
def upperHex (width n : Nat) : List Char := (Text.hexDigits width n).map Char.toUpper

/-- A character as an escape. -/
def escapeText (c : Char) : List Char :=
  let n := c.toNat
  match escapeLetter? c with
  | some e => ['\\', e]
  | none =>
    if n ≤ 255 then '\\' :: 'x' :: upperHex 2 n
    else if n ≤ 65535 then '\\' :: 'u' :: upperHex 4 n
    else '\\' :: 'U' :: upperHex 8 n

/-- The inside of a scalar between double quotes.  `column` is where the line stands without the
    `pending` characters, of which there are none after an escape. -/
def escapedFrom (split : Bool) (indent column pending : Nat) (isFirst : Bool) :
    List Char → List Char
  | [] => []
  | c :: rest =>
    let mayBreak := split && !isFirst && !rest.isEmpty
    if isPlainInQuotes c then
      if mayBreak && (c == ' ' || pending == 0) && lineWidth < column + pending then
        let escape := if c == ' ' then ['\\'] else []
        '\\' :: (newLine indent ++ escape ++
          c :: escapedFrom split indent (indent + escape.length) 1 false rest)
      else c :: escapedFrom split indent column (pending + 1) false rest
    else
      let e := escapeText c
      let column := column + pending + e.length
      if mayBreak && lineWidth < column - 1 then
        let escape := if rest.head? == some ' ' then ['\\'] else []
        e ++ '\\' :: (newLine indent ++ escape ++
          escapedFrom split indent (indent + escape.length) 0 false rest)
      else e ++ escapedFrom split indent column 0 false rest

/-! ## Scalars -/

/-- A text as a scalar that starts at a column; its further lines are indented. -/
def scalarText (split : Bool) (indent column : Nat) (s : String) : List Char :=
  let cs := s.toList
  match Style.ofText s with
  | .plain => partsText split indent false column (Part.ofText cs)
  | .single =>
    let quoted := (Part.ofText cs).map fun
      | .word w => Part.word (Text.double '\'' w)
      | p => p
    '\'' :: (partsText split indent true (column + 1) quoted ++ ['\''])
  | .double => '"' :: (escapedFrom split indent (column + 1) 0 true cs ++ ['"'])

/-- Whether a text may be a key on one line with its value. -/
def isSimpleKey (s : String) : Bool :=
  !s.isEmpty && !isMultiline s.toList && decide (s.length < 123)

end Schemata.Yaml
