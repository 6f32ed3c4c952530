/-
  The pieces of a YAML text: its scalars, marks and properties, with further pieces where a block
  collection starts or ends.

  * Indentation opens and closes block collections.  A key without a mark of its own is known only
    from the colon after it: places where a key could start are remembered, on one line and for at
    most 1024 characters, and the pieces for the key are put there afterwards;
  * `Piece.ofText` lists the pieces of a text.
-/
import Schemata.Yaml.BlockScalar
import Schemata.Yaml.PlainScalar

namespace Schemata.Yaml

/-- A piece of a text. -/
inductive Piece where
  /-- A prefix for tags. -/
  | tagPrefix (handle meaning : String)
  /-- Another directive. -/
  | directive
  | documentStart
  | documentEnd
  | blockSequence
  | blockMapping
  | blockEnd
  | flowSequence
  | flowSequenceEnd
  | flowMapping
  | flowMappingEnd
  | comma
  | dash
  | key
  | value
  | alias (name : String)
  | anchor (name : String)
  /-- A tag; without a handle its suffix is the whole of it. -/
  | tag (handle : Option String) (suffix : String)
  | scalar (isPlain : Bool) (text : String)
deriving DecidableEq, Repr

/-! ## Scanning -/

/-- A place where a key could start. -/
structure KeyPlace where
  /-- The number of pieces before it. -/
  count : Nat
  /-- Whether there must be a key. -/
  required : Bool
  index : Nat
  line : Nat
  column : Nat

/-- The state of a scan. -/
structure Scan where
  cursor : Cursor
  pieces : Array Piece := #[]
  /-- How many flow collections are open. -/
  flow : Nat := 0
  /-- The column of the innermost open block collection. -/
  indent : Int := -1
  /-- The columns of the block collections around it. -/
  outer : List Int := []
  /-- Whether a key may start at the next piece. -/
  keyAllowed : Bool := true
  /-- The last place where a key could start, by the number of open flow collections. -/
  places : List (Nat × KeyPlace) := []

namespace Scan

/-- The scan with a further piece. -/
def add (s : Scan) (p : Piece) : Scan := { s with pieces := s.pieces.push p }

/-- The scan with a piece that takes some characters. -/
def take (s : Scan) (n : Nat) (p : Piece) : Scan := { s.add p with cursor := s.cursor.drop n }

/-- Gives up the place for a key in the innermost flow collection. -/
def dropPlace (s : Scan) : Except Problem Scan :=
  match s.places.lookup s.flow with
  | some p =>
    if p.required then .error .form
    else .ok { s with places := s.places.filter fun e => e.1 != s.flow }
  | none => .ok s

/-- Remembers the cursor as a place for a key, if one may start there. -/
def addPlace (s : Scan) : Except Problem Scan :=
  if s.keyAllowed then do
    let s ← s.dropPlace
    let place : KeyPlace :=
      { count := s.pieces.size, required := s.flow = 0 && s.indent = s.cursor.column
        index := s.cursor.index, line := s.cursor.line, column := s.cursor.column }
    return { s with places := (s.flow, place) :: s.places }
  else .ok s

/-- Gives up the places for keys that are on another line or too far back. -/
def dropStale (s : Scan) : Except Problem Scan :=
  let isStale := fun (e : Nat × KeyPlace) =>
    e.2.line != s.cursor.line || decide (1024 < s.cursor.index - e.2.index)
  if s.places.any fun e => isStale e && e.2.required then .error .form
  else .ok { s with places := s.places.filter fun e => !isStale e }

/-- Closes the block collections that are indented more than a column. -/
def closeBlocks (column indent : Int) : List Int → Array Piece → Array Piece × Int × List Int
  | [], pieces => (pieces, indent, [])
  | i :: outer, pieces =>
    if column < indent then closeBlocks column i outer (pieces.push .blockEnd)
    else (pieces, indent, i :: outer)

/-- The scan with the block collections closed that are indented more than a column; inside a flow
    collection indentation does not count. -/
def unindent (s : Scan) (column : Int) : Scan :=
  if s.flow = 0 then
    let (pieces, indent, outer) := closeBlocks column s.indent s.outer s.pieces
    { s with pieces, indent, outer }
  else s

/-- Whether a block collection can be opened at a column. -/
def canIndent (s : Scan) (column : Nat) : Bool := decide (s.indent < column)

/-- The scan with a block collection opened at a column, its piece after `count` others, if it can
    be. -/
def openBlock (s : Scan) (column count : Nat) (p : Piece) : Scan :=
  if s.canIndent column then
    { s with pieces := s.pieces.insertIdxIfInBounds count p, outer := s.indent :: s.outer
             indent := column }
  else s

/-! ### Marks -/

/-- A mark that opens a flow collection. -/
def openFlow (s : Scan) (p : Piece) : Except Problem Scan := do
  let s ← s.addPlace
  return { s.take 1 p with flow := s.flow + 1, keyAllowed := true }

/-- A mark that closes a flow collection. -/
def closeFlow (s : Scan) (p : Piece) : Except Problem Scan := do
  let s ← s.dropPlace
  if s.flow = 0 then .error .form
  else return { s.take 1 p with flow := s.flow - 1, keyAllowed := false }

/-- A comma. -/
def comma (s : Scan) : Except Problem Scan := do
  let s ← { s with keyAllowed := true }.dropPlace
  return s.take 1 .comma

/-- A dash before an item. -/
def dash (s : Scan) : Except Problem Scan := do
  if s.flow = 0 && !s.keyAllowed then .error .form
  else
    let s := if s.flow = 0 then s.openBlock s.cursor.column s.pieces.size .blockSequence else s
    let s ← { s with keyAllowed := true }.dropPlace
    return s.take 1 .dash

/-- A question mark before a key. -/
def questionMark (s : Scan) : Except Problem Scan := do
  if s.flow = 0 && !s.keyAllowed then .error .form
  else
    let s := if s.flow = 0 then s.openBlock s.cursor.column s.pieces.size .blockMapping else s
    let s ← { s with keyAllowed := s.flow = 0 }.dropPlace
    return s.take 1 .key

/-- A colon; what stands at the place for a key before it is a key. -/
def colon (s : Scan) : Except Problem Scan := do
  match s.places.lookup s.flow with
  | some p =>
    let s := { s with
      places := s.places.filter fun e => e.1 != s.flow
      pieces := s.pieces.insertIdxIfInBounds p.count .key
      keyAllowed := false }
    let s := if s.flow = 0 then s.openBlock p.column p.count .blockMapping else s
    return s.take 1 .value
  | none =>
    if s.flow = 0 && !s.keyAllowed then .error .form
    else
      let s := if s.flow = 0 then s.openBlock s.cursor.column s.pieces.size .blockMapping else s
      let s ← { s with keyAllowed := s.flow = 0 }.dropPlace
      return s.take 1 .value

/-- A mark of a document at the start of a line. -/
def documentMark (s : Scan) (p : Piece) : Except Problem Scan := do
  let s ← (s.unindent (-1)).dropPlace
  return { s.take 3 p with keyAllowed := false }

/-! ### Properties -/

/-- A character of a name. -/
def isNameChar (c : Char) : Bool :=
  Text.isAsciiLetter c || Text.isAsciiDigit c || c == '-' || c == '_'

/-- Whether a name may end here. -/
def endsName (cs : List Char) : Bool := atGap cs || cs.head?.any "?:,]\x7d%@\x60".toList.contains

/-- The name of an alias or of an anchor. -/
def name (s : Scan) (p : String → Piece) : Except Problem Scan := do
  let s ← s.addPlace
  let (cs, after) := s.cursor.next.span isNameChar
  if cs.isEmpty || !endsName after.rest then .error .form
  else return { s.add (p (String.ofList cs)) with cursor := after, keyAllowed := false }

/-- A character of a tag. -/
def isTagChar (c : Char) : Bool :=
  isNameChar c || ";/?:@&=+$,.!~*'()[]%".toList.contains c

/-- The characters of a tag with the bytes written in hexadecimal decoded. -/
def tagChars? (cs : List Char) : Option String :=
  if cs.contains '%' then none else some (String.ofList cs)

/-- The handle of a tag before its second exclamation mark, and the cursor after it; without such a
    mark the handle is the first one alone. -/
def tagHandle (c : Cursor) : String × Cursor :=
  let (cs, after) := c.next.span isNameChar
  if after.rest.head? = some '!' then (String.ofList ('!' :: cs ++ ['!']), after.next)
  else ("!", c.next)

/-- The tag at a cursor, and the cursor after it. -/
def tagAt (c : Cursor) : Except Problem (Piece × Cursor) :=
  let ended (handle : Option String) (cs : List Char) (after : Cursor) :
      Except Problem (Piece × Cursor) :=
    match tagChars? cs with
    | some suffix =>
      if cs.isEmpty || !atSpace after.rest then .error .form else .ok (.tag handle suffix, after)
    | none => .error .form
  match c.rest.drop 1 with
  | '<' :: _ =>
    let (cs, after) := (c.drop 2).span isTagChar
    if after.rest.head? = some '>' then ended none cs after.next else .error .form
  | rest =>
    if atGap rest then ended none ['!'] c.next
    else
      let (handle, after) := tagHandle c
      let (cs, after) := after.span isTagChar
      ended (some handle) cs after

/-- A tag. -/
def tag (s : Scan) : Except Problem Scan := do
  let s ← s.addPlace
  let (p, after) ← tagAt s.cursor
  return { s.add p with cursor := after, keyAllowed := false }

/-- The words of a line up to a comment. -/
def lineWords (cs : List Char) : List (List Char) :=
  ((Text.words (cs.takeWhile fun c => !isBreak c)).takeWhile fun w => w.head? != some '#')

/-- A directive at the start of a line. -/
def directive (s : Scan) : Except Problem Scan := do
  let s ← (s.unindent (-1)).dropPlace
  let after := s.cursor.dropWhile fun c => !isBreak c
  let s := { s with keyAllowed := false }
  match lineWords s.cursor.rest with
  | [['%', 'T', 'A', 'G'], handle, meaning] =>
    let p := .tagPrefix (String.ofList handle) (String.ofList meaning)
    return { s.add p with cursor := after }
  | ['%', 'Y', 'A', 'M', 'L'] :: version =>
    if version.length = 1 && version.all fun v => ['1', '.'].isPrefixOf v then
      return { s.add .directive with cursor := after }
    else .error .form
  | _ => return { s.add .directive with cursor := after }

/-! ### Scalars -/

/-- A quoted scalar. -/
def quotedPiece (s : Scan) : Except Problem Scan := do
  let s ← s.addPlace
  let (cs, after) ← quoted s.cursor
  return { s.add (.scalar false (String.ofList cs)) with cursor := after, keyAllowed := false }

/-- A plain scalar. -/
def plainPiece (s : Scan) : Except Problem Scan := do
  let s ← s.addPlace
  let (cs, after, broken) := plain (s.flow != 0) s.indent s.cursor
  return { s.add (.scalar true (String.ofList cs)) with cursor := after, keyAllowed := broken }

/-- A block scalar. -/
def blockPiece (s : Scan) : Except Problem Scan := do
  let s ← { s with keyAllowed := true }.dropPlace
  let (cs, after) ← block s.indent s.cursor
  return { s.add (.scalar false (String.ofList cs)) with cursor := after }

/-! ### The pieces of a text -/

/-- The scan at the next piece. -/
def skipGap (s : Scan) : Except Problem Scan := do
  let (cursor, broken) := s.cursor.skipGap
  let s ← { s with cursor, keyAllowed := s.keyAllowed || (broken && s.flow = 0) }.dropStale
  return s.unindent s.cursor.column

/-- The scan after the next piece. -/
def step (s : Scan) (c : Char) (rest : List Char) : Except Problem Scan :=
  let marks := s.cursor.column = 0
  if c == '%' && marks then s.directive
  else if marks && atMarks '-' (c :: rest) then s.documentMark .documentStart
  else if marks && atMarks '.' (c :: rest) then s.documentMark .documentEnd
  else if c == '[' then s.openFlow .flowSequence
  else if c == '\x7b' then s.openFlow .flowMapping
  else if c == ']' then s.closeFlow .flowSequenceEnd
  else if c == '\x7d' then s.closeFlow .flowMappingEnd
  else if c == ',' then s.comma
  else if c == '-' && atGap rest then s.dash
  else if c == '?' && (s.flow != 0 || atGap rest) then s.questionMark
  else if c == ':' && (s.flow != 0 || atGap rest) then s.colon
  else if c == '*' then s.name .alias
  else if c == '&' then s.name .anchor
  else if c == '!' then s.tag
  else if (c == '|' || c == '>') && s.flow = 0 then s.blockPiece
  else if c == '\'' || c == '"' then s.quotedPiece
  else if startsPlain (s.flow != 0) (c :: rest) then s.plainPiece
  else .error .form

/-- The pieces from a scan on. -/
def run (fuel : Nat) (s : Scan) : Except Problem (Array Piece) :=
  match fuel with
  | 0 => .error .form
  | fuel + 1 => do
    let s ← s.skipGap
    match s.cursor.rest with
    | [] => return (← (s.unindent (-1)).dropPlace).pieces
    | c :: rest => run fuel (← s.step c rest)

end Scan

/-- A character that a text may hold. -/
def isReadable (c : Char) : Bool :=
  let n := c.toNat
  n == 9 || n == 10 || n == 13 || n == 133 || (32 ≤ n && n ≤ 126) || (160 ≤ n && n ≤ 65533) ||
    65536 ≤ n

/-- The pieces of a text. -/
def Piece.ofText (text : String) : Except Problem (List Piece) :=
  let cs := text.toList
  match cs.find? fun c => !isReadable c with
  | some c => .error (.character c.toNat (cs.takeWhile isReadable).length)
  | none =>
    let start := Cursor.ofText cs
    let start := if cs.head? = some '\ufeff' then start.next else start
    (Scan.run (cs.length + 2) { cursor := start }).map Array.toList

end Schemata.Yaml
