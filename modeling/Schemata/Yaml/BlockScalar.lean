/-
  Block scalars: the indented lines after `|`, as they stand, or after `>`, folded.

  * A header fixes what becomes of the line ends behind the last line, and may give the indentation;
    without it the first line that is not blank does;
  * `block` is the text of the scalar that starts at a cursor, with the cursor after it.
-/
import Schemata.Yaml.QuotedScalar

namespace Schemata.Yaml

/-- What becomes of the line ends behind the last line of a scalar. -/
inductive Chomping where
  | strip
  | clip
  | keep
deriving DecidableEq, Repr

/-- The chomping that a mark asks for. -/
def Chomping.ofMark? (c : Char) : Option Chomping :=
  if c = '+' then some keep else if c = '-' then some strip else none

/-- The indentation that a digit asks for. -/
def indentDigit? (c : Char) : Option Nat :=
  if Text.isAsciiDigit c && c != '0' then some (c.toNat - 48) else none

/-- The header of a block scalar: its chomping and its indentation, and the cursor after both. -/
def blockHeader (c : Cursor) : Chomping × Option Nat × Cursor :=
  let mark? := fun (c : Cursor) => c.rest.head?.bind Chomping.ofMark?
  let digit? := fun (c : Cursor) => c.rest.head?.bind indentDigit?
  match mark? c, digit? c with
  | some m, _ =>
    match digit? c.next with
    | some d => (m, some d, c.drop 2)
    | none => (m, none, c.next)
  | none, some d =>
    match mark? c.next with
    | some m => (m, some d, c.drop 2)
    | none => (.clip, some d, c.next)
  | none, none => (.clip, none, c)

/-- The blank lines before the first line of a scalar, and the greatest indentation among them and
    the first line.  `bound` is no shorter than the rest of the text. -/
def leadingLines (bound : List Char) (indent : Nat) (c : Cursor) : List Char × Nat × Cursor :=
  match bound with
  | [] => ([], max indent c.column, c)
  | _ :: bound =>
    let c := c.dropWhile (· == ' ')
    let indent := max indent c.column
    match c.lineBreak? with
    | none => ([], indent, c)
    | some (b, after) =>
      let (bs, indent, c) := leadingLines bound indent after
      (b :: bs, indent, c)

/-- The cursor after blanks, but not beyond a column. -/
def skipIndent (indent : Nat) (c : Cursor) : Cursor :=
  c.drop (min (c.rest.takeWhile (· == ' ')).length (indent - c.column))

/-- The blank lines at a cursor, and the cursor in the line after them.  `bound` is no shorter than
    the rest of the text. -/
def blankLines (bound : List Char) (indent : Nat) (c : Cursor) : List Char × Cursor :=
  match bound with
  | [] => ([], c)
  | _ :: bound =>
    let c := skipIndent indent c
    match c.lineBreak? with
    | none => ([], c)
    | some (b, after) =>
      let (bs, c) := blankLines bound indent after
      (b :: bs, c)

/-- Whether a line of a folded scalar may be joined to another one. -/
def isFoldable (cs : List Char) : Bool := cs.head? != some ' ' && cs.head? != some '\t'

/-- The lines of a scalar from one on, after the blank lines `breaks`.  `bound` is no shorter than
    the rest of the text. -/
def blockLines (bound : List Char) (folded : Bool) (chomping : Chomping) (indent : Nat)
    (breaks : List Char) (c : Cursor) : List Char × Cursor :=
  match bound with
  | [] => ([], c)
  | _ :: bound =>
    let (line, after) := c.span fun x => !isBreak x
    let (ending, after) := match after.lineBreak? with
      | some (b, after) => ([b], after)
      | none => ([], after)
    let (more, next) := blankLines after.rest indent after
    if next.column = indent ∧ next.rest ≠ [] then
      let between :=
        if folded && ending == ['\n'] && isFoldable c.rest && isFoldable next.rest then
          if more.isEmpty then [' '] else []
        else ending
      let (rest, next) := blockLines bound folded chomping indent more next
      (breaks ++ line ++ between ++ rest, next)
    else
      let tail := match chomping with
        | .strip => []
        | .clip => ending
        | .keep => ending ++ more
      (breaks ++ line ++ tail, next)

/-- The block scalar that starts at a cursor, in a node of the given indentation. -/
def block (indent : Int) (c : Cursor) : Scanned :=
  let folded := c.rest.head? == some '>'
  let (chomping, given, c) := blockHeader c.next
  if !atSpace c.rest then .error .form
  else
    let c := (c.dropWhile (· == ' ')).skipComment
    if !atLineEnd c.rest then .error .form
    else
      let c := match c.lineBreak? with
        | some (_, after) => after
        | none => c
      let least := (max 1 (indent + 1)).toNat
      let (breaks, indent, c) := match given with
        | some d =>
          let indent := least + d - 1
          let (breaks, c) := blankLines c.rest indent c
          (breaks, indent, c)
        | none =>
          let (breaks, found, c) := leadingLines c.rest 0 c
          (breaks, max least found, c)
      if c.column = indent ∧ c.rest ≠ [] then
        .ok (blockLines c.rest folded chomping indent breaks c)
      else .ok (if chomping = .keep then breaks else [], c)

end Schemata.Yaml
