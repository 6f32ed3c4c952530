/-
  Quoted scalars.  The line ends in a scalar are folded: a single one is a blank, of several the
  first one is dropped, and the blanks and tabs around them do not count.  Between double quotes a
  backslash opens an escape, also one of the end of a line.

  * `quoted` is the text of the scalar that starts at a cursor, with the cursor after it.
-/
import Schemata.Json.Reader
import Schemata.Text.Half
import Schemata.Yaml.Cursor
import Schemata.Yaml.Problem

namespace Schemata.Yaml

/-- The text of a scalar and the cursor after it. -/
abbrev Scanned := Except Problem (List Char × Cursor)

/-- The line ends from a cursor on, the blanks and tabs between them skipped; no document may end
    there.  `bound` is no shorter than the rest of the text. -/
def foldedBreaks (bound : List Char) (c : Cursor) : Scanned :=
  match bound with
  | [] => .ok ([], c)
  | _ :: bound =>
    if atDocumentMark c.rest then .error .form
    else
      let c := c.dropWhile fun x => x == ' ' || x == '\t'
      match c.lineBreak? with
      | some (b, after) => (foldedBreaks bound after).map fun (bs, c) => (b :: bs, c)
      | none => .ok ([], c)

/-- What stands for a line end with the further ones after it. -/
def foldBreak (first : Char) (more : List Char) : List Char :=
  if first != '\n' then first :: more else if more.isEmpty then [' '] else more

/-- The character that an escape of one letter stands for. -/
def letterEscape? (c : Char) : Option Char :=
  match c with
  | '0' => some (Char.ofNat 0)
  | 'a' => some (Char.ofNat 7)
  | 'v' => some (Char.ofNat 11)
  | 'e' => some (Char.ofNat 27)
  | ' ' => some ' '
  | '\t' => some '\t'
  | 'N' => some (Char.ofNat 133)
  | '_' => some (Char.ofNat 160)
  | 'L' => some (Char.ofNat 8232)
  | 'P' => some (Char.ofNat 8233)
  | c => Json.shortEscape? c

/-- The number of hexadecimal digits after the letter of an escape. -/
def escapeWidth? (c : Char) : Option Nat :=
  match c with
  | 'x' => some 2
  | 'u' => some 4
  | 'U' => some 8
  | _ => none

/-- The number that hexadecimal digits stand for. -/
def hexNumber? (cs : List Char) : Option Nat :=
  cs.foldl (fun acc c => acc.bind fun n => (Json.hexValue? c).map (n * 16 + ·)) (some 0)

/-- The character of a numeric escape whose digits start at a cursor. -/
def numericEscape (width : Nat) (c : Cursor) : Scanned :=
  let digits := c.rest.take width
  match hexNumber? digits with
  | some n =>
    if digits.length < width then .error .form
    else if 1114111 < n then .error (.value "chr() arg not in range(0x110000)")
    else .ok ([Text.Half.ofUnit n], c.drop width)
  | none => .error .form

/-- What the escape after a backslash stands for. -/
def escape (c : Cursor) : Scanned :=
  match c.rest.head? with
  | none => .error .form
  | some x =>
    match letterEscape? x, escapeWidth? x with
    | some e, _ => .ok ([e], c.next)
    | none, some width => numericEscape width c.next
    | none, none =>
      match c.lineBreak? with
      | some (_, after) => foldedBreaks after.rest after
      | none => .error .form

/-- The text between quotes from a cursor on, after the characters of `acc` in reverse.  `bound` is
    longer than the rest of the text. -/
def quotedFrom (bound : List Char) (double : Bool) (acc : List Char) (c : Cursor) : Scanned :=
  match bound with
  | [] => .error .form
  | _ :: bound =>
    let put (cs : List Char) (after : Cursor) : Scanned :=
      quotedFrom bound double (cs.reverse ++ acc) after
    match c.rest with
    | [] => .error .form
    | x :: rest =>
      if double && x == '"' then .ok (acc.reverse, c.next)
      else if !double && x == '\'' then
        if rest.head? == some '\'' then put ['\''] (c.drop 2) else .ok (acc.reverse, c.next)
      else if double && x == '\\' then
        match escape c.next with
        | .ok (e, after) => put e after
        | .error p => .error p
      else if x == ' ' || x == '\t' || isBreak x then
        let (blanks, after) := c.span fun x => x == ' ' || x == '\t'
        match after.lineBreak? with
        | none => put blanks after
        | some (b, after) =>
          match foldedBreaks after.rest after with
          | .ok (bs, after) => put (foldBreak b bs) after
          | .error p => .error p
      else put [x] c.next

/-- The quoted scalar that starts at a cursor. -/
def quoted (c : Cursor) : Scanned :=
  quotedFrom c.rest (c.rest.head? == some '"') [] c.next

end Schemata.Yaml
