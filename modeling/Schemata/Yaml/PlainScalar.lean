/-
  Plain scalars.  A scalar goes on over several lines as long as they are indented more than what it
  belongs to; its line ends are folded as between quotes.

  * `startsPlain` says whether a plain scalar starts here;
  * `plain` is the text of the scalar that starts at a cursor, with the cursor after it, and whether
    a line ends behind it.
-/
import Schemata.Yaml.QuotedScalar

namespace Schemata.Yaml

/-- Whether a plain scalar starts here. -/
def startsPlain (inFlow : Bool) (cs : List Char) : Bool :=
  match cs with
  | [] => false
  | c :: rest =>
    if c == '-' then !atGap rest
    else if c == '?' || c == ':' then !inFlow && !atGap rest
    else !atGap cs && !",[]\x7b\x7d#&*!|>'\"%@\x60".toList.contains c

/-- Whether a run of plain characters ends here. -/
def endsPlain (inFlow : Bool) (cs : List Char) : Bool :=
  atGap cs ||
    match cs with
    | [] => true
    | c :: rest =>
      (c == ':' && (atGap rest || (inFlow && rest.head?.any ",[]\x7b\x7d".toList.contains))) ||
        (inFlow && ",?[]\x7b\x7d".toList.contains c)

/-- The plain characters at the start of a text. -/
def plainRun (inFlow : Bool) : List Char → List Char
  | [] => []
  | c :: cs => if endsPlain inFlow (c :: cs) then [] else c :: plainRun inFlow cs

/-- The line ends from a cursor on, the blanks between them skipped; none if a document ends
    there.  `bound` is no shorter than the rest of the text. -/
def plainBreaks (bound : List Char) (c : Cursor) : Option (List Char) × Cursor :=
  match bound with
  | [] => (some [], c)
  | _ :: bound =>
    let c := c.dropWhile (· == ' ')
    match c.lineBreak? with
    | none => (some [], c)
    | some (b, after) =>
      if atDocumentMark after.rest then (none, after)
      else
        let (bs, c) := plainBreaks bound after
        (bs.map (b :: ·), c)

/-- What stands between two runs of a plain scalar, none if the scalar ends here; with the cursor
    after it, and whether a line ends there. -/
def plainGap (c : Cursor) : Option (List Char) × Cursor × Bool :=
  let (blanks, c) := c.span (· == ' ')
  match c.lineBreak? with
  | none => (if blanks.isEmpty then none else some blanks, c, false)
  | some (b, after) =>
    if atDocumentMark after.rest then (none, after, true)
    else
      let (bs, c) := plainBreaks after.rest after
      (bs.map (foldBreak b), c, true)

/-- A plain scalar from one of its runs on, in a node of the given indentation.  `bound` is no
    shorter than the rest of the text. -/
def plainFrom (bound : List Char) (inFlow : Bool) (indent : Int) (between : List Char)
    (broken : Bool) (c : Cursor) : List Char × Cursor × Bool :=
  match bound with
  | [] => ([], c, broken)
  | _ :: bound =>
    let run := plainRun inFlow c.rest
    if run.isEmpty || c.rest.head? == some '#' then ([], c, broken)
    else
      match plainGap (c.drop run.length) with
      | (none, after, broken) => (between ++ run, after, broken)
      | (some gap, after, broken) =>
        if after.rest.head? == some '#' || (!inFlow && (after.column : Int) ≤ indent) then
          (between ++ run, after, broken)
        else
          let (more, c, broken) := plainFrom bound inFlow indent gap broken after
          (between ++ run ++ more, c, broken)

/-- The plain scalar that starts at a cursor, in a node of the given indentation. -/
def plain (inFlow : Bool) (indent : Int) (c : Cursor) : List Char × Cursor × Bool :=
  plainFrom c.rest inFlow indent [] false c

end Schemata.Yaml
