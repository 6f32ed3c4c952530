/-
  Comments.  A line comment runs from `--` to the end of its line and a block comment from `/*` to
  the next `*/`; inside quotes neither mark counts.

  * `strip` takes the comments out of a text: a block comment leaves a blank behind, a line comment
    its line end.
-/

namespace Schemata.Comment

/-- Where a place stands. -/
inductive Place where
  /-- Between quotes and comments. -/
  | text
  /-- Inside quotes of one kind. -/
  | quoted (q : Char)
  /-- Inside a line comment. -/
  | line
  /-- Inside a block comment. -/
  | block
deriving DecidableEq, Repr

/-- The text without its comments, from a place on. -/
def stripFrom : Place → List Char → List Char
  | _, [] => []
  | .text, '-' :: '-' :: cs => stripFrom .line cs
  | .text, '/' :: '*' :: cs => ' ' :: stripFrom .block cs
  | .text, c :: cs => c :: stripFrom (if c = '\'' ∨ c = '"' then .quoted c else .text) cs
  | .quoted q, c :: cs => c :: stripFrom (if c = q then .text else .quoted q) cs
  | .line, c :: cs => if c = '\n' then c :: stripFrom .text cs else stripFrom .line cs
  | .block, '*' :: '/' :: cs => stripFrom .text cs
  | .block, _ :: cs => stripFrom .block cs

/-- The text without its comments. -/
def strip (s : String) : String := String.ofList (stripFrom .text s.toList)

end Schemata.Comment
