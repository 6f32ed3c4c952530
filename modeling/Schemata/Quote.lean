/-
  Quoted names and literals.  A quoted name stands between double quotes and a literal between
  single ones; the quote itself is written twice inside.

  * `name` quotes a name and `unquote` reads it, with or without quotes; `literal` quotes a text;
  * `fold` is the form in which names are compared: unquoted, in lower case;
  * `unquote_nameList`: a quoted name that was plain reads back as itself.
-/
import Schemata.Text.Blank
import Schemata.Text.Case
import Schemata.Text.Search

namespace Schemata.Quote

/-! ## Names -/

/-- Whether a text starts and ends with a double quote of its own. -/
def isQuotedList (cs : List Char) : Bool :=
  2 ≤ cs.length && cs.head? == some '"' && cs.getLast? == some '"'

/-- A text between double quotes. -/
def encloseName (cs : List Char) : List Char := '"' :: (Text.double '"' cs ++ ['"'])

/-- A name with quotes around it; a quoted name is kept. -/
def nameList (cs : List Char) : List Char := if isQuotedList cs then cs else encloseName cs

/-- A name without its quotes and without blanks around them. -/
def unquoteList (cs : List Char) : List Char :=
  let v := Text.trim cs
  if isQuotedList v then Text.undouble '"' v.tail.dropLast else v

/-- Whether a string is a quoted name. -/
def isQuoted (s : String) : Bool := isQuotedList s.toList

/-- A name with quotes around it; a quoted name is kept. -/
def name (s : String) : String := String.ofList (nameList s.toList)

/-- A name without its quotes and without blanks around them. -/
def unquote (s : String) : String := String.ofList (unquoteList s.toList)

/-- The form in which names are compared. -/
def fold (s : String) : String := Text.lower (unquote s)

theorem isQuotedList_encloseName (cs : List Char) : isQuotedList (encloseName cs) = true := by
  simp [isQuotedList, encloseName, List.getLast?_cons]

/-- The quotes around a name are all that `unquoteList` takes off. -/
theorem unquoteList_encloseName (cs : List Char) : unquoteList (encloseName cs) = cs := by
  have ht : Text.trim (encloseName cs) = encloseName cs :=
    Text.trim_eq_self (by rintro c ⟨⟩; rfl) (by
      intro c hc
      simp only [encloseName, List.getLast?_cons, List.getLast?_append] at hc
      simp at hc
      subst hc; rfl)
  simp only [unquoteList, ht, isQuotedList_encloseName, if_true]
  simp [encloseName]

/-- A quoted name reads back as itself unless it was quoted already. -/
theorem unquoteList_nameList {cs : List Char} (h : isQuotedList cs = false) :
    unquoteList (nameList cs) = cs := by
  simp [nameList, h, unquoteList_encloseName]

/-! ## Literals -/

/-- A text between single quotes. -/
def literalList (cs : List Char) : List Char := '\'' :: (Text.double '\'' cs ++ ['\''])

/-- A text between single quotes. -/
def literal (s : String) : String := String.ofList (literalList s.toList)

/-- An identifier as it is written in a statement: always between quotes. -/
def identifier (s : String) : String := String.ofList (encloseName (unquoteList s.toList))

end Schemata.Quote
