/-
  Dotted names.  A name may be qualified by the names before it, as in `schema.table.column`; dots
  inside double quotes are part of a name.

  * `parts` are the names between the dots, unquoted;
  * `qualified` and `column?` read the last two or three of them, `bare` the last one;
  * `key` is the key that a table or a type is stored under, and `columnText` the text that names a
    column of another table.
-/
import Schemata.Quote

namespace Schemata.Name

/-! ## Parts -/

/-- The pieces of a text between the dots outside double quotes.  `inside` says whether the text
    starts within quotes. -/
def pieces (inside : Bool) : List Char → List (List Char)
  | [] => [[]]
  | c :: cs =>
    if c = '.' ∧ !inside then [] :: pieces inside cs
    else Text.consFirst c (pieces (if c = '"' then !inside else inside) cs)

/-- The names between the dots of a text; blank ones are left out. -/
def partsList (cs : List Char) : List (List Char) :=
  ((pieces false cs).map Text.trim |>.filter (! ·.isEmpty)).map Quote.unquoteList

/-- The names between the dots of a string; blank ones are left out. -/
def parts (s : String) : List String := (partsList s.toList).map String.ofList

/-! ## Qualified names -/

/-- The last name of a list with the one before it, if there is one. -/
def lastTwo : List String → Option String × String
  | [] => (none, "")
  | [x] => (none, x)
  | [x, y] => (some x, y)
  | _ :: y :: z :: rest => lastTwo (y :: z :: rest)

/-- The schema and the name that a text stands for. -/
def qualified (s : String) : Option String × String := lastTwo (parts s)

/-- The bare name that a key ends in, or the key itself if it ends in none. -/
def bare (key : String) : String :=
  let name := (qualified key).2
  if name.isEmpty then key else name

/-- The key of a name within a schema. -/
def key (schema : Option String) (name : String) : String :=
  match schema with
  | some s => if s.isEmpty then name else s ++ "." ++ name
  | none => name

/-! ## Columns of other tables -/

/-- A column with its table. -/
structure ColumnRef where
  schema : Option String
  table : String
  column : String
deriving DecidableEq, Repr

/-- The last two or three names of a list as a column of a table. -/
def columnOfParts? : List String → Option ColumnRef
  | [] => none
  | [_] => none
  | [t, c] => some ⟨none, t, c⟩
  | [s, t, c] => some ⟨some s, t, c⟩
  | _ :: s :: t :: c :: rest => columnOfParts? (s :: t :: c :: rest)

/-- The column that a text stands for. -/
def column? (s : String) : Option ColumnRef := columnOfParts? (parts s)

/-- The text that names a column of a table. -/
def columnText (schema : Option String) (table column : String) : String :=
  key schema table ++ "." ++ column

end Schemata.Name
