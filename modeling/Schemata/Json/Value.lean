/-
  JSON values.  Integers are exact and apart from numbers with a fraction or an exponent; an object
  keeps its members in order.
-/
import Schemata.Number.Shortest
import Schemata.OrderedMap
import Schemata.Text.Display

namespace Schemata

/-- A JSON value. -/
inductive Json where
  | null
  | bool (b : Bool)
  | int (i : Int)
  | float (x : Number.Binary64)
  | str (s : String)
  | arr (items : List Json)
  | obj (members : List (String × Json))
deriving Repr

namespace Json

instance : Inhabited Json := ⟨.null⟩

/-! ## Parts -/

/-- The value of a member of an object. -/
def get? (k : String) : Json → Option Json
  | obj members => OrderedMap.find k members
  | _ => none

/-- The members of an object. -/
def members? : Json → Option (List (String × Json))
  | obj members => some members
  | _ => none

/-- The items of an array. -/
def items? : Json → Option (List Json)
  | arr items => some items
  | _ => none

/-- The text of a string value. -/
def str? : Json → Option String
  | str s => some s
  | _ => none

/-- An absent value as `null`. -/
def ofOption {α : Type} (f : α → Json) : Option α → Json
  | none => null
  | some a => f a

/-- An optional member: left out if its value is absent. -/
def optional {α : Type} (k : String) (f : α → Json) : Option α → List (String × Json)
  | none => []
  | some a => [(k, f a)]

/-- Whether a value counts as present: null, false, zero and what is empty do not. -/
def isPresent : Json → Bool
  | null => false
  | bool b => b
  | int i => i != 0
  | float x => !x.isZero
  | str s => !s.isEmpty
  | arr items => !items.isEmpty
  | obj members => !members.isEmpty

/-- A list of strings. -/
def strings (l : List String) : Json := arr (l.map str)

/-- The entries of a map as members, in order. -/
def ofMap {α : Type} (f : α → Json) (m : OrderedMap α) : Json :=
  obj (m.entries.map fun (k, v) => (k, f v))

/-! ## Values in messages

Inside a message a value is shown with its strings quoted; a string that stands alone is shown as
it is. -/

mutual

/-- A value inside a larger one. -/
def shown : Json → String
  | null => "None"
  | bool b => if b then "True" else "False"
  | int i => toString i
  | float x => x.text
  | str s => Text.display s
  | arr items => "[" ++ ", ".intercalate (shownItems items) ++ "]"
  | obj members => "\x7b" ++ ", ".intercalate (shownMembers members) ++ "\x7d"

/-- The items of an array, each shown. -/
def shownItems : List Json → List String
  | [] => []
  | v :: rest => shown v :: shownItems rest

/-- The members of an object, each shown. -/
def shownMembers : List (String × Json) → List String
  | [] => []
  | (k, v) :: rest => (Text.display k ++ ": " ++ shown v) :: shownMembers rest

end

/-- A value that stands alone. -/
def plain : Json → String
  | str s => s
  | v => shown v

end Json

end Schemata
