/-
  Why an edit is refused: it addresses something that is not there, or it gives a name that is blank
  or taken.  A value that does not decode is an error of its own.
-/
import Schemata.Decode.Checked

namespace Schemata

/-- Why an edit is refused. -/
inductive Refusal where
  | noTable (key : String)
  | noColumn (index : Int) (table : String) (count : Nat)
  | noEnum (key : String)
  | noEdge (id : String)
  | blankTable
  | blankColumn
  | blankEnum
  | tableExists (key : String)
  | columnExists (title table : String)
  | enumExists (key : String)
deriving DecidableEq, Repr

/-- The text of a refusal. -/
def Refusal.message : Refusal → String
  | noTable key => "Table not found: " ++ key
  | noColumn index table count =>
    "Column index " ++ toString index ++ " out of range for " ++ table ++ " (" ++ toString count ++
      " columns)"
  | noEnum key => "Enum type not found: " ++ key
  | noEdge id => "Edge not found: " ++ id
  | blankTable => "Table title must not be blank"
  | blankColumn => "Column title must not be blank"
  | blankEnum => "Enum name must not be blank"
  | tableExists key => "Table already exists: " ++ key
  | columnExists title table => "Column '" ++ title ++ "' already exists in " ++ table
  | enumExists key => "Enum type already exists: " ++ key

/-- Why an edit fails. -/
inductive EditError where
  | refused (reason : Refusal)
  | invalid (faults : List Decode.Fault)
deriving DecidableEq, Repr

namespace Decode.Checked

/-- The value, or its faults as the failure of an edit. -/
def orInvalid {α : Type} : Checked α → Except EditError α
  | ok a => .ok a
  | bad faults => .error (.invalid faults)

end Decode.Checked

end Schemata
