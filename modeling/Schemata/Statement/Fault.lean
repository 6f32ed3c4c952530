/-
  What can be wrong with a document, and the text of it.

  * A fault is a cause; `ParseFault.message` words it;
  * a parse error is a fault with the number and the text of its statement, where these are known;
    `ParseError.message` shows the first 80 characters of the statement on one line.
-/
import Schemata.Text.Blank
import Schemata.Token.Scanner

namespace Schemata

/-- What can be wrong with a document. -/
inductive ParseFault where
  | unclosed (what : Token.Unclosed) (line : Nat)
  | unexpectedEnd
  | expected (what : String)
  | openParenthesis
  | noTableName
  | noColumnList (table : String)
  | repeatedColumn (column : String)
  | invalidColumn (text : String)
  | noColumnType (column : String)
  | badGenerated
  | generatedWithoutAs
  | foreignKeyWithoutReferences
  | foreignKeyWithoutColumns (table : String)
  | foreignKeyColumnCount
  | emptyColumnList
  | unknownAction
  | noTypeName
  | noValueList (enumName : String)
  | valueNotLiteral (enumName : String)
  | repeatedValue (value : String)
  | indexWithoutOn
  | indexWithoutColumnList (table : String)
  | indexWithoutColumns (table : String)
  | commentWithoutTable
  | commentWithoutIs
  | commentNotLiteral
  /-- The enum type has an empty name. -/
  | invalidEnum (enumName reason : String)
deriving DecidableEq, Repr

/-- The words for what stayed open. -/
def Token.Unclosed.words : Token.Unclosed → String
  | literal => "string literal"
  | name => "quoted identifier"
  | comment => "block comment"
  | dollarQuote => "dollar-quoted string"

namespace ParseFault

/-- The text of a fault. -/
def message : ParseFault → String
  | unclosed what line => "Unterminated " ++ what.words ++ " starting on line " ++ toString line
  | unexpectedEnd => "Unexpected end of statement"
  | expected what => "Expected " ++ what
  | openParenthesis => "Missing closing parenthesis"
  | noTableName => "CREATE TABLE is missing a table name"
  | noColumnList table => "CREATE TABLE " ++ table ++ " is missing its column list"
  | repeatedColumn column => "Column '" ++ column ++ "' specified more than once"
  | invalidColumn text => "Invalid column definition: " ++ text
  | noColumnType column => "Column '" ++ column ++ "' has no type"
  | badGenerated => "GENERATED must be followed by ALWAYS or BY DEFAULT"
  | generatedWithoutAs => "GENERATED column is missing AS"
  | foreignKeyWithoutReferences => "FOREIGN KEY is missing REFERENCES"
  | foreignKeyWithoutColumns table =>
    "FOREIGN KEY references " ++ table ++ " without target columns"
  | foreignKeyColumnCount => "FOREIGN KEY column count does not match its target"
  | emptyColumnList => "Empty column list"
  | unknownAction => "Unknown referential action"
  | noTypeName => "CREATE TYPE is missing a type name"
  | noValueList name => "Enum " ++ name ++ " is missing its value list"
  | valueNotLiteral name => "Enum " ++ name ++ " values must be string literals"
  | repeatedValue value => "Duplicate enum value: '" ++ value ++ "'"
  | indexWithoutOn => "CREATE INDEX is missing ON"
  | indexWithoutColumnList table => "Index on " ++ table ++ " is missing its column list"
  | indexWithoutColumns table => "Index on " ++ table ++ " has no columns"
  | commentWithoutTable => "COMMENT ON COLUMN needs table.column"
  | commentWithoutIs => "COMMENT ON is missing IS"
  | commentNotLiteral => "COMMENT ON expects a string literal or NULL"
  | invalidEnum name reason => "Invalid enum type " ++ name ++ ": " ++ reason

end ParseFault

/-- The start of a statement on one line, as it is shown after a message. -/
def snippet (statement : String) : String :=
  let flat := Text.squeeze statement.toList
  ": " ++ String.ofList (flat.take 80) ++ (if 80 < flat.length then "..." else "")

/-- A message with the number of its statement and the start of the statement's text. -/
def locatedMessage (message : String) (index : Option Int) (statement : Option String) : String :=
  match index with
  | none => message
  | some n =>
    "Statement " ++ toString n ++ ": " ++ message ++
      (match statement with
        | some s => if s.isEmpty then "" else snippet s
        | none => "")

/-- A fault, with the number and the text of its statement where they are known. -/
structure ParseError where
  fault : ParseFault
  statement : Option (Nat × String) := none
deriving DecidableEq, Repr

/-- The text of a parse error. -/
def ParseError.message (e : ParseError) : String :=
  locatedMessage e.fault.message (e.statement.map fun s => (s.1 : Int)) (e.statement.map (·.2))

end Schemata
