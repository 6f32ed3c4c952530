/-
  Statements.  A document is a list of the statements that say something about tables, enum types,
  constraints, indexes and comments; what says nothing about them is left out.
-/
import Schemata.Schema.Basic

namespace Schemata

/-- A column as it is written in the body of a table. -/
structure ColumnDefinition where
  name : String
  /-- The text of the type as it stands. -/
  typeText : String
  /-- The schema and the name, if the type is a plain name. -/
  typeName : Option (Option String × String) := none
  notNull : Bool := false
  primaryKey : Bool := false
  unique : Bool := false
  defaultText : Option String := none
  foreignKey : Option String := none
deriving DecidableEq, Repr

/-- A statement about the schema. -/
inductive Statement where
  | createTable (schema : Option String) (name : String) (columns : List ColumnDefinition)
      (constraints : List Constraint)
  | createEnum (schema : Option String) (name : String) (values : List String)
  | addConstraint (schema : Option String) (table : String) (constraint : Constraint)
  | createIndex (schema : Option String) (table : String) (index : Index)
  /-- A comment on a table, or on one of its columns; an absent text takes the comment away. -/
  | comment (schema : Option String) (table : String) (column : Option String)
      (text : Option String)
deriving DecidableEq, Repr

end Schemata
