/-
  Schemas.  A schema has tables and named enum types, each under a key: the name qualified by the
  name of its database schema, or the bare name.

  * A column carries its type text, its flags, and the column or the enum type it refers to;
  * a table constraint carries what the flags of one column cannot: a name, several columns,
    referential actions or a condition;
  * `Table.findColumn?` and `Table.columnIndex?` look a column up by name, whatever its case and
    quotes; `Column.enumValuesIn` are the values that a column accepts.
-/
import Schemata.Name
import Schemata.Number.Binary64
import Schemata.OrderedMap

namespace Schemata

open Number (Binary64)

/-! ## Enum types -/

/-- A named type with a list of values. -/
structure EnumType where
  name : String
  schema : Option String := none
  values : List String := []
deriving DecidableEq, Repr

namespace EnumType

/-- The key that the type is stored under. -/
def key (e : EnumType) : String := Name.key e.schema e.name

/-- The first value that repeats an earlier one, ignoring case. -/
def repeated? (seen : List String) : List String → Option String
  | [] => none
  | v :: rest =>
    let folded := Text.lower v
    if seen.contains folded then some v else repeated? (folded :: seen) rest

end EnumType

/-! ## Columns -/

/-- A column of a table. -/
structure Column where
  title : String
  /-- The text of the type, or `enum`. -/
  format : String := "text"
  /-- The name of the coarse class. -/
  category : String := "string"
  /-- The text of the default expression. -/
  defaultText : Option String := none
  required : Bool := false
  primaryKey : Bool := false
  unique : Bool := false
  /-- The column of another table that this one refers to. -/
  foreignKey : Option String := none
  /-- The key of the enum type. -/
  enumName : Option String := none
  /-- The values that are kept with the column itself. -/
  enumValues : Option (List String) := none
  comment : Option String := none
deriving DecidableEq, Repr

/-- An optional text that is present and not empty. -/
def filled (s : Option String) : Option String := s.filter (! ·.isEmpty)

namespace Column

/-- The column with its key flag taken seriously: a primary key is required. -/
def coherent (c : Column) : Column := if c.primaryKey then { c with required := true } else c

/-- Whether the column takes the values of an enum. -/
def isEnum (c : Column) : Bool := c.format == "enum" || (filled c.enumName).isSome

/-- The values that the column accepts: those of its enum type if it is known, else its own. -/
def enumValuesIn (enums : OrderedMap EnumType) (c : Column) : List String :=
  match (filled c.enumName).bind enums.get? with
  | some e => e.values
  | none => c.enumValues.getD []

/-- A key column is required. -/
theorem coherent_required {c : Column} (h : c.coherent.primaryKey = true) :
    c.coherent.required = true := by
  unfold coherent at h ⊢
  split
  · rfl
  · next hn => simp [hn] at h

end Column

/-! ## Constraints and indexes -/

/-- The kinds of table constraints, in the order in which they are written. -/
inductive ConstraintKind where
  | primaryKey
  | foreignKey
  | unique
  | check
deriving DecidableEq, Repr

namespace ConstraintKind

/-- The name of a kind. -/
def name : ConstraintKind → String
  | primaryKey => "primary_key"
  | foreignKey => "foreign_key"
  | unique => "unique"
  | check => "check"

/-- All kinds, in the order in which they are written. -/
def all : List ConstraintKind := [primaryKey, foreignKey, unique, check]

/-- The position of a kind in that order. -/
def rank : ConstraintKind → Nat
  | primaryKey => 0
  | foreignKey => 1
  | unique => 2
  | check => 3

/-- The kind of a name. -/
def ofName? (s : String) : Option ConstraintKind := all.find? fun k => k.name == s

end ConstraintKind

/-- The table and the columns that a foreign key refers to. -/
structure Reference where
  schema : Option String := none
  table : String
  columns : List String := []
  onDelete : Option String := none
  onUpdate : Option String := none
deriving DecidableEq, Repr

namespace Reference

/-- The key of the table. -/
def key (r : Reference) : String := Name.key r.schema r.table

/-- Whether an action is given. -/
def hasActions (r : Reference) : Bool := (filled r.onDelete).isSome || (filled r.onUpdate).isSome

/-- The text that names the column, if there is just one. -/
def columnText? (r : Reference) : Option String :=
  match r.columns with
  | [c] => some (Name.columnText r.schema r.table c)
  | _ => none

end Reference

/-- A constraint of a table. -/
structure Constraint where
  kind : ConstraintKind
  name : Option String := none
  columns : List String := []
  reference : Option Reference := none
  /-- The text of the condition. -/
  expression : Option String := none
deriving DecidableEq, Repr

namespace Constraint

/-- The columns in the form in which names are compared. -/
def columnKey (c : Constraint) : List String := c.columns.map Quote.fold

/-- Whether column flags carry everything that the constraint says. -/
def isFolded (c : Constraint) : Bool :=
  if (filled c.name).isSome then false
  else
    match c.kind with
    | .primaryKey => !c.columns.isEmpty
    | .unique => c.columns.length == 1
    | .foreignKey =>
      c.columns.length == 1 &&
        c.reference.any fun r => r.columns.length == 1 && !r.hasActions
    | .check => false

end Constraint

/-- An index of a table; its columns are texts of columns or expressions. -/
structure Index where
  name : String
  columns : List String := []
  unique : Bool := false
  /-- The access method. -/
  method : Option String := none
  /-- The text of the condition of a partial index. -/
  condition : Option String := none
deriving DecidableEq, Repr

/-! ## Tables -/

/-- Where a table is drawn. -/
structure Position where
  x : Binary64 := .zero
  y : Binary64 := .zero
deriving DecidableEq, Repr

/-- Equality of places as numbers. -/
def Position.same (p q : Position) : Bool := p.x.same q.x && p.y.same q.y

/-- The place with a serial number for each coordinate that needs one. -/
def Position.numbered (serial : Nat) (p : Position) : Position :=
  ⟨p.x.numbered serial, p.y.numbered serial⟩

/-- The greatest serial number of the coordinates. -/
def Position.serial (p : Position) : Nat := max p.x.serial p.y.serial

/-- A table or a view. -/
structure Table where
  title : String
  schema : Option String := none
  columns : List Column := []
  constraints : List Constraint := []
  indexes : List Index := []
  position : Option Position := none
  color : Option String := none
  comment : Option String := none
  isView : Bool := false
deriving DecidableEq, Repr

namespace Table

/-- The key that the table is stored under. -/
def key (t : Table) : String := Name.key t.schema t.title

/-- Whether a column goes by a name, given in the form in which names are compared. -/
def hasName (folded : String) (c : Column) : Bool := Quote.fold c.title == folded

/-- The position of the first column of a name. -/
def columnIndex? (t : Table) (name : String) : Option Nat :=
  t.columns.findIdx? (hasName (Quote.fold name))

/-- The first column of a name. -/
def findColumn? (t : Table) (name : String) : Option Column :=
  t.columns.find? (hasName (Quote.fold name))

/-- The constraints of a kind. -/
def constraintsOf (t : Table) (kind : ConstraintKind) : List Constraint :=
  t.constraints.filter fun c => c.kind == kind

/-- The titles of the key columns. -/
def primaryKeyColumns (t : Table) : List String :=
  (t.columns.filter (·.primaryKey)).map (·.title)

end Table

/-! ## Schemas -/

/-- Tables and named enum types. -/
structure Schema where
  tables : OrderedMap Table := {}
  enums : OrderedMap EnumType := {}
deriving DecidableEq, Repr

/-- The cardinality that is drawn on an edge. -/
inductive Cardinality where
  | oneToOne
  | oneToMany
  | manyToMany
deriving DecidableEq, Repr

namespace Cardinality

/-- The name of a cardinality. -/
def name : Cardinality → String
  | oneToOne => "one-to-one"
  | oneToMany => "one-to-many"
  | manyToMany => "many-to-many"

/-- All cardinalities. -/
def all : List Cardinality := [oneToOne, oneToMany, manyToMany]

/-- The cardinality of a name. -/
def ofName? (s : String) : Option Cardinality := all.find? fun c => c.name == s

end Cardinality

end Schemata
