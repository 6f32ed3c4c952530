/-
  The constraints that a table is written with: those it has, and those that its column flags imply.

  * A primary key of its own suppresses the one that the flags imply; a foreign key or a unique
    constraint of its own suppresses the implied one on the same columns;
  * constraints that say nothing are left out: conditions without text, others without columns;
  * `Table.allConstraints` lists them by kind, within a kind the table's own ones first.
-/
import Schemata.Log.Event
import Schemata.Schema.Basic

namespace Schemata

open Log

namespace Table

/-- Whether a constraint says something. -/
def isWritable (c : Constraint) : Bool :=
  match c.kind with
  | .check => (filled c.expression).isSome
  | .foreignKey => !c.columns.isEmpty && c.reference.any fun r => !r.columns.isEmpty
  | _ => !c.columns.isEmpty

/-- The primary key that the column flags imply. -/
def impliedKey (t : Table) : List Constraint :=
  if (t.constraintsOf .primaryKey).isEmpty && !t.primaryKeyColumns.isEmpty then
    [{ kind := .primaryKey, columns := t.primaryKeyColumns }]
  else []

/-- The columns that the table has constraints of a kind on, in the form in which names are
    compared. -/
def constrained (t : Table) (kind : ConstraintKind) : List (List String) :=
  (t.constraintsOf kind).map Constraint.columnKey

/-- The foreign key that the reference of a column implies, unless the column is among those of
    which the table says so itself. -/
def impliedForeignKey (own : List (List String)) (c : Column) : List Constraint :=
  match filled c.foreignKey with
  | none => []
  | some text =>
    if own.contains [Quote.fold c.title] then []
    else
      match Name.column? text with
      | none => []
      | some r =>
        [{ kind := .foreignKey, columns := [c.title],
           reference := some { schema := r.schema, table := r.table, columns := [r.column] } }]

/-- The unique constraint that the flag of a column implies, unless the column is among those of
    which the table says so itself. -/
def impliedUnique (own : List (List String)) (c : Column) : List Constraint :=
  if c.unique && !own.contains [Quote.fold c.title] then
    [{ kind := .unique, columns := [c.title] }]
  else []

/-- The constraints that the column flags imply. -/
def impliedConstraints (t : Table) : List Constraint :=
  let foreignKeys := t.constrained .foreignKey
  let uniques := t.constrained .unique
  t.impliedKey ++
    t.columns.flatMap fun c => impliedForeignKey foreignKeys c ++ impliedUnique uniques c

/-- All constraints that the table is written with, by kind. -/
def allConstraints (t : Table) : List Constraint :=
  let all := t.constraints.filter isWritable ++ t.impliedConstraints
  ConstraintKind.all.flatMap fun kind => all.filter fun c => c.kind == kind

/-- What is noted about references and constraints that are left out. -/
def constraintNotes (t : Table) : Logged Unit := do
  let foreignKeys := t.constrained .foreignKey
  for c in t.columns do
    match filled c.foreignKey with
    | none => pure ()
    | some text =>
      if !foreignKeys.contains [Quote.fold c.title] && (Name.column? text).isNone then
        Logged.log .debug .generator
          ("Ignoring unparseable fk '" ++ text ++ "' on " ++ t.key ++ "." ++ c.title)
  for c in t.constraints do
    if c.kind != .check && c.columns.isEmpty then
      Logged.log .debug .generator
        ("Skipping " ++ c.kind.name ++ " constraint without columns on " ++ t.key)

end Table

end Schemata
