/-
  Dangling references: references of columns and foreign keys of tables whose target is not there.
  They are listed with the reason, table by table, the columns of a table before its foreign keys.
-/
import Schemata.Edge.Basic

namespace Schemata

/-- Why a reference dangles. -/
inductive DanglingReason where
  | unreadable
  | noTable (key : String)
  | noColumn (column key : String)
  | noColumns (columns : List String) (key : String)
deriving DecidableEq, Repr

/-- The words for a reason. -/
def DanglingReason.words : DanglingReason → String
  | unreadable => "unparseable reference"
  | noTable key => "table " ++ key ++ " not found"
  | noColumn column key => "column " ++ column ++ " not found in " ++ key
  | noColumns columns key => "columns " ++ Text.displayList columns ++ " not found in " ++ key

/-- A reference that dangles; a foreign key of a table has no single column. -/
structure Dangling where
  tableKey : String
  column : Option String := none
  reference : String
  reason : DanglingReason
deriving DecidableEq, Repr

namespace Dangling

/-- Why a column of a table is not there. -/
def columnReason (tables : OrderedMap Table) (key column : String) : Option DanglingReason :=
  match tables.get? key with
  | none => some (.noTable key)
  | some t => if (t.findColumn? column).isSome then none else some (.noColumn column key)

/-- Why the reference of a column dangles. -/
def referenceReason (tables : OrderedMap Table) (t : Table) (reference : String) :
    Option DanglingReason :=
  match Edge.target? t reference with
  | none => some .unreadable
  | some (key, column) => columnReason tables key column

/-- The dangling reference of a column. -/
def ofColumn (tables : OrderedMap Table) (key : String) (t : Table) (c : Column) :
    Option Dangling :=
  (filled c.foreignKey).bind fun reference =>
    (referenceReason tables t reference).map fun reason =>
      { tableKey := key, column := some c.title, reference, reason }

/-- Why the target of a foreign key is not there. -/
def targetReason (tables : OrderedMap Table) (r : Reference) : Option DanglingReason :=
  match tables.get? r.key with
  | none => some (.noTable r.key)
  | some t =>
    match r.columns.filter fun n => (t.findColumn? n).isNone with
    | [] => none
    | missing => some (.noColumns missing r.key)

/-- The dangling reference of a foreign key. -/
def ofConstraint (tables : OrderedMap Table) (key : String) (c : Constraint) : Option Dangling :=
  c.reference.bind fun r =>
    (targetReason tables r).map fun reason =>
      { tableKey := key, reference := r.key ++ "(" ++ ", ".intercalate r.columns ++ ")", reason }

/-- The dangling references of a table. -/
def ofTable (tables : OrderedMap Table) (key : String) (t : Table) : List Dangling :=
  t.columns.filterMap (ofColumn tables key t) ++
    (t.constraintsOf .foreignKey).filterMap (ofConstraint tables key)

/-- The dangling references of tables. -/
def all (tables : OrderedMap Table) : List Dangling :=
  tables.entries.flatMap fun (key, t) => ofTable tables key t

end Dangling

end Schemata
