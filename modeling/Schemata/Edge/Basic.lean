/-
  Edges between tables.  Every reference of a column that resolves is an edge from the column to its
  target; references of several columns are no edges.

  * A reference without a schema is looked for in the schema of its own table;
  * `edges` lists the edges of some tables in the order of the columns, and what is noted about
    references that do not resolve;
  * an edge is a one-to-many relationship unless its id says otherwise; `prune` forgets what is said
    about ids that no edge has.
-/
import Schemata.Log.Event
import Schemata.Schema.Basic

namespace Schemata

open Log

/-- An edge from a column to the column that it refers to. -/
structure Edge where
  id : String
  /-- The key of the referring table. -/
  source : String
  /-- The key of the table that is referred to. -/
  target : String
  sourceColumn : String
  targetColumn : String
  sourceIndex : Nat
  targetIndex : Nat
  cardinality : Cardinality
deriving DecidableEq, Repr

namespace Edge

/-- The id of an edge. -/
def idOf (sourceTitle sourceColumn targetKey targetColumn : String) : String :=
  sourceTitle ++ "." ++ sourceColumn ++ "-" ++ targetKey ++ "." ++ targetColumn

/-- The key of the table and the name of the column that a reference in a table stands for. -/
def target? (t : Table) (reference : String) : Option (String × String) :=
  (Name.column? reference).map fun r => (Name.key ((filled r.schema).or t.schema) r.table, r.column)

/-- The position of a column in a map of tables, with the column. -/
def locate? (tables : OrderedMap Table) (key column : String) : Option (Nat × Column) :=
  (tables.get? key).bind fun t =>
    (t.columnIndex? column).bind fun i => t.columns[i]?.map fun c => (i, c)

/-- The edge of one column, if it refers to something that is there. -/
def ofColumn (tables : OrderedMap Table) (cardinalities : OrderedMap Cardinality) (key : String)
    (t : Table) (index : Nat) (c : Column) : Logged (Option Edge) :=
  match filled c.foreignKey with
  | none => pure none
  | some reference =>
    match target? t reference with
    | none => do
      Logged.log .warning .relationships
        ("Invalid fk format on " ++ key ++ "." ++ c.title ++ ": " ++ reference)
      return none
    | some (targetKey, targetColumn) =>
      match locate? tables targetKey targetColumn with
      | none => do
        Logged.log .debug .relationships
          ("Target column " ++ targetColumn ++ " not found in table " ++ targetKey)
        return none
      | some (i, found) =>
        let id := idOf t.title c.title targetKey targetColumn
        pure <| some
          { id, source := key, target := targetKey, sourceColumn := c.title,
            targetColumn := found.title, sourceIndex := index, targetIndex := i,
            cardinality := (cardinalities.get? id).getD .oneToMany }

/-- The edges of columns, the first of them at the given position. -/
def ofColumns (tables : OrderedMap Table) (cardinalities : OrderedMap Cardinality) (key : String)
    (t : Table) (index : Nat) : List Column → Logged (List Edge)
  | [] => pure []
  | c :: rest => do
    let edge ← ofColumn tables cardinalities key t index c
    let edges ← ofColumns tables cardinalities key t (index + 1) rest
    return edge.toList ++ edges

/-- The edges of the entries of a map. -/
def ofEntries (tables : OrderedMap Table) (cardinalities : OrderedMap Cardinality) :
    List (String × Table) → Logged (List Edge)
  | [] => pure []
  | (key, t) :: rest => do
    let edges ← ofColumns tables cardinalities key t 0 t.columns
    let more ← ofEntries tables cardinalities rest
    return edges ++ more

/-- The edges of tables. -/
def edges (tables : OrderedMap Table) (cardinalities : OrderedMap Cardinality) :
    Logged (List Edge) := ofEntries tables cardinalities tables.entries

/-- What is said about the ids of edges, without the ids that no edge has. -/
def prune (cardinalities : OrderedMap Cardinality) (edges : List Edge) :
    Logged (OrderedMap Cardinality) := do
  let kept := cardinalities.filter fun id _ => edges.any fun e => e.id == id
  if kept.size != cardinalities.size then
    Logged.log .debug .relationships
      ("Pruned " ++ toString (cardinalities.size - kept.size) ++ " stale edge relationships")
  return kept

end Edge

end Schemata
