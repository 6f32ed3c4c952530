/-
  The JSON form of edges and of dangling references.
-/
import Schemata.Edge.Dangling

namespace Schemata

/-- The JSON form of an edge. -/
def Edge.toJson (e : Edge) : Json :=
  .obj [("id", .str e.id), ("source", .str e.source), ("target", .str e.target),
    ("sourceColumn", .str e.sourceColumn), ("targetColumn", .str e.targetColumn),
    ("sourceIndex", .int e.sourceIndex), ("targetIndex", .int e.targetIndex),
    ("relationshipType", .str e.cardinality.name)]

/-- The JSON form of a dangling reference. -/
def Dangling.toJson (d : Dangling) : Json :=
  .obj <| [("table_key", .str d.tableKey)] ++ Json.optional "column" .str d.column ++
    [("reference", .str d.reference), ("reason", .str d.reason.words)]

end Schemata
