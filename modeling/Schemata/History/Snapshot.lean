/-
  Snapshots: a schema at one instant, with what is said about its edges.

  * `Snapshot.same` compares two snapshots field by field, whatever the order of their entries; two
    zeros are the same coordinate;
  * `Snapshot.numbered` makes the coordinates that are no number known, so that a copy of the
    snapshot is the same;
  * a history entry is a snapshot after an action, with the label of the action.
-/
import Schemata.Decode.Schema
import Schemata.Schema.Encode

namespace Schemata

/-- A schema at one instant, with what is said about its edges. -/
structure Snapshot where
  schema : Schema := {}
  cardinalities : OrderedMap Cardinality := {}
deriving DecidableEq, Repr

/-- Equality of optional places as numbers. -/
def Position.sameOption : Option Position → Option Position → Bool
  | none, none => true
  | some p, some q => p.same q
  | _, _ => false

/-- Equality of tables, their places compared as numbers. -/
def Table.same (t u : Table) : Bool :=
  Position.sameOption t.position u.position &&
    decide ({ t with position := none } = { u with position := none })

namespace Snapshot

/-- Whether two snapshots agree field by field. -/
def same (a b : Snapshot) : Bool :=
  a.schema.tables.sameBy Table.same b.schema.tables &&
    a.schema.enums.sameBy (· == ·) b.schema.enums &&
    a.cardinalities.sameBy (· == ·) b.cardinalities

/-- The snapshot with a serial number for each coordinate that needs one. -/
def numbered (serial : Nat) (s : Snapshot) : Snapshot :=
  { s with
    schema.tables := s.schema.tables.map fun _ t =>
      { t with position := t.position.map (Position.numbered serial) } }

/-- The greatest serial number of the coordinates. -/
def serial (s : Snapshot) : Nat :=
  s.schema.tables.values.foldl (fun n t => max n ((t.position.map Position.serial).getD 0)) 0

/-- The JSON form of a snapshot. -/
def toJson (s : Snapshot) : Json :=
  .obj [("tables", tablesJson s.schema.tables), ("enumTypes", enumsJson s.schema.enums),
    ("edgeRelationships", cardinalitiesJson s.cardinalities)]

end Snapshot

/-- What tells a new entry from all others, and when it was made. -/
structure Stamp where
  id : String
  /-- Milliseconds since the epoch. -/
  time : Int
deriving DecidableEq, Repr

/-- The state after an action. -/
structure HistoryEntry where
  stamp : Stamp
  label : String
  snapshot : Snapshot
deriving DecidableEq, Repr

/-- The entry with its snapshot numbered. -/
def HistoryEntry.numbered (serial : Nat) (e : HistoryEntry) : HistoryEntry :=
  { e with snapshot := e.snapshot.numbered serial }

/-- The JSON form of an entry. -/
def HistoryEntry.toJson (e : HistoryEntry) : Json :=
  .obj [("id", .str e.stamp.id), ("timestamp", .int e.stamp.time), ("label", .str e.label),
    ("snapshot", e.snapshot.toJson)]

namespace Decode

/-- A snapshot. -/
def snapshot : Json → Checked Snapshot :=
  record fun m =>
    (fun tables enums cardinalities => ⟨⟨tables, enums⟩, cardinalities⟩)
      <$> field "tables" {} (map table) m
      <*> field ⟨"enumTypes", some "enum_types"⟩ {} (map enumType) m
      <*> field ⟨"edgeRelationships", some "edge_relationships"⟩ {} (map cardinality) m

/-- A history entry. -/
def historyEntry : Json → Checked HistoryEntry :=
  record fun m =>
    (fun id time label snapshot => ⟨⟨id, time⟩, label, snapshot⟩)
      <$> required "id" text m
      <*> required "timestamp" integer m
      <*> required "label" text m
      <*> required "snapshot" snapshot m

end Decode

end Schemata
