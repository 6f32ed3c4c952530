/-
  Editing sessions.  A session holds a schema, what is said about its edges, and their history.

  * Every operation either fails and leaves the session as it is, or replaces the schema and records
    at most one entry; an operation that changes nothing records none;
  * `commit` installs a schema: it forgets what is said about edges that are gone, and shows the
    database schemas of all tables;
  * undoing and redoing put the schema of the new current entry in place.
-/
import Schemata.Ddl.Document
import Schemata.Edge.Basic
import Schemata.Edit.Basic
import Schemata.History.Opening
import Schemata.Statement.Build

namespace Schemata

open Log

/-- What surrounds a session: the settings as they were read, and the stamp of a new entry. -/
structure Host where
  settings : Except SettingsError Settings
  stamp : Stamp

/-- The state of an editing session. -/
structure Session where
  schema : Schema := {}
  cardinalities : OrderedMap Cardinality := {}
  history : History
  /-- The names of the database schemas that are shown, each once. -/
  visible : List String := []
  /-- The names of the database schemas that are collapsed, each once. -/
  collapsed : List String := []

/-- Why an operation of a session fails. -/
inductive SessionError where
  | edit (error : EditError)
  | parse (error : ParseError)
  | unknownCardinality (name : String)
  | generate (faults : List Decode.Fault)
  | settings (error : SettingsError)
deriving DecidableEq, Repr

/-- The text of an unknown cardinality. -/
def SessionError.cardinalityMessage (name : String) : String :=
  Text.display name ++ " is not a valid RelationshipType"

namespace Session

/-! ## Names -/

/-- A list of distinct names with one more. -/
def addName (names : List String) (name : String) : List String :=
  if names.contains name then names else names ++ [name]

/-- The distinct names of a list. -/
def distinct (names : List String) : List String := names.foldl addName []

theorem nodup_addName {names : List String} {name : String} (h : names.Nodup) :
    (addName names name).Nodup := by
  unfold addName
  split
  · exact h
  · next hn =>
    rw [List.nodup_append]
    refine ⟨h, by simp, ?_⟩
    rintro a ha b hb rfl
    simp only [List.mem_singleton] at hb
    subst hb
    exact hn (by simpa using ha)

/-! ## Opening -/

/-- The snapshot of a session. -/
def snapshot (s : Session) : Snapshot := ⟨s.schema, s.cardinalities⟩

/-- Puts the schema of the current entry of a history in place. -/
def moveTo (s : Session) (history : History) : Session :=
  match history.current? with
  | none => { s with history }
  | some e =>
    { s with history, schema := e.snapshot.schema, cardinalities := e.snapshot.cardinalities }

/-- A session without a stored history. -/
def start (host : Host) (schema : Schema) (cardinalities : OrderedMap Cardinality)
    (visible collapsed : List String) (maxEntries : Option Int) : Except HistoryError Session :=
  (History.reset host.settings host.stamp ⟨schema, cardinalities⟩ maxEntries).map fun history =>
    let s : Session :=
      { schema, cardinalities, history, visible := distinct visible,
        collapsed := distinct collapsed }
    s.moveTo history

/-! ## Committing -/

/-- The database schemas that are shown when the tables of a schema are. -/
def shownWith (visible : List String) (schema : Schema) : List String :=
  (schema.tables.values.filterMap fun t => filled t.schema).foldl addName visible

/-- Installs a schema and records it. -/
def commit (stamp : Stamp) (s : Session) (schema : Schema) (label : Label) : Logged Session :=
  Logged.within [("history_label", .str label.text)] do
    let edges ← Edge.edges schema.tables s.cardinalities
    let cardinalities ← Edge.prune s.cardinalities edges
    let s := { s with schema, cardinalities, visible := shownWith s.visible schema }
    match ← s.history.push { stamp, label := label.text, snapshot := s.snapshot } with
    | none => return s
    | some history =>
      Logged.log .debug .session ("Recorded '" ++ label.text ++ "'")
      return s.moveTo history

/-! ## Operations -/

/-- The session after undoing, if there is something to undo. -/
def undo? (s : Session) : Option Session := s.history.undo?.map s.moveTo

/-- The session after redoing, if there is something to redo. -/
def redo? (s : Session) : Option Session := s.history.redo?.map s.moveTo

/-- Makes an edit and records it, under its own label or another one. -/
def perform (host : Host) (s : Session) (e : Edit) (label : Option Label) :
    Action SessionError (Session × EditResult) := do
  let (schema, result) ← (e.apply s.schema).adapt .edit
  let s ← s.commit host.stamp schema (label.getD (e.label s.schema schema))
  return (s, result)

/-- The JSON forms of the tables of a schema. -/
def rawTables (s : Schema) : OrderedMap Json := s.tables.map fun _ t => t.toJson

/-- The JSON forms of the enum types of a schema. -/
def rawEnums (s : Schema) : OrderedMap Json := s.enums.map fun _ e => e.toJson

/-- Reads a document and lays it over the schema. -/
def importDocument (host : Host) (s : Session) (text : String) :
    Action SessionError (Session × EditResult) :=
  Action.within [("operation", .str "import_sql")] do
    let read ← (Schema.ofDocument text).adapt .parse
    s.perform host (.addTables (rawTables read) (rawEnums read)) (some .importDocument)

/-- Reads a document and puts it in the place of the schema. -/
def applyDocument (host : Host) (s : Session) (text : String) :
    Action SessionError (Session × EditResult) :=
  Action.within [("operation", .str "apply_sql")] do
    let read ← (Schema.ofDocument text).adapt .parse
    s.perform host (.replaceTables (rawTables read) (some (rawEnums read))) (some .applyDocument)

/-- The edges of the schema. -/
def edges (s : Session) : Logged (List Edge) := Edge.edges s.schema.tables s.cardinalities

/-- Sets the cardinality of an edge. -/
def setCardinality (host : Host) (s : Session) (id name : String) :
    Action SessionError Session := do
  let edges ← s.edges
  if edges.all fun e => e.id != id then throw (.edit (.refused (.noEdge id)))
  match Cardinality.ofName? name with
  | none => throw (.unknownCardinality name)
  | some c =>
    let s := { s with cardinalities := s.cardinalities.insert id c }
    s.commit host.stamp s.schema .updateRelationship

/-- The text of the schema or of one of its tables. -/
def generate (host : Host) (s : Session) (only : Option String) : Action SessionError String :=
  match host.settings with
  | .error e => throw (.settings e)
  | .ok settings => (Ddl.generate settings.render s.schema only).adapt .generate

end Session

end Schemata
