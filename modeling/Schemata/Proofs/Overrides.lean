/-
  No cardinality outlives its edge.

  * `Snapshot.Grounded`: all that is said about edges is said about edges of the snapshot's own tables;
    `grounded_install`: whatever was said before, it is so of what a commit installs;
  * `runCalls_grounded`: of every snapshot that a session comes to from one about which nothing is said.
-/
import Schemata.Proofs.Reloading

namespace Schemata

open Log

/-! ## Edges of numbered tables -/

namespace Edge

variable {tables : OrderedMap Table} {c : OrderedMap Cardinality} {e : Edge}
  {f : String → Table → Table}

/-- The tables differ at most in what their edges do not depend on. -/
structure KeepsEdges (f : String → Table → Table) : Prop where
  title : ∀ key t, (f key t).title = t.title
  schema : ∀ key t, (f key t).schema = t.schema
  columns : ∀ key t, (f key t).columns = t.columns

theorem KeepsEdges.ofColumn_eq (hf : KeepsEdges f) (key : String) (t : Table) (i : Nat)
    (col : Column) :
    ofColumn (tables.map f) c key (f key t) i col = ofColumn tables c key t i col := by
  have hlocate : locate? (tables.map f) = locate? tables := by
    funext key' name
    rw [locate?, locate?, OrderedMap.get?_map]
    cases tables.get? key' with
    | none => rfl
    | some u =>
      simp only [Option.map_some, Option.bind_some, Table.columnIndex?, hf.columns]
  have htarget : target? (f key t) = target? t := by
    funext reference
    rw [target?, target?, hf.schema]
  rw [ofColumn, ofColumn, hlocate, htarget, hf.title]

theorem KeepsEdges.ofColumns_eq (hf : KeepsEdges f) (key : String) (t : Table) (i : Nat)
    (columns : List Column) :
    ofColumns (tables.map f) c key (f key t) i columns = ofColumns tables c key t i columns := by
  induction columns generalizing i with
  | nil => rfl
  | cons col columns ih => simp only [ofColumns, hf.ofColumn_eq, ih]

theorem KeepsEdges.edges_eq (hf : KeepsEdges f) : edges (tables.map f) c = edges tables c := by
  have hentries : ∀ l : List (String × Table),
      ofEntries (tables.map f) c (l.map fun e => (e.1, f e.1 e.2)) = ofEntries tables c l := by
    intro l
    induction l with
    | nil => rfl
    | cons e l ih => simp only [List.map_cons, ofEntries, hf.columns, hf.ofColumns_eq, ih]
  exact hentries tables.entries

theorem mem_keys_pruned {d : OrderedMap Cardinality} {id : String} (h : id ∈ (pruned tables c).keys) :
    id ∈ (edges tables d).value.map Edge.id := by
  rw [pruned_eq c d] at h
  obtain ⟨entry, hm, rfl⟩ := List.mem_map.1 h
  exact List.contains_iff_mem.1 (List.mem_filter.1 hm).2

end Edge

/-! ## Snapshots -/

namespace Snapshot

variable {a : Snapshot}

/-- All that is said about edges is said about edges of the tables. -/
def Grounded (a : Snapshot) : Prop :=
  ∀ id ∈ a.cardinalities.keys, ∃ e ∈ (Edge.edges a.schema.tables a.cardinalities).value, e.id = id

/-- Where a table is drawn does not matter for its edges. -/
theorem edges_numbered (a : Snapshot) (serial : Nat) (c : OrderedMap Cardinality) :
    Edge.edges (a.numbered serial).schema.tables c = Edge.edges a.schema.tables c := by
  have hkeeps : Edge.KeepsEdges fun _ t =>
      { t with position := t.position.map (Position.numbered serial) } :=
    ⟨fun _ _ => rfl, fun _ _ => rfl, fun _ _ => rfl⟩
  exact hkeeps.edges_eq

theorem Grounded.numbered (h : a.Grounded) (serial : Nat) : (a.numbered serial).Grounded := by
  intro id hid
  obtain ⟨e, he, hid⟩ := h id hid
  exact ⟨e, by rwa [edges_numbered], hid⟩

theorem grounded_of_keys (h : a.cardinalities.keys = []) : a.Grounded := by
  intro id hid
  rw [h] at hid
  cases hid

end Snapshot

namespace Session

variable {host : Host} {s s' : Session}

/-! ## Grounded sessions -/

/-- Whatever was said about edges, only what is said about edges of the schema is installed. -/
theorem grounded_install (s : Session) (schema : Schema) :
    (s.install schema).snapshot.Grounded := by
  intro id hid
  obtain ⟨e, he, hid⟩ := List.mem_map.1 (Edge.mem_keys_pruned hid)
  exact ⟨e, he, hid⟩

theorem commits_grounded (hs : s.Everywhere Snapshot.Grounded) (h : s.Commits s') :
    s'.Everywhere Snapshot.Grounded := by
  obtain ⟨cardinalities, stamp, schema, label, rfl⟩ := h
  exact everywhere_commit (s := { s with cardinalities }) hs.entries (grounded_install _ schema)
    fun _ serial ha => ha.numbered serial

/-- **One operation.** -/
theorem after_grounded (hs : s.Everywhere Snapshot.Grounded) (host : Host)
    (op : SessionOperation) : (s.after host op).Everywhere Snapshot.Grounded :=
  hs.after fun _ _ hr => commits_grounded hs (commits_of_edited hr)

/-- **No stale cardinalities.** A session starts without cardinalities and goes through any operations:
    then every id that has a cardinality is the id of an edge of the live tables, and so it is in
    the snapshots of all entries of the history. -/
theorem runCalls_grounded {schema : Schema} {visible collapsed : List String}
    {limit : Option Int} (hstart : start host schema {} visible collapsed limit = .ok s)
    (calls : List (Host × SessionOperation)) :
    (s.runCalls calls).Everywhere Snapshot.Grounded := by
  have hs : s.Everywhere Snapshot.Grounded :=
    everywhere_start (Snapshot.grounded_of_keys rfl) (fun _ serial ha => ha.numbered serial) hstart
  clear hstart
  induction calls generalizing s with
  | nil => exact hs
  | cons call calls ih => exact ih (after_grounded hs call.1 call.2)

/-- A reference gets a cardinality, loses it with its target, and has it back after that is undone. -/
def overrideCalls : List (Host × SessionOperation) :=
  [(plainHost, .importDocument "CREATE TABLE b (id int); CREATE TABLE a (b int REFERENCES b (id));"),
   (plainHost, .setCardinality "a.b-b.id" "one-to-one"),
   (plainHost, .edit (.deleteTable "b")), (plainHost, .undo)]

theorem runCalls_grounded_override : start plainHost {} {} [] [] none = .ok blankSession ∧
    (blankSession.runCalls (overrideCalls.take 3)).cardinalities.keys = [] ∧
    (blankSession.runCalls overrideCalls).cardinalities.keys = ["a.b-b.id"] ∧
    (blankSession.runCalls overrideCalls).Everywhere Snapshot.Grounded :=
  ⟨start_blank, by decide +kernel, by decide +kernel, runCalls_grounded start_blank overrideCalls⟩

end Session

end Schemata
