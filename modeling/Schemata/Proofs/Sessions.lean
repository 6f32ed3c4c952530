/-
  What a session keeps over all its operations.

  * `commit_cases`: installing a schema either finds nothing new, and then the history stays as it
    is, or records one entry, whose snapshot becomes the live schema;
  * `run_cases`: an operation that succeeds installs a schema, undoes or redoes;
  * `Everywhere p`: a property of snapshots holds of the live one and of those of all entries; moving
    in the history keeps it so, and a commit does if what it installs has the property;
  * `KeptByEdits`: what edits keep, a session keeps over all its operations;
  * `Settled` says that the live schema agrees with the snapshot of the current entry; it holds of a
    new session and is kept by every operation (`after_settled`);
  * `session_invariant` collects what follows for all runs of operations.
-/
import Schemata.Proofs.Actions
import Schemata.Proofs.Branch
import Schemata.Session.Operation

namespace Schemata

open Log

namespace History

variable {h : History}

/-- The entry at the position of the history is the current one. -/
theorem getElem?_index (h : History) (hp : h.past ≠ []) :
    h.entries[h.index.toNat]? = h.current? := by
  have hpos : 0 < h.past.length := List.length_pos_iff.2 hp
  have hi : h.index.toNat = h.past.length - 1 := by simp only [index]; omega
  rw [hi, entries, List.getElem?_append_left (by omega), current?, List.getLast?_eq_getElem?]

theorem past_ne_nil {c : HistoryEntry} (hc : h.current? = some c) : h.past ≠ [] := by
  rintro hp
  simp [current?, hp] at hc

@[simp] theorem current?_record (hl : 1 ≤ h.maxEntries) (e : HistoryEntry) :
    (h.record e).current? = some (e.numbered h.nextSerial) := by
  have hk : h.excess ≤ h.past.length := by simp only [excess]; omega
  rw [record, current?, List.drop_append_of_le_length hk, List.getLast?_append_of_ne_nil _ (by simp)]
  rfl

/-- Recording adds one entry, numbered, to those that are kept. -/
theorem mem_entries_record {d e : HistoryEntry} (hd : d ∈ (h.record e).entries) :
    d ∈ h.entries ∨ d = e.numbered h.nextSerial := by
  rw [record, entries, List.append_nil] at hd
  refine (List.mem_append.1 (List.mem_of_mem_drop hd)).imp (fun hd => ?_) List.mem_singleton.1
  exact List.mem_append_left _ hd

end History

namespace Session

variable {host : Host} {s s' : Session}

/-! ## One operation -/

/-- The session with a schema installed that is not recorded yet. -/
def install (s : Session) (schema : Schema) : Session :=
  { s with
    schema
    cardinalities :=
      (Edge.prune s.cardinalities (Edge.edges schema.tables s.cardinalities).value).value
    visible := shownWith s.visible schema }

/-- The entry that records a session. -/
def entry (s : Session) (stamp : Stamp) (label : Label) : HistoryEntry :=
  { stamp, label := label.text, snapshot := s.snapshot }

theorem value_commit {stamp : Stamp} {schema : Schema} {label : Label} :
    (s.commit stamp schema label).value =
      if s.history.repeats ((s.install schema).entry stamp label) then s.install schema
      else (s.install schema).moveTo (s.history.record ((s.install schema).entry stamp label)) := by
  have hvalue : (s.commit stamp schema label).value =
      ((s.history.push ((s.install schema).entry stamp label)).value.map
        (s.install schema).moveTo).getD (s.install schema) := by
    simp only [commit, Logged.value_within, Logged.value_bind]
    split
    · next hp =>
      have hp : (s.history.push ((s.install schema).entry stamp label)).value = none := hp
      rw [hp]
      rfl
    · next history hp =>
      have hp : (s.history.push ((s.install schema).entry stamp label)).value = some history := hp
      rw [hp]
      rfl
  rw [hvalue, History.push]
  split
  · rfl
  · dsimp only
    split <;> rfl

/-- A commit installs some snapshot.  If it says nothing new, the history stays; otherwise it is
    recorded, and the recorded form becomes the live one. -/
theorem commit_cases (hl : 1 ≤ s.history.maxEntries) {stamp : Stamp} {schema : Schema}
    {label : Label} (hs : (s.commit stamp schema label).value = s') :
    ∃ e : HistoryEntry,
      (s.history.repeats e = true ∧ s'.history = s.history ∧ s'.snapshot = e.snapshot) ∨
      (s.history.repeats e = false ∧ s'.history = s.history.record e ∧
        s'.snapshot = (e.numbered s.history.nextSerial).snapshot) := by
  subst hs
  refine ⟨(s.install schema).entry stamp label, ?_⟩
  rw [value_commit]
  split
  · next hr => exact .inl ⟨hr, rfl, rfl⟩
  · next hr =>
    refine .inr ⟨by simpa using hr, ?_, ?_⟩ <;>
      simp only [moveTo, History.current?_record hl]
    rfl

/-- The second session is the first one after a commit. -/
def Commits (s s' : Session) : Prop :=
  ∃ cardinalities stamp schema label,
    (commit stamp { s with cardinalities } schema label).value = s'

/-- An edit that succeeds commits its effect on the live schema. -/
theorem perform_ok {e : Edit} {label : Option Label} {r : EditResult}
    (h : (s.perform host e label).result = .ok (s', r)) :
    ∃ schema label', (e.apply s.schema).result = .ok (schema, r) ∧
      (s.commit host.stamp schema label').value = s' := by
  obtain ⟨⟨schema, answer⟩, happly, h⟩ := Action.result_bind_ok h
  obtain ⟨t, ht, h⟩ := Action.result_bind_ok h
  simp only [Action.result_monadLift, Action.result_pure, Except.ok.injEq, Prod.mk.injEq] at ht h
  obtain ⟨rfl, rfl⟩ := h
  rw [Action.result_adapt] at happly
  cases hedit : (e.apply s.schema).result with
  | error error =>
    rw [hedit] at happly
    cases happly
  | ok edited =>
    rw [hedit] at happly
    cases happly
    exact ⟨schema, _, rfl, ht⟩

theorem perform_commits {e : Edit} {label : Option Label} {r : EditResult}
    (h : (s.perform host e label).result = .ok (s', r)) : s.Commits s' := by
  obtain ⟨schema, label', -, h⟩ := perform_ok h
  exact ⟨s.cardinalities, _, schema, label', h⟩

theorem importDocument_commits {text : String} {r : EditResult}
    (h : (s.importDocument host text).result = .ok (s', r)) : s.Commits s' := by
  rw [importDocument, Action.result_within] at h
  obtain ⟨_, -, h⟩ := Action.result_bind_ok h
  exact perform_commits h

theorem applyDocument_commits {text : String} {r : EditResult}
    (h : (s.applyDocument host text).result = .ok (s', r)) : s.Commits s' := by
  rw [applyDocument, Action.result_within] at h
  obtain ⟨_, -, h⟩ := Action.result_bind_ok h
  exact perform_commits h

/-- Setting a cardinality commits the live schema. -/
theorem setCardinality_ok {id name : String}
    (h : (s.setCardinality host id name).result = .ok s') :
    ∃ cardinalities, (commit host.stamp { s with cardinalities } s.schema .updateRelationship).value =
      s' := by
  unfold setCardinality at h
  obtain ⟨edges, -, h⟩ := Action.result_bind_ok h
  cases hc : Cardinality.ofName? name with
  | none =>
    simp only [hc] at h
    split at h <;> cases h
  | some c =>
    simp only [hc] at h
    split at h
    · cases h
    · cases h
      exact ⟨_, rfl⟩

theorem setCardinality_commits {id name : String}
    (h : (s.setCardinality host id name).result = .ok s') : s.Commits s' := by
  obtain ⟨cardinalities, h⟩ := setCardinality_ok h
  exact ⟨cardinalities, _, _, _, h⟩

theorem of_asEdited_ok {x : Action SessionError (Session × EditResult)} {answer : SessionResult}
    (h : (asEdited x).result = .ok (s', answer)) :
    ∃ r, answer = .edited r ∧ x.result = .ok (s', r) := by
  obtain ⟨⟨t, r⟩, hr, he⟩ := Action.result_map_ok h
  cases he
  exact ⟨r, rfl, hr⟩

/-- An operation that succeeds edits and commits, undoes or redoes. -/
theorem run_cases {op : SessionOperation} {answer : SessionResult}
    (h : (s.run host op).result = .ok (s', answer)) :
    ((∃ r, answer = .edited r) ∧ s.Commits s') ∨
      (op = .undo ∧ s' = s.undo?.getD s) ∨ op = .redo ∧ s' = s.redo?.getD s := by
  cases op with
  | edit e =>
    obtain ⟨r, ha, hx⟩ := of_asEdited_ok h
    exact .inl ⟨⟨r, ha⟩, perform_commits hx⟩
  | arrange places =>
    obtain ⟨r, ha, hx⟩ := of_asEdited_ok h
    exact .inl ⟨⟨r, ha⟩, perform_commits hx⟩
  | importDocument text =>
    obtain ⟨r, ha, hx⟩ := of_asEdited_ok h
    exact .inl ⟨⟨r, ha⟩, importDocument_commits hx⟩
  | applyDocument text =>
    obtain ⟨r, ha, hx⟩ := of_asEdited_ok h
    exact .inl ⟨⟨r, ha⟩, applyDocument_commits hx⟩
  | setCardinality id name =>
    obtain ⟨t, hx, he⟩ := Action.result_map_ok h
    cases he
    exact .inl ⟨⟨_, rfl⟩, setCardinality_commits hx⟩
  | undo =>
    cases h
    exact .inr (.inl ⟨rfl, rfl⟩)
  | redo =>
    cases h
    exact .inr (.inr ⟨rfl, rfl⟩)

/-- An operation that answers as an edit has committed. -/
theorem commits_of_edited {op : SessionOperation} {r : EditResult}
    (h : (s.run host op).result = .ok (s', .edited r)) : s.Commits s' := by
  obtain ⟨-, hc⟩ | ⟨rfl, -⟩ | ⟨rfl, -⟩ := run_cases h
  · exact hc
  · cases h
  · cases h

/-- A history starts with one entry, that of the first schema, and the session is as it says. -/
theorem start_ok {schema : Schema} {cardinalities : OrderedMap Cardinality}
    {visible collapsed : List String} {limit : Option Int}
    (h : start host schema cardinalities visible collapsed limit = .ok s) :
    ∃ (m : Nat) (e : HistoryEntry), 1 ≤ m ∧ s.history = { past := [e], maxEntries := m } ∧
      s.snapshot = e.snapshot ∧ e.snapshot = Snapshot.numbered 1 ⟨schema, cardinalities⟩ := by
  unfold start History.reset at h
  split at h
  · cases h
  · cases hm : History.limitOf host.settings limit with
    | error error =>
      rw [hm] at h
      cases h
    | ok m =>
      rw [hm] at h
      cases h
      exact ⟨m, _, History.pos_of_limitOf hm, rfl, rfl, rfl⟩

/-! ## Every snapshot -/

section

variable {p : Snapshot → Prop}

theorem mem_entries_of_current? {h : History} {e : HistoryEntry} (he : h.current? = some e) :
    e ∈ h.entries :=
  List.mem_append_left _ (List.mem_of_getLast? he)

/-- The live snapshot and those of all entries of the history have the property. -/
structure Everywhere (p : Snapshot → Prop) (s : Session) : Prop where
  live : p s.snapshot
  entries : ∀ e ∈ s.history.entries, p e.snapshot

theorem Everywhere.moveTo (hs : s.Everywhere p) {h : History}
    (he : ∀ e ∈ h.entries, p e.snapshot) : (s.moveTo h).Everywhere p := by
  unfold Session.moveTo
  split
  · exact ⟨hs.live, he⟩
  · next e hcurrent => exact ⟨he e (mem_entries_of_current? hcurrent), he⟩

theorem Everywhere.undo? (hs : s.Everywhere p) (h : s.undo? = some s') : s'.Everywhere p := by
  obtain ⟨h', hu, rfl⟩ := Option.map_eq_some_iff.1 h
  exact hs.moveTo (History.entries_of_undo? hu ▸ hs.entries)

theorem Everywhere.redo? (hs : s.Everywhere p) (h : s.redo? = some s') : s'.Everywhere p := by
  obtain ⟨h', hr, rfl⟩ := Option.map_eq_some_iff.1 h
  exact hs.moveTo (History.entries_of_redo? hr ▸ hs.entries)

/-- Only what a commit installs matters, not the snapshot that it takes the place of. -/
theorem everywhere_commit (he : ∀ e ∈ s.history.entries, p e.snapshot) {schema : Schema}
    (hinstall : p (s.install schema).snapshot)
    (hnumbered : ∀ a serial, p a → p (a.numbered serial)) {stamp : Stamp} {label : Label} :
    (s.commit stamp schema label).value.Everywhere p := by
  have hinstalled : (s.install schema).Everywhere p := ⟨hinstall, he⟩
  rw [value_commit]
  split
  · exact hinstalled
  · refine hinstalled.moveTo fun d hd => ?_
    obtain hd | rfl := History.mem_entries_record hd
    · exact he d hd
    · exact hnumbered _ _ hinstall

theorem everywhere_start {schema : Schema} {cardinalities : OrderedMap Cardinality}
    {visible collapsed : List String} {limit : Option Int} (hp : p ⟨schema, cardinalities⟩)
    (hnumbered : ∀ a serial, p a → p (a.numbered serial))
    (h : start host schema cardinalities visible collapsed limit = .ok s) : s.Everywhere p := by
  obtain ⟨m, e, -, hhistory, hlive, hfirst⟩ := start_ok h
  have hentry : p e.snapshot := hfirst ▸ hnumbered _ 1 hp
  refine ⟨hlive ▸ hentry, fun d hd => ?_⟩
  rw [hhistory] at hd
  rw [List.mem_singleton.1 hd]
  exact hentry

/-- Undoing and redoing only move, so all depends on what the edits commit. -/
theorem Everywhere.after (hs : s.Everywhere p) {op : SessionOperation}
    (h : ∀ t r, (s.run host op).result = .ok (t, .edited r) → t.Everywhere p) :
    (s.after host op).Everywhere p := by
  unfold Session.after
  cases hr : (s.run host op).result with
  | error e => exact hs
  | ok r =>
    obtain ⟨t, answer⟩ := r
    obtain ⟨⟨r, rfl⟩, -⟩ | ⟨-, rfl⟩ | ⟨-, rfl⟩ := run_cases hr
    · exact h t r hr
    · cases hu : s.undo? with
      | none => exact hs
      | some t => exact hs.undo? hu
    · cases hr : s.redo? with
      | none => exact hs
      | some t => exact hs.redo? hr

end

/-! ## Schemas that edits keep -/

/-- A property of schemas that is kept by the edits of some kind, among them those that documents and
    layouts make, and by numbering. -/
structure KeptByEdits (q : Edit → Prop) (p : Schema → Prop) : Prop where
  apply : ∀ s e s' r, p s → q e → (Edit.apply s e).result = .ok (s', r) → p s'
  numbered : ∀ (a : Snapshot) serial, p a.schema → p (a.numbered serial).schema
  moveTables : ∀ places, q (.moveTables places)
  addTables : ∀ tables enums, q (.addTables tables enums)
  replaceTables : ∀ tables enums, q (.replaceTables tables enums)

namespace KeptByEdits

variable {q : Edit → Prop} {p : Schema → Prop}

theorem commit (h : KeptByEdits q p) (hs : s.Everywhere fun a => p a.schema) {schema : Schema}
    (hschema : p schema) {stamp : Stamp} {label : Label} :
    (s.commit stamp schema label).value.Everywhere fun a => p a.schema :=
  everywhere_commit hs.entries hschema h.numbered

theorem perform (h : KeptByEdits q p) (hs : s.Everywhere fun a => p a.schema) {e : Edit}
    (he : q e) {label : Option Label} {r : EditResult}
    (hr : (s.perform host e label).result = .ok (s', r)) : s'.Everywhere fun a => p a.schema := by
  obtain ⟨schema, label', happly, rfl⟩ := perform_ok hr
  exact h.commit hs (h.apply _ _ _ _ hs.live he happly)

/-- **One operation.** -/
theorem after (h : KeptByEdits q p) (hs : s.Everywhere fun a => p a.schema) (host : Host)
    {op : SessionOperation} (hop : ∀ e, op = .edit e → q e) :
    (s.after host op).Everywhere fun a => p a.schema := by
  refine hs.after fun t r hr => ?_
  cases op with
  | edit e =>
    obtain ⟨r, -, hx⟩ := of_asEdited_ok hr
    exact h.perform hs (hop e rfl) hx
  | arrange places =>
    obtain ⟨r, -, hx⟩ := of_asEdited_ok hr
    exact h.perform hs (h.moveTables places) hx
  | importDocument text =>
    obtain ⟨r, -, hx⟩ := of_asEdited_ok hr
    rw [importDocument, Action.result_within] at hx
    obtain ⟨_, -, hx⟩ := Action.result_bind_ok hx
    exact h.perform hs (h.addTables _ _) hx
  | applyDocument text =>
    obtain ⟨r, -, hx⟩ := of_asEdited_ok hr
    rw [applyDocument, Action.result_within] at hx
    obtain ⟨_, -, hx⟩ := Action.result_bind_ok hx
    exact h.perform hs (h.replaceTables _ _) hx
  | setCardinality id name =>
    obtain ⟨t, hx, he⟩ := Action.result_map_ok hr
    cases he
    obtain ⟨cardinalities, rfl⟩ := setCardinality_ok hx
    exact h.commit (s := { s with cardinalities }) ⟨hs.live, hs.entries⟩ hs.live
  | undo => cases hr
  | redo => cases hr

end KeptByEdits

/-! ## The invariant -/

/-- The live schema agrees with the snapshot of the current entry; the snapshots of all entries
    agree with themselves. -/
structure Settled (s : Session) : Prop where
  limit : 1 ≤ s.history.maxEntries
  entries : ∀ e ∈ s.history.entries, e.snapshot.Agrees e.snapshot
  live : ∃ e, s.history.current? = some e ∧ e.snapshot.Agrees s.snapshot

theorem commits_settled (hs : s.Settled) (h : s.Commits s') : s'.Settled := by
  obtain ⟨cardinalities, stamp, schema, label, h⟩ := h
  obtain ⟨e, ⟨hr, hh, hl⟩ | ⟨-, hh, hl⟩⟩ :=
    commit_cases (s := { s with cardinalities }) hs.limit h
  · obtain ⟨c, hc, -⟩ := hs.live
    have hsame : c.snapshot.same e.snapshot = true := by simpa [History.repeats, hc] using hr
    refine ⟨by rw [hh]; exact hs.limit, by rw [hh]; exact hs.entries, c, by rw [hh]; exact hc, ?_⟩
    rw [hl]
    exact Snapshot.agrees_of_same hsame
  · have hself := Snapshot.agrees_numbered s.history.nextSerial e.snapshot
    refine ⟨by rw [hh]; exact hs.limit, ?_, e.numbered s.history.nextSerial, ?_, ?_⟩
    · rw [hh]
      intro d hd
      obtain hd | rfl := History.mem_entries_record hd
      · exact hs.entries d hd
      · exact hself
    · rw [hh]; exact History.current?_record hs.limit e
    · rw [hl]; exact hself

theorem moveTo_settled {h : History} (hs : s.Settled) (he : h.entries = s.history.entries)
    (hm : h.maxEntries = s.history.maxEntries) (hp : h.past ≠ []) : (s.moveTo h).Settled := by
  obtain ⟨c, hc⟩ : ∃ c, h.current? = some c := ⟨_, List.getLast?_eq_some_getLast hp⟩
  have hself := hs.entries c (he ▸ mem_entries_of_current? hc)
  simp only [moveTo, hc]
  exact ⟨hm ▸ hs.limit, he ▸ hs.entries, c, hc, hself⟩

theorem undo?_settled (hs : s.Settled) (h : s.undo? = some s') : s'.Settled := by
  obtain ⟨h', hu, rfl⟩ := Option.map_eq_some_iff.1 h
  have he := History.entries_of_undo? hu
  obtain ⟨p, c, hp, -, rfl⟩ := History.undo?_eq_some hu
  exact moveTo_settled hs he rfl hp

theorem redo?_settled (hs : s.Settled) (h : s.redo? = some s') : s'.Settled := by
  obtain ⟨h', hr, rfl⟩ := Option.map_eq_some_iff.1 h
  have he := History.entries_of_redo? hr
  obtain ⟨c, f, -, rfl⟩ := History.redo?_eq_some hr
  exact moveTo_settled hs he rfl (by simp)

/-- **One operation.** Every operation keeps the invariant, whether it succeeds or fails. -/
theorem after_settled (hs : s.Settled) (host : Host) (op : SessionOperation) :
    (s.after host op).Settled := by
  unfold after
  cases hr : (s.run host op).result with
  | error e => exact hs
  | ok r =>
    obtain ⟨t, answer⟩ := r
    obtain ⟨-, h⟩ | ⟨-, rfl⟩ | ⟨-, rfl⟩ := run_cases hr
    · exact commits_settled hs h
    · cases hu : s.undo? with
      | none => exact hs
      | some t => exact undo?_settled hs hu
    · cases hr : s.redo? with
      | none => exact hs
      | some t => exact redo?_settled hs hr

/-! ## Runs -/

/-- The session after several operations, each in its own surroundings. -/
def runCalls (s : Session) (calls : List (Host × SessionOperation)) : Session :=
  calls.foldl (fun s call => s.after call.1 call.2) s

theorem runCalls_settled (hs : s.Settled) (calls : List (Host × SessionOperation)) :
    (s.runCalls calls).Settled := by
  induction calls generalizing s with
  | nil => exact hs
  | cons call calls ih => exact ih (after_settled hs call.1 call.2)

/-- **A run.** What edits keep holds of all that is done, if it held at the start. -/
theorem KeptByEdits.runCalls {q : Edit → Prop} {p : Schema → Prop} (h : KeptByEdits q p)
    (hs : s.Everywhere fun a => p a.schema) (calls : List (Host × SessionOperation))
    (hq : ∀ call ∈ calls, ∀ e, call.2 = .edit e → q e) :
    (s.runCalls calls).Everywhere fun a => p a.schema := by
  induction calls generalizing s with
  | nil => exact hs
  | cons call calls ih =>
    rw [List.forall_mem_cons] at hq
    exact ih (h.after hs call.1 hq.1) hq.2

theorem start_settled {schema : Schema} {cardinalities : OrderedMap Cardinality}
    {visible collapsed : List String} {limit : Option Int}
    (h : start host schema cardinalities visible collapsed limit = .ok s) : s.Settled := by
  obtain ⟨m, e, hm, hhistory, hlive, hfirst⟩ := start_ok h
  have hself : e.snapshot.Agrees e.snapshot := hfirst ▸ Snapshot.agrees_numbered 1 _
  refine ⟨hhistory ▸ hm, fun d hd => ?_, e, by rw [hhistory]; rfl, hlive ▸ hself⟩
  rw [hhistory] at hd
  rw [List.mem_singleton.1 hd]
  exact hself

/-! ## Undoing and redoing -/

/-- Several successful moves in a row. -/
def times (move : Session → Option Session) : Nat → Session → Option Session
  | 0, s => some s
  | k + 1, s => (move s).bind (times move k)

theorem times_succ (move : Session → Option Session) (k : Nat) (s : Session) :
    times move (k + 1) s = (times move k s).bind move := by
  induction k generalizing s with
  | zero => simp [times]
  | succ k ih =>
    rw [times, Option.bind_congr fun t _ => ih t, times, Option.bind_assoc]

theorem Settled.agrees_self (hs : s.Settled) : s.snapshot.Agrees s.snapshot := by
  obtain ⟨c, -, hc⟩ := hs.live
  exact hc.symm.trans hc

/-- Redoing as often as was undone leads back, by induction on the number of moves: the last redoing
    takes back the first undoing. -/
theorem redo_undo (hs : s.Settled) {k : Nat} (h : times undo? k s = some s') :
    ∃ t, times redo? k s' = some t ∧ t.history = s.history ∧ t.snapshot.Agrees s.snapshot := by
  induction k generalizing s with
  | zero =>
    cases h
    exact ⟨_, rfl, rfl, hs.agrees_self⟩
  | succ k ih =>
    obtain ⟨s₁, hu, hk⟩ := Option.bind_eq_some_iff.1 h
    obtain ⟨t₁, ht₁, hh, -⟩ := ih (undo?_settled hs hu) hk
    obtain ⟨h₁, hu', rfl⟩ := Option.map_eq_some_iff.1 hu
    have hh₁ : t₁.history = h₁ := by
      rw [hh, moveTo]
      split <;> rfl
    have hr : t₁.redo? = some (t₁.moveTo s.history) := by
      rw [redo?, hh₁, History.redo?_of_undo? hu', Option.map_some]
    obtain ⟨c, hc, hlive⟩ := hs.live
    refine ⟨t₁.moveTo s.history, ?_, ?_, ?_⟩
    · rw [times_succ, ht₁, Option.bind_some, hr]
    · simp only [moveTo, hc]
    · simp only [moveTo, hc]; exact hlive

/-! ## Summary -/

/-- What a session satisfies at any time. -/
structure Consistent (s : Session) : Prop where
  /-- The live schema and its cardinalities are those of the entry at the position of the history. -/
  live : 0 ≤ s.history.index ∧ ∃ e, s.history.entries[s.history.index.toNat]? = some e ∧
    e.snapshot.Agrees s.snapshot
  /-- An operation that fails changes nothing. -/
  failed : ∀ host op error, (s.run host op).result = .error error → s.after host op = s
  /-- An edit that succeeds leaves the history as it is, or puts one entry in the place of all
      entries after the current one; the oldest entries may be dropped. -/
  edited : ∀ host op s' r, (s.run host op).result = .ok (s', .edited r) →
    s'.history = s.history ∨ ∃ e, s'.history.entries =
      (s.history.entries.take (s.history.index + 1).toNat ++ [e]).drop s.history.excess ∧
      s'.history.index + 1 = s'.history.entries.length
  /-- As many redos as there were undos lead back. -/
  undone : ∀ k s', times undo? k s = some s' →
    ∃ t, times redo? k s' = some t ∧ t.history = s.history ∧ t.snapshot.Agrees s.snapshot

theorem take_index (h : History) : h.entries.take (h.index + 1).toNat = h.past := by
  have : (h.index + 1).toNat = h.past.length := by simp only [History.index]; omega
  rw [this, History.entries, List.take_left]

theorem edited_history {op : SessionOperation} {r : EditResult} (hs : s.Settled)
    (h : (s.run host op).result = .ok (s', .edited r)) :
    s'.history = s.history ∨ ∃ e, s'.history = s.history.record e := by
  obtain ⟨cardinalities, stamp, schema, label, hc⟩ := commits_of_edited h
  obtain ⟨e, ⟨-, hh, -⟩ | ⟨-, hh, -⟩⟩ := commit_cases (s := { s with cardinalities }) hs.limit hc
  · exact .inl hh
  · exact .inr ⟨e, hh⟩

theorem Settled.consistent (hs : s.Settled) : s.Consistent := by
  obtain ⟨c, hc, hlive⟩ := hs.live
  have hp := History.past_ne_nil hc
  refine ⟨⟨?_, c, ?_, hlive⟩, ?_, ?_, fun k s' => redo_undo hs⟩
  · have : 0 < s.history.past.length := List.length_pos_iff.2 hp
    simp only [History.index]; omega
  · rw [History.getElem?_index _ hp, hc]
  · intro host op error he
    simp only [after, he]
  · intro host op s' r h
    refine (edited_history hs h).imp id ?_
    rintro ⟨e, he⟩
    refine ⟨e.numbered s.history.nextSerial, ?_, ?_⟩
    · rw [he, take_index, History.record, History.entries, List.append_nil]
    · rw [he]
      simp [History.record, History.entries, History.index]

/-- **Session invariant.** After every sequence of operations on a session that was opened without
    a stored history, the live schema is the one of the current entry, failures change nothing, an
    edit records at most one entry, and redoing takes back undoing. -/
theorem session_invariant {schema : Schema} {cardinalities : OrderedMap Cardinality}
    {visible collapsed : List String} {limit : Option Int}
    (h : start host schema cardinalities visible collapsed limit = .ok s)
    (calls : List (Host × SessionOperation)) : (s.runCalls calls).Consistent :=
  (runCalls_settled (start_settled h) calls).consistent

/-- A run with an edit, one that fails, and a way back. -/
theorem session_invariant_run : ∃ s : Session,
    start ⟨.ok {}, ⟨"1", 0⟩⟩ {} {} [] [] (some 2) = .ok s ∧
      (s.runCalls [(⟨.ok {}, ⟨"2", 1⟩⟩, .edit (.addTable "t" none [] none)),
        (⟨.ok {}, ⟨"3", 2⟩⟩, .edit (.deleteTable "u")),
        (⟨.ok {}, ⟨"4", 3⟩⟩, .undo)]).Consistent := by
  refine ⟨_, rfl, ?_⟩
  have hstart : start ⟨.ok {}, ⟨"1", 0⟩⟩ {} {} [] [] (some 2) = .ok _ := rfl
  exact session_invariant hstart _

end Session

end Schemata
