/-
  Histories against an unlimited branch.

  * `HistoryMove` are the moves of a history, `History.run` the effect of several of them; `effects`
    are the moves that have changed something, a recorded entry in the form it was recorded in;
  * a `Branch` keeps all entries and a cursor among them: recording cuts everything after the cursor
    and appends, undoing and redoing move the cursor;
  * `Sound` says what a history satisfies by itself (the cursor is among the entries, the limit is
    kept, consecutive entries differ), `TailOf` that it is what is left of a branch whose oldest
    entries are lost; `step_sound` and `step_tail` are the preservation by one move;
  * `follows_branch`: both hold after all moves from an opened history.
-/
import Mathlib.Data.List.Chain
import Schemata.History.Opening
import Schemata.Proofs.Snapshots

namespace Schemata

open Log

/-- A move of a history. -/
inductive HistoryMove where
  | push (e : HistoryEntry)
  | undo
  | redo

namespace History

variable {h : History} {b : Branch} {e : HistoryEntry}

/-! ## Moves -/

/-- The history after a move; one that is not possible leaves it as it is. -/
def step (h : History) : HistoryMove → History
  | .push e => (h.push e).value.getD h
  | .undo => h.undo?.getD h
  | .redo => h.redo?.getD h

/-- The history after several moves. -/
def run (h : History) (moves : List HistoryMove) : History := moves.foldl step h

/-- A move as far as it changes a history. -/
def effect? (h : History) : HistoryMove → Option HistoryMove
  | .push e => if h.repeats e then none else some (.push (e.numbered h.nextSerial))
  | .undo => h.undo?.map fun _ => .undo
  | .redo => h.redo?.map fun _ => .redo

/-- The moves that change something, each in the history that it meets. -/
def effects (h : History) : List HistoryMove → List HistoryMove
  | [] => []
  | move :: moves => (h.effect? move).toList ++ effects (h.step move) moves

end History

/-- All entries, the oldest first, and a cursor among them. -/
structure Branch where
  entries : List HistoryEntry
  /-- The position of the current entry, `-1` if there is none. -/
  cursor : Int

namespace Branch

/-- The branch that stands on the last of its entries. -/
def ofEntries (entries : List HistoryEntry) : Branch := ⟨entries, entries.length - 1⟩

/-- The current entry. -/
def current? (b : Branch) : Option HistoryEntry :=
  if b.cursor < 0 then none else b.entries[b.cursor.toNat]?

/-- The entries up to the cursor, followed by another one. -/
def append (b : Branch) (e : HistoryEntry) : Branch :=
  ofEntries (b.entries.take (b.cursor + 1).toNat ++ [e])

/-- The branch after a move. -/
def step (b : Branch) : HistoryMove → Branch
  | .push e => b.append e
  | .undo => if 0 < b.cursor then { b with cursor := b.cursor - 1 } else b
  | .redo => if b.cursor + 1 < b.entries.length then { b with cursor := b.cursor + 1 } else b

/-- The branch after several moves. -/
def replay (b : Branch) (moves : List HistoryMove) : Branch := moves.foldl step b

end Branch

namespace History

variable {h h' : History} {b : Branch} {e : HistoryEntry} {m : Nat}

/-! ## What a move does -/

theorem step_push (h : History) (e : HistoryEntry) :
    h.step (.push e) = if h.repeats e then h else h.record e := by
  simp only [step, push]
  cases h.repeats e <;> cases h.excess != 0 <;> rfl

/-- Undoing takes the last of at least two entries from the past to the future. -/
theorem undo?_eq_some (hu : h.undo? = some h') :
    ∃ p c, p ≠ [] ∧ h.past = p ++ [c] ∧ h' = { h with past := p, future := c :: h.future } := by
  unfold undo? at hu
  cases hc : h.current? with
  | none => rw [hc] at hu; cases hu
  | some c =>
    simp only [hc, Option.ite_none_right_eq_some, Option.some.injEq, canUndo,
      decide_eq_true_eq] at hu
    obtain ⟨hlen, rfl⟩ := hu
    have hp : h.past.dropLast ++ [c] = h.past := List.dropLast_append_getLast? c hc
    refine ⟨h.past.dropLast, c, ?_, hp.symm, rfl⟩
    intro hnil
    rw [← hp, hnil] at hlen
    simp at hlen

/-- Redoing takes the first entry from the future to the past. -/
theorem redo?_eq_some (hr : h.redo? = some h') :
    ∃ c f, h.future = c :: f ∧ h' = { h with past := h.past ++ [c], future := f } := by
  unfold redo? at hr
  cases hf : h.future with
  | nil => rw [hf] at hr; cases hr
  | cons c f =>
    rw [hf] at hr
    cases hr
    exact ⟨c, f, rfl, rfl⟩

@[simp] theorem maxEntries_step (h : History) (move : HistoryMove) :
    (h.step move).maxEntries = h.maxEntries := by
  cases move with
  | push e => rw [step_push]; split <;> rfl
  | undo =>
    cases hu : h.undo? with
    | none => simp [step, hu]
    | some h' =>
      obtain ⟨p, c, -, -, rfl⟩ := undo?_eq_some hu
      simp [step, hu]
  | redo =>
    cases hr : h.redo? with
    | none => simp [step, hr]
    | some h' =>
      obtain ⟨c, f, -, rfl⟩ := redo?_eq_some hr
      simp [step, hr]

/-! ## A history by itself -/

/-- The cursor is among the entries, the limit is kept, and consecutive entries differ. -/
structure Sound (h : History) (limit : Nat) : Prop where
  index_eq_iff : h.index = -1 ↔ h.entries = []
  index_mem : h.entries ≠ [] → 0 ≤ h.index ∧ h.index < h.entries.length
  length_le : h.entries.length ≤ limit
  differ : h.entries.IsChain fun a b => a.snapshot.same b.snapshot = false

/-! Without a past there is no future: this is all that the position has to satisfy. -/

theorem index_eq_neg_one_iff (hp : h.past = [] → h.future = []) :
    h.index = -1 ↔ h.entries = [] := by
  simp only [index, entries, List.append_eq_nil_iff]
  constructor
  · intro hi
    have : h.past = [] := List.length_eq_zero_iff.1 (by omega)
    exact ⟨this, hp this⟩
  · rintro ⟨hnil, -⟩
    simp [hnil]

theorem index_mem_entries (hp : h.past = [] → h.future = []) (hne : h.entries ≠ []) :
    0 ≤ h.index ∧ h.index < h.entries.length := by
  have : 0 < h.past.length := by
    rw [List.length_pos_iff]
    intro hnil
    exact hne (by simp [entries, hnil, hp hnil])
  simp only [index, entries, List.length_append]
  omega

theorem Sound.intro (hp : h.past = [] → h.future = []) (hl : h.entries.length ≤ m)
    (hd : h.entries.IsChain fun a b => a.snapshot.same b.snapshot = false) : h.Sound m :=
  ⟨index_eq_neg_one_iff hp, index_mem_entries hp, hl, hd⟩

/-- An entry that is recorded differs from the one before it, also after it is numbered. -/
theorem differ_of_not_repeats {c : HistoryEntry} (hc : h.current? = some c)
    (hr : h.repeats e = false) :
    c.snapshot.same (e.numbered h.nextSerial).snapshot = false := by
  rw [Bool.eq_false_iff]
  intro hs
  have : c.snapshot.same e.snapshot = true :=
    Snapshot.same_of_same_numbered (by simp [nextSerial, hc]) hs
  simp [repeats, hc, this] at hr

theorem record_sound (hs : h.Sound h.maxEntries)
    (hr : h.repeats e = false) : (h.record e).Sound h.maxEntries := by
  refine .intro (fun _ => rfl) (length_record_le h e) ?_
  simp only [record, entries, List.append_nil]
  refine List.IsChain.drop (List.isChain_append.2 ⟨hs.differ.left_of_append, .singleton _, ?_⟩) _
  intro c hc d hd
  simp only [List.head?_cons, Option.mem_def, Option.some.injEq] at hd
  subst hd
  exact differ_of_not_repeats hc hr

/-- **One move.** The laws of a history are kept by every move. -/
theorem step_sound (hs : h.Sound h.maxEntries) (move : HistoryMove) :
    (h.step move).Sound h.maxEntries := by
  cases move with
  | push e =>
    rw [step_push]
    cases hr : h.repeats e with
    | true => exact hs
    | false => exact record_sound hs hr
  | undo =>
    cases hu : h.undo? with
    | none => simpa [step, hu] using hs
    | some h' =>
      simp only [step, hu, Option.getD_some]
      have he := entries_of_undo? hu
      obtain ⟨p, c, hp, -, rfl⟩ := undo?_eq_some hu
      refine .intro (fun hnil => absurd hnil hp) ?_ ?_
      · rw [he]; exact hs.length_le
      · rw [he]; exact hs.differ
  | redo =>
    cases hr : h.redo? with
    | none => simpa [step, hr] using hs
    | some h' =>
      simp only [step, hr, Option.getD_some]
      have he := entries_of_redo? hr
      obtain ⟨c, f, -, rfl⟩ := redo?_eq_some hr
      refine .intro (fun hnil => by simp at hnil) ?_ ?_
      · rw [he]; exact hs.length_le
      · rw [he]; exact hs.differ

/-! ## A history and its branch -/

/-- The history is what is left of a branch that has lost its oldest entries, and both stand on the
    same entry. -/
structure TailOf (h : History) (b : Branch) : Prop where
  lost : ∃ lost, b.entries = lost ++ h.entries ∧ b.cursor = lost.length + h.index
  current : b.current? = h.current?

/-- Where there is a current entry, the positions decide that it is the same. -/
theorem TailOf.intro (lost : List HistoryEntry) (he : b.entries = lost ++ h.entries)
    (hc : b.cursor = lost.length + h.index) (hp : h.past ≠ []) : h.TailOf b := by
  refine ⟨⟨lost, he, hc⟩, ?_⟩
  have hpos : 0 < h.past.length := List.length_pos_iff.2 hp
  simp only [index] at hc
  have hcur : b.cursor.toNat = lost.length + (h.past.length - 1) := by omega
  rw [Branch.current?, if_neg (by omega), he, hcur, List.getElem?_append_right (by omega),
    Nat.add_sub_cancel_left, entries, List.getElem?_append_left (by omega), current?,
    List.getLast?_eq_getElem?]

theorem tailOf_ofEntries (hf : h.future = []) : h.TailOf (Branch.ofEntries h.entries) := by
  by_cases hp : h.past = []
  · refine ⟨⟨[], rfl, ?_⟩, ?_⟩
    · simp [Branch.ofEntries, index, entries, hf]
    · simp [Branch.current?, Branch.ofEntries, entries, current?, hp, hf]
  · exact .intro [] rfl (by simp [Branch.ofEntries, index, entries, hf]) hp

/-- The entries that recording drops are the oldest ones of the branch. -/
theorem record_tail (hl : 1 ≤ h.maxEntries) (ht : h.TailOf b) (e : HistoryEntry) :
    (h.record e).TailOf (b.append (e.numbered h.nextSerial)) := by
  obtain ⟨lost, he, hc⟩ := ht.lost
  have hkept : b.entries.take (b.cursor + 1).toNat = lost ++ h.past := by
    have : (b.cursor + 1).toNat = lost.length + h.past.length := by simp only [index] at hc; omega
    rw [he, this, entries, List.take_length_add_append, List.take_left]
  have hk : h.excess ≤ h.past.length := by simp only [excess]; omega
  have hsplit := List.take_append_drop h.excess (h.past ++ [e.numbered h.nextSerial])
  refine .intro (lost ++ (h.past ++ [e.numbered h.nextSerial]).take h.excess) ?_ ?_ ?_
  · simp only [Branch.append, Branch.ofEntries, hkept, record, entries, List.append_nil,
      List.append_assoc, List.take_append_drop]
  · simp only [Branch.append, Branch.ofEntries, hkept, record, index, List.length_append,
      List.length_take, List.length_drop, List.length_cons, List.length_nil]
    omega
  · intro hnil
    have := congrArg List.length hnil
    simp only [record, List.length_drop, List.length_append, List.length_cons,
      List.length_nil] at this
    omega

/-- **One move.** The branch follows every move that changes the history. -/
theorem step_tail (hl : 1 ≤ h.maxEntries) (ht : h.TailOf b) (move : HistoryMove) :
    (h.step move).TailOf (b.replay (h.effect? move).toList) := by
  obtain ⟨lost, he, hc⟩ := ht.lost
  cases move with
  | push e =>
    rw [step_push, effect?]
    cases h.repeats e with
    | true => exact ht
    | false => exact record_tail hl ht e
  | undo =>
    cases hu : h.undo? with
    | none => simpa [step, effect?, hu, Branch.replay] using ht
    | some h' =>
      have hent := entries_of_undo? hu
      obtain ⟨p, c, hp, hpast, rfl⟩ := undo?_eq_some hu
      have hpos : 0 < p.length := List.length_pos_iff.2 hp
      simp only [index, hpast, List.length_append, List.length_cons, List.length_nil] at hc
      have hb : b.step .undo = { b with cursor := b.cursor - 1 } := if_pos (by omega)
      simp only [step, effect?, hu, Option.getD_some, Option.map_some, Option.toList_some,
        Branch.replay, List.foldl_cons, List.foldl_nil, hb]
      refine .intro lost ?_ ?_ hp
      · rw [hent]; exact he
      · simp only [index]; omega
  | redo =>
    cases hr : h.redo? with
    | none => simpa [step, effect?, hr, Branch.replay] using ht
    | some h' =>
      obtain ⟨c, f, hf, rfl⟩ := redo?_eq_some hr
      have hlen : b.entries.length = lost.length + (h.past.length + (f.length + 1)) := by
        simp [he, entries, hf]
      simp only [index] at hc
      have hb : b.step .redo = { b with cursor := b.cursor + 1 } := if_pos (by omega)
      simp only [step, effect?, hr, Option.getD_some, Option.map_some, Option.toList_some,
        Branch.replay, List.foldl_cons, List.foldl_nil, hb]
      refine .intro lost ?_ ?_ (by simp)
      · simp [he, entries, hf]
      · simp only [index, List.length_append, List.length_cons, List.length_nil]; omega

/-! ## Runs -/

@[simp] theorem maxEntries_run (h : History) (moves : List HistoryMove) :
    (h.run moves).maxEntries = h.maxEntries := by
  induction moves generalizing h with
  | nil => rfl
  | cons move moves ih => exact (ih (h.step move)).trans (maxEntries_step h move)

theorem run_sound (hs : h.Sound h.maxEntries) (moves : List HistoryMove) :
    (h.run moves).Sound h.maxEntries := by
  induction moves generalizing h with
  | nil => exact hs
  | cons move moves ih =>
    have hm := maxEntries_step h move
    have hrun := ih (h := h.step move) (by rw [hm]; exact step_sound hs move)
    rwa [hm] at hrun

/-- The laws hold after every run, by induction on its moves. -/
theorem run_sound_tail (hl : 1 ≤ h.maxEntries) (hs : h.Sound h.maxEntries) (ht : h.TailOf b)
    (moves : List HistoryMove) :
    (h.run moves).Sound h.maxEntries ∧ (h.run moves).TailOf (b.replay (h.effects moves)) := by
  induction moves generalizing h b with
  | nil => exact ⟨hs, ht⟩
  | cons move moves ih =>
    have hm := maxEntries_step h move
    have := ih (h := h.step move) (b := b.replay (h.effect? move).toList) (by rw [hm]; exact hl)
      (by rw [hm]; exact step_sound hs move) (step_tail hl ht move)
    rw [hm] at this
    simpa only [run, List.foldl_cons, effects, Branch.replay, List.foldl_append] using this

end History

/-- How a history is opened: without entries, or with a single one. -/
inductive HistoryOpening where
  | blank (settings : Except SettingsError Settings)
  | single (settings : Settings) (stamp : Stamp) (snapshot : Snapshot)

namespace HistoryOpening

/-- The settings that the history is opened under. -/
def settings : HistoryOpening → Except SettingsError Settings
  | blank settings => settings
  | single settings _ _ => .ok settings

/-- The opened history. -/
def history (limit : Option Int) : HistoryOpening → Except HistoryError History
  | blank settings => History.initial settings limit
  | single settings stamp snapshot => History.reset (.ok settings) stamp snapshot limit

end HistoryOpening

namespace History

theorem pos_of_limitOf {settings : Except SettingsError Settings} {limit : Option Int} {m : Nat}
    (h : limitOf settings limit = .ok m) : 1 ≤ m := by
  have hcheck : ∀ {n : Int}, checkLimit n = .ok m → 1 ≤ m := by
    intro n hn
    unfold checkLimit at hn
    split at hn
    · cases hn; omega
    · cases hn
  unfold limitOf at h
  split at h
  · exact hcheck h
  · unfold settingsLimit at h
    split at h
    · exact hcheck h
    · cases h

/-- **Histories follow a branch.** Under every limit that is in force, both openings succeed, and
    after every sequence of moves the cursor is among the entries, the limit is kept, consecutive
    entries differ, and the history is the end of the unlimited branch on which the moves that had
    an effect are replayed, with both cursors on the same entry. -/
theorem follows_branch (opening : HistoryOpening) (limit : Option Int) {m : Nat}
    (hl : limitOf opening.settings limit = .ok m) :
    1 ≤ m ∧ ∃ h, opening.history limit = .ok h ∧ ∀ moves, (h.run moves).Sound m ∧
      (h.run moves).TailOf ((Branch.ofEntries h.entries).replay (h.effects moves)) := by
  have hm := pos_of_limitOf hl
  refine ⟨hm, ?_⟩
  cases opening with
  | blank settings =>
    have hs : Sound { maxEntries := m } m :=
      .intro (fun _ => rfl) (by simp [entries]) (by simp [entries])
    refine ⟨{ maxEntries := m }, ?_, run_sound_tail hm hs (tailOf_ofEntries rfl)⟩
    simp only [HistoryOpening.settings] at hl
    simp [HistoryOpening.history, initial, hl, Except.map]
  | single settings stamp snapshot =>
    let entry : HistoryEntry := { stamp, label := settings.history.initialLabel, snapshot }
    let h : History := { past := [entry.numbered 1], maxEntries := m }
    have hs : h.Sound m := .intro (fun _ => rfl) (by simpa [h, entries] using hm)
      (by simp [h, entries])
    refine ⟨h, ?_, run_sound_tail hm hs (tailOf_ofEntries rfl)⟩
    simp only [HistoryOpening.settings] at hl
    simp [HistoryOpening.history, reset, hl, Except.map, h, entry]

/-- Two entries at most, from an empty history on. -/
theorem follows_branch_two : limitOf (.ok {}) (some 2) = .ok 2 ∧
    1 ≤ 2 ∧ ∃ h, (HistoryOpening.blank (.ok {})).history (some 2) = .ok h ∧
      ∀ moves, (h.run moves).Sound 2 ∧
        (h.run moves).TailOf ((Branch.ofEntries h.entries).replay (h.effects moves)) :=
  ⟨rfl, follows_branch (.blank (.ok {})) (some 2) rfl⟩

end History

end Schemata
