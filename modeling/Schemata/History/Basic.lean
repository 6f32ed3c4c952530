/-
  The history of a schema, for undoing and redoing.

  * A history holds the entries up to the current one and those after it; `entries` is the whole
    list and `index` the position of the current entry, `-1` if there is none;
  * `push` records an entry after the current one: the entries after it are given up, the oldest
    ones are dropped beyond the limit, and an entry that changes nothing is not recorded;
  * `undo?` and `redo?` move by one entry; `redo?_of_undo?` and `undo?_of_redo?` say that each takes
    back the other.
-/
import Schemata.History.Snapshot
import Schemata.Log.Event

namespace Schemata

open Log

/-- The entries up to the current one and those after it. -/
structure History where
  /-- The entries up to the current one, which is the last. -/
  past : List HistoryEntry := []
  /-- The entries after the current one, the next one first. -/
  future : List HistoryEntry := []
  /-- How many entries are kept. -/
  maxEntries : Nat
deriving DecidableEq, Repr

namespace History

/-! ## Views -/

/-- All entries, the oldest first. -/
def entries (h : History) : List HistoryEntry := h.past ++ h.future

/-- The position of the current entry, `-1` if there is none. -/
def index (h : History) : Int := h.past.length - 1

/-- The current entry. -/
def current? (h : History) : Option HistoryEntry := h.past.getLast?

/-- A list of entries cut after a position. -/
def cutAfter (entries : List HistoryEntry) (index maxEntries : Nat) : History :=
  { past := entries.take (index + 1), future := entries.drop (index + 1), maxEntries }

@[simp] theorem entries_cutAfter (entries : List HistoryEntry) (index maxEntries : Nat) :
    (cutAfter entries index maxEntries).entries = entries := by
  simp [cutAfter, History.entries]

/-- Whether there is an entry before the current one. -/
def canUndo (h : History) : Bool := decide (2 ≤ h.past.length)

/-- Whether there is an entry after the current one. -/
def canRedo (h : History) : Bool := !h.future.isEmpty

/-- The label of the action that undoing takes back. -/
def undoLabel (h : History) : Option String :=
  if h.canUndo then h.current?.map (·.label) else none

/-- The label of the action that redoing brings back. -/
def redoLabel (h : History) : Option String := h.future.head?.map (·.label)

/-! ## Moving -/

/-- One entry back. -/
def undo? (h : History) : Option History :=
  match h.current? with
  | none => none
  | some e =>
    if h.canUndo then some { h with past := h.past.dropLast, future := e :: h.future } else none

/-- One entry ahead. -/
def redo? (h : History) : Option History :=
  match h.future with
  | [] => none
  | e :: rest => some { h with past := h.past ++ [e], future := rest }

/-- Redoing takes back what undoing did. -/
theorem redo?_of_undo? {h h' : History} (hu : h.undo? = some h') : h'.redo? = some h := by
  unfold undo? at hu
  split at hu
  · simp at hu
  · next e he =>
    split at hu
    · cases hu
      have hp : h.past ≠ [] := by
        rintro hp
        simp [current?, hp] at he
      have : h.past.dropLast ++ [e] = h.past := by
        have hl : h.past.getLast hp = e := by
          have := List.getLast?_eq_some_getLast hp
          simp only [current?] at he
          rw [he] at this
          exact (Option.some.inj this).symm
        rw [← hl]
        exact List.dropLast_concat_getLast hp
      simp [redo?, this]
    · simp at hu

/-- Undoing takes back what redoing did, unless there was no current entry. -/
theorem undo?_of_redo? {h h' : History} (hp : h.past ≠ []) (hr : h.redo? = some h') :
    h'.undo? = some h := by
  unfold redo? at hr
  split at hr
  · simp at hr
  · next e rest hf =>
    cases hr
    have : 0 < h.past.length := List.length_pos_iff.2 hp
    simp [undo?, current?, canUndo, ← hf]
    omega

@[simp] theorem entries_of_redo? {h h' : History} (hr : h.redo? = some h') :
    h'.entries = h.entries := by
  unfold redo? at hr
  split at hr
  · simp at hr
  · next hf => cases hr; simp [entries, hf]

@[simp] theorem entries_of_undo? {h h' : History} (hu : h.undo? = some h') :
    h'.entries = h.entries :=
  (entries_of_redo? (redo?_of_undo? hu)).symm

/-! ## Recording -/

/-- Whether an entry would change nothing. -/
def repeats (h : History) (e : HistoryEntry) : Bool :=
  h.current?.any fun c => c.snapshot.same e.snapshot

/-- How many of the oldest entries are dropped when one is recorded. -/
def excess (h : History) : Nat := h.past.length + 1 - h.maxEntries

/-- The serial number that is free after the current entry. -/
def nextSerial (h : History) : Nat :=
  match h.current? with
  | some e => e.snapshot.serial + 1
  | none => 1

/-- The history with an entry recorded after the current one. -/
def record (h : History) (e : HistoryEntry) : History :=
  { h with past := (h.past ++ [e.numbered h.nextSerial]).drop h.excess, future := [] }

/-- Records an entry, unless it changes nothing. -/
def push (h : History) (e : HistoryEntry) : Logged (Option History) := do
  if h.repeats e then
    Logged.log .debug .history ("Suppressed duplicate history entry: " ++ e.label)
    return none
  if h.excess != 0 then
    Logged.log .debug .history ("Evicted " ++ toString h.excess ++ " oldest history entries")
  return some (h.record e)

/-- Recording keeps the limit. -/
theorem length_record_le (h : History) (e : HistoryEntry) :
    (h.record e).entries.length ≤ h.maxEntries := by
  simp [record, entries, excess]; omega

end History

end Schemata
