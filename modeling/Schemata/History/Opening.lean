/-
  Opening a history: an empty one, or one with a single entry.  A history keeps at least one entry;
  a smaller limit is an error.
-/
import Schemata.History.Basic
import Schemata.Json.Reader
import Schemata.Settings

namespace Schemata

/-- What can be wrong with a stored history. -/
inductive Corruption where
  | notObject
  | noEntryList
  | noIndex
  | infiniteIndex
  | badEntry (faults : List Decode.Fault)
  | badText (fault : Json.ReadFault)
deriving DecidableEq, Repr

/-- Why a history cannot be opened. -/
inductive HistoryError where
  | settings (error : SettingsError)
  /-- The limit is below one. -/
  | badLimit
  /-- The stored position is beyond all numbers. -/
  | hugeIndex
  | corrupted (reason : Corruption)
deriving DecidableEq, Repr

namespace History

/-- A limit that is at least one. -/
def checkLimit (n : Int) : Except HistoryError Nat :=
  if 1 ≤ n then .ok n.toNat else .error .badLimit

/-- The limit of the settings. -/
def settingsLimit (settings : Except SettingsError Settings) : Except HistoryError Nat :=
  match settings with
  | .ok s => checkLimit s.history.maxEntries
  | .error e => .error (.settings e)

/-- The given limit, or the one of the settings if it is absent or zero. -/
def limitOf (settings : Except SettingsError Settings) (limit : Option Int) :
    Except HistoryError Nat :=
  match limit.filter (· != 0) with
  | some n => checkLimit n
  | none => settingsLimit settings

/-- A history without entries. -/
def initial (settings : Except SettingsError Settings) (limit : Option Int) :
    Except HistoryError History :=
  (limitOf settings limit).map fun maxEntries => { maxEntries }

/-- A history whose only entry is a snapshot. -/
def reset (settings : Except SettingsError Settings) (stamp : Stamp) (snapshot : Snapshot)
    (limit : Option Int) : Except HistoryError History :=
  match settings with
  | .error e => .error (.settings e)
  | .ok s =>
    (limitOf settings limit).map fun maxEntries =>
      let entry : HistoryEntry := { stamp, label := s.history.initialLabel, snapshot }
      { past := [entry.numbered 1], maxEntries }

end History

end Schemata
