/-
  Histories as text.

  * `write` keeps the newest entries and moves the current position into them; `read` takes a text
    back, cuts the position to the entries that are there, and drops the oldest ones beyond the
    limit;
  * what is wrong in shape discards a stored history as a whole; `read?` notes it, and `restore`
    then starts over from a snapshot.
-/
import Schemata.History.Opening
import Schemata.Json.Writer

namespace Schemata

open Log

/-! ## Faults -/

/-- The text of what is wrong with a stored history. -/
def Corruption.message : Corruption → String
  | notObject => "History payload is not an object"
  | noEntryList => "History entries is not a list"
  | noIndex => "History currentIndex is not a number"
  | infiniteIndex => "History currentIndex is not finite"
  | badEntry faults =>
    toString faults.length ++
      (if faults.length = 1 then " validation error" else " validation errors") ++
      " for HistoryEntry"
  | badText fault => fault.message

/-- The text of an index beyond all numbers. -/
def HistoryError.hugeIndexMessage : String := "int too large to convert to float"

/-- What is wrong with a limit below one. -/
def HistoryError.limitFault : Decode.Fault := ⟨[.field "max_entries"], .belowOne⟩

namespace History

/-! ## Writing -/

/-- The JSON form of entries with a position and a limit. -/
def stateJson (entries : List HistoryEntry) (index : Int) (maxEntries : Nat) : Json :=
  .obj [("entries", .arr (entries.map HistoryEntry.toJson)), ("currentIndex", .int index),
    ("maxEntries", .int maxEntries)]

/-- The JSON form of a history. -/
def toJson (h : History) : Json := stateJson h.entries h.index h.maxEntries

/-- How many of the oldest entries are left out when `count` are kept. -/
def skipped (h : History) (count : Int) : Nat := (h.entries.length - count).toNat

/-- The text of the newest `count` entries, with the position of the current one among them. -/
def writeNewest (h : History) (count : Int) : String :=
  let skip := h.skipped count
  Json.write .spaced (stateJson (h.entries.drop skip) (max 0 (h.index - skip)) h.maxEntries)

/-- How many entries are stored: the given number, or the one of the settings if it is absent or
    zero. -/
def storedCount (settings : Except SettingsError Settings) (count : Option Int) :
    Except SettingsError Int :=
  match count.filter (· != 0) with
  | some n => .ok n
  | none => settings.map fun s => s.history.maxSaved

/-- The text of a history. -/
def write (settings : Except SettingsError Settings) (h : History) (count : Option Int) :
    Except SettingsError String := (storedCount settings count).map h.writeNewest

/-! ## Reading -/

/-- The integer part of a stored position. -/
def readIndex : Option Json → Except HistoryError Int
  | some (.int i) =>
    match Number.Binary64.ofInt i with
    | .infinity _ => .error .hugeIndex
    | _ => .ok i
  | some (.float x) =>
    match x.truncate? with
    | some i => .ok i
    | none => .error (.corrupted .infiniteIndex)
  | _ => .error (.corrupted .noIndex)

/-- Decodes entries up to the first one that is invalid. -/
def readEntries : List Json → Except HistoryError (List HistoryEntry)
  | [] => .ok []
  | v :: rest =>
    match Decode.historyEntry v with
    | .bad faults => .error (.corrupted (.badEntry faults))
    | .ok e => (readEntries rest).map (e.numbered 1 :: ·)

/-- A stored limit; one that is no positive integer is replaced by that of the settings. -/
def readLimit (settings : Except SettingsError Settings) : Option Json → Except HistoryError Nat
  | some (.int n) => if 1 ≤ n then .ok n.toNat else settingsLimit settings
  | _ => settingsLimit settings

/-- A history from its stored parts: the position is cut to the entries, and the oldest entries
    beyond the limit are dropped. -/
def assemble (entries : List HistoryEntry) (index : Int) (maxEntries : Nat) : History :=
  let position := (min index (entries.length - 1)).toNat
  let dropped := entries.length - maxEntries
  cutAfter (entries.drop dropped) (position - dropped) maxEntries

/-- The list of entries in a stored history. -/
def entryList (members : List (String × Json)) : Except HistoryError (List Json) :=
  match OrderedMap.find "entries" members with
  | some (.arr items) => .ok items
  | _ => .error (.corrupted .noEntryList)

/-- A stored history from the members of its object. -/
def ofMembers (settings : Except SettingsError Settings) (members : List (String × Json)) :
    Except HistoryError History := do
  let items ← entryList members
  let index ← readIndex (OrderedMap.find "currentIndex" members)
  let entries ← readEntries items
  let maxEntries ← readLimit settings (OrderedMap.find "maxEntries" members)
  return assemble entries index maxEntries

/-- The history in a text. -/
def read (settings : Except SettingsError Settings) (text : String) :
    Except HistoryError History :=
  match Json.read text with
  | .error fault => .error (.corrupted (.badText fault))
  | .ok (.obj members) => ofMembers settings members
  | .ok _ => .error (.corrupted .notObject)

/-- The history in a text; one that is wrong in shape is noted and counts as absent. -/
def read? (settings : Except SettingsError Settings) (text : String) :
    Action HistoryError (Option History) :=
  match read settings text with
  | .ok h => pure (some h)
  | .error (.corrupted reason) => do
    Logged.log .warning .history ("Discarding corrupted history: " ++ reason.message)
    return none
  | .error e => throw e

/-- The history in a text, or a new one that starts from a snapshot; with it comes the snapshot,
    numbered if it was recorded. -/
def restore (settings : Except SettingsError Settings) (stamp : Stamp) (text : Option String)
    (fallback : Snapshot) : Action HistoryError (History × Snapshot) := do
  let text := filled text
  let stored ← match text with
    | some s => read? settings s
    | none => pure none
  match stored.filter fun h => !h.entries.isEmpty with
  | some h => return (h, fallback)
  | none =>
    Logged.tell
      (.ofCheckpoint .history "history_reset" [("had_payload", .bool text.isSome)])
    let h ← Action.ofExcept (reset settings stamp fallback none)
    return (h, (h.current?.map (·.snapshot)).getD fallback)

end History

/-! ## Decoding -/

namespace Decode

/-- A limit of at least one. -/
def limit (v : Json) : Checked Nat :=
  (integer v).andThen fun n => if 1 ≤ n then .ok n.toNat else .fail .belowOne

/-- A history from its parts, if the position fits the entries. -/
def historyOf (entries : List HistoryEntry) (index : Int) (maxEntries : Nat) : Checked History :=
  if entries.isEmpty then
    if index = -1 then .ok { maxEntries }
    else .fail (.rule "current_index must be -1 for an empty history")
  else if 0 ≤ index ∧ index < entries.length then
    .ok (History.cutAfter entries index.toNat maxEntries)
  else
    .fail (.rule ("current_index " ++ toString index ++ " out of range for " ++
      toString entries.length ++ " entries"))

/-- A history. -/
def history : Json → Checked History :=
  record fun m =>
    let fields : Checked (List HistoryEntry × Int × Nat) :=
      (fun entries index maxEntries => (entries, index, maxEntries))
        <$> field "entries" [] (list historyEntry) m
        <*> field ⟨"currentIndex", some "current_index"⟩ (-1) integer m
        <*> field ⟨"maxEntries", some "max_entries"⟩ 100 limit m
    fields.andThen fun (entries, index, maxEntries) => historyOf entries index maxEntries

end Decode

end Schemata
