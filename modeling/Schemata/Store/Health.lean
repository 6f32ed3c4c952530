/-
  The health of a store.

  * An item is unfit if it is too large, or if its key asks for JSON and its text is none; a list of
    tables is unfit if it is large and its tables are too large on average;
  * `repair` removes unfit items, and clears all schema data if the store is still too large.
-/
import Schemata.Json.Reader
import Schemata.Log.Event
import Schemata.Settings
import Schemata.Store.Basic

namespace Schemata.Store

open Log

/-- What a repair did. -/
structure HealthReport where
  sizeBefore : Nat
  sizeAfter : Nat
  /-- The keys of the unfit items. -/
  removed : List String
  /-- Whether all schema data was cleared. -/
  purged : Bool
deriving DecidableEq, Repr

/-- Whether nothing had to be done. -/
def HealthReport.healthy (r : HealthReport) : Bool := r.removed.isEmpty && !r.purged

/-- Whether a store is too large. -/
def isOversized (limits : StoreLimits) (s : Store) : Bool := decide (limits.validatorTotal < s.size)

/-- Whether the text under a key must be JSON. -/
def needsJson (key : String) : Bool :=
  StoreLimits.jsonKeyStarts.any fun start => start.toList.isPrefixOf key.toList

/-- Whether an item is unfit. -/
def isUnfit (limits : StoreLimits) (key text : String) : Logged Bool := do
  let size := entrySize key text
  if limits.maxItem < size then
    Logged.log .warning .validator
      ("Oversized item: " ++ key ++ " (" ++ Number.fixed 2 size 1024 ++ "KB)")
    return true
  if needsJson key && !(Json.read text).toBool then
    Logged.log .error .validator ("Corrupted JSON: " ++ key)
    return true
  return false

/-- The keys of the unfit ones among some items. -/
def unfitKeys (limits : StoreLimits) : List (String × String) → Logged (List String)
  | [] => pure []
  | (key, text) :: rest => do
    let unfit ← isUnfit limits key text
    let more ← unfitKeys limits rest
    return if unfit then key :: more else more

/-- Whether the text of a list of tables cannot be right. -/
def isCorruptTableText (limits : StoreLimits) (text : String) : Logged Bool := do
  match Json.read text with
  | .error _ =>
    Logged.log .error .validator "Cannot parse stored table list"
    return true
  | .ok (.obj (_ :: more)) =>
    let count := more.length + 1
    if limits.maxAverageTable * count < text.length then
      Logged.log .error .validator
        ("Table data appears corrupted (" ++ Number.fixed 0 text.length count ++
          " chars per table)")
      return true
    return false
  | .ok _ => return true

/-- Whether the stored list of tables cannot be right. -/
def hasCorruptTables (limits : StoreLimits) (s : Store) : Logged Bool :=
  match s.read? limits.tablesKey with
  | none => pure false
  | some text =>
    if limits.corruptionThreshold < text.length then isCorruptTableText limits text
    else pure false

/-- The keys of all unfit items, the list of tables last if it cannot be right. -/
def allUnfitKeys (limits : StoreLimits) (s : Store) : Logged (List String) := do
  let unfit ← unfitKeys limits s.items.entries
  if unfit.contains limits.tablesKey then return unfit
  if ← hasCorruptTables limits s then return unfit ++ [limits.tablesKey]
  return unfit

/-- Clears all schema data of a store that is too large; the result says whether it was. -/
def clearIfOversized (limits : StoreLimits) (s : Store) : Logged (Store × Bool) := do
  if isOversized limits s then
    Logged.log .error .validator "Storage still oversized; clearing all schema data"
    Logged.tell
      (.ofCheckpoint .validator "storage_purged" [("keys", .strings limits.schemaKeys)])
    return (s.removeAll limits.schemaKeys, true)
  return (s, false)

/-- Removes unfit items, and clears all schema data if the store is still too large. -/
def repair (limits : StoreLimits) (s : Store) : Logged (Store × HealthReport) := do
  let removed ← allUnfitKeys limits s
  let (cleared, purged) ← clearIfOversized limits (s.removeAll removed)
  let report : HealthReport :=
    { sizeBefore := s.size, sizeAfter := cleared.size, removed, purged }
  if report.healthy then
    Logged.log .debug .validator
      ("Storage is healthy (" ++ toString report.sizeAfter ++ " chars)")
  else
    Logged.log .info .validator
      ("Storage cleaned up: removed " ++ toString removed.length ++ " items, purged=" ++
        (if purged then "True" else "False"))
  return (cleared, report)

end Schemata.Store
