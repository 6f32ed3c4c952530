/-
  Saving a session to a store.

  * A store that is over the budget before is purged first; a payload over the budget is not written
    at all; if a write is refused, what was written is purged again;
  * the history is written last, and its stale copy is removed if the write is refused;
  * `save` answers with the store and a report, which says what went wrong.
-/
import Schemata.History.Stored
import Schemata.Schema.Outline
import Schemata.Session.Basic
import Schemata.Store.Basic

namespace Schemata

open Log

/-- What is kept of a session, apart from its history. -/
structure Kept where
  schema : Schema := {}
  cardinalities : OrderedMap Cardinality := {}
  visible : List String := []
  collapsed : List String := []

/-- What is kept of a session. -/
def Session.kept (s : Session) : Kept := ⟨s.schema, s.cardinalities, s.visible, s.collapsed⟩

/-- How sessions are kept in a store. -/
structure Keeper where
  host : Host
  limits : StoreLimits := {}
  history : HistoryLimits := {}

/-- How a save went. -/
structure SaveReport where
  saved : Bool
  /-- The size of the payload. -/
  size : Nat
  limit : Int
  /-- Whether every write was accepted. -/
  accepted : Bool := true
  historySaved : Bool := false
  error : Option StorageExceeded := none
deriving DecidableEq, Repr

/-- The report, unless it says that the data did not fit. -/
def SaveReport.strict (r : SaveReport) : Except StorageExceeded SaveReport :=
  match r.error with
  | some e => .error e
  | none => .ok r

namespace Keeper

/-! ## Purging -/

/-- The keys of the data that is purged. -/
def dataKeys (k : Keeper) : List String :=
  [k.limits.tablesKey, k.limits.edgesKey, k.limits.enumsKey]

/-- Removes the schema data, and perhaps the history; the result has the keys that were there. -/
def purge (k : Keeper) (withHistory : Bool) (store : Store) : Logged (Store × List String) := do
  let keys := k.dataKeys ++ if withHistory then [k.history.storageKey] else []
  let removed := keys.filter fun key => (store.read? key).isSome
  Logged.tell (.ofCheckpoint .persistence "storage_purged" [("keys", .strings removed)])
  return (store.removeAll keys, removed)

/-! ## Writing -/

/-- The text of a list of names, in order. -/
def namesText (names : List String) : String :=
  Json.write .spaced (.strings (names.mergeSort textLE))

/-- The texts of what is kept, by key. -/
def payload (k : Keeper) (kept : Kept) : OrderedMap String :=
  .ofList
    [(k.limits.tablesKey, Json.write .compact (tablesJson kept.schema.tables)),
      (k.limits.edgesKey, Json.write .compact (cardinalitiesJson kept.cardinalities)),
      (k.limits.visibleKey, namesText kept.visible),
      (k.limits.collapsedKey, namesText kept.collapsed),
      (k.limits.enumsKey, Json.write .compact (enumsJson kept.schema.enums))]

/-- Writes texts until a write is refused; the result has the key of that one. -/
def writeAll (store : Store) : List (String × String) → Store × Option String
  | [] => (store, none)
  | (key, text) :: rest =>
    match store.write key text with
    | (store, true) => writeAll store rest
    | (store, false) => (store, some key)

/-- Writes the text of a history; a refused write removes the stale copy. -/
def writeHistory (k : Keeper) (text : String) (store : Store) : Logged (Store × Bool) := do
  match store.write k.history.storageKey text with
  | (store, true) => return (store, true)
  | (store, false) =>
    Logged.log .warning .persistence
      ("History not saved (" ++ toString text.length ++ " chars): storage quota exceeded")
    return (store.remove k.history.storageKey, false)

/-- Saves a history; the settings may fail to say how much of it. -/
def saveHistory (k : Keeper) (h : History) (store : Store) :
    Logged (Store × Except SettingsError Bool) := do
  match h.write k.host.settings (some k.history.maxSaved) with
  | .error e => return (store, .error e)
  | .ok text =>
    let (store, saved) ← k.writeHistory text store
    return (store, .ok saved)

/-- Clears the schema data of a store that is over the budget. -/
def makeRoom (k : Keeper) (store : Store) : Logged Store := do
  if k.limits.maxTotal < store.size then
    Logged.log .warning .persistence "Storage exceeds budget before save; clearing schema data"
    let (store, _) ← k.purge false store
    return store
  return store

/-- Writes a payload that is within the budget; a refused write purges the schema data. -/
def writePayload (k : Keeper) (payload : OrderedMap String) (store : Store) :
    Logged (Store × Option StorageExceeded) := do
  match writeAll store payload.entries with
  | (store, none) => return (store, none)
  | (store, some key) =>
    Logged.log .error .persistence
      ("Storage quota exceeded writing " ++ key ++ "; clearing schema data")
    let (store, _) ← k.purge false store
    return (store, some ⟨store.size + itemsSize payload, k.limits.maxTotal⟩)

/-- Saves what is kept of a session, and perhaps its history. -/
def save (k : Keeper) (kept : Kept) (history : Option History) (store : Store) :
    Logged (Store × Except SettingsError SaveReport) := do
  let limit := k.limits.maxTotal
  let store ← k.makeRoom store
  let payload := k.payload kept
  let size := itemsSize payload
  if limit < size then
    let error : StorageExceeded := ⟨size, limit⟩
    Logged.log .error .persistence error.message
    return (store, .ok { saved := false, size, limit, error := some error })
  match ← k.writePayload payload store with
  | (store, some error) =>
    return (store, .ok { saved := false, size, limit, accepted := false, error := some error })
  | (store, none) =>
    let (store, historySaved) ← match history with
      | none => pure (store, .ok false)
      | some h => k.saveHistory h store
    match historySaved with
    | .error e => return (store, .error e)
    | .ok historySaved =>
      Logged.log .debug .persistence
        ("Saved " ++ toString kept.schema.tables.size ++ " tables (" ++ toString size ++ " chars)")
      return (store, .ok { saved := true, size, limit, historySaved })

/-- Saves a session with its history. -/
def saveSession (k : Keeper) (s : Session) (store : Store) :
    Logged (Store × Except SettingsError SaveReport) := k.save s.kept (some s.history) store

end Keeper

end Schemata
