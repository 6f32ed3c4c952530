/-
  Loading a session from a store.  What is missing or does not read counts as absent; tables are
  cleaned, and written back if something was dropped; a history that is missing or corrupt starts
  over from the loaded schema.
-/
import Schemata.Store.Saving

namespace Schemata

open Log

/-- A loaded session, and how much cleaning dropped. -/
structure Loaded where
  kept : Kept
  history : History
  removedTables : Nat
  removedColumns : Nat

/-- The session that goes on from what was loaded. -/
def Loaded.session (l : Loaded) : Session where
  schema := l.kept.schema
  cardinalities := l.kept.cardinalities
  history := l.history
  visible := Session.distinct l.kept.visible
  collapsed := Session.distinct l.kept.collapsed

namespace Keeper

/-- The stored JSON value under a key. -/
def readJson (store : Store) (key : String) : Logged (Option Json) :=
  match store.read? key with
  | none => pure none
  | some text =>
    match Json.read text with
    | .ok v => pure (some v)
    | .error fault => do
      Logged.log .error .persistence
        ("Ignoring unparseable stored value for " ++ key ++ ": " ++ fault.message)
      return none

/-- The members of an object as a map. -/
def mapOf? (v : Option Json) : Option (OrderedMap Json) :=
  (v.bind Json.members?).map OrderedMap.ofList

/-- The stored tables, cleaned; what was dropped is dropped from the store too. -/
def loadTables (k : Keeper) (store : Store) : Logged (Store × Cleaning.Cleaned) := do
  match mapOf? (← readJson store k.limits.tablesKey) with
  | none => return (store, {})
  | some raw =>
    let cleaned ← Cleaning.clean raw
    if cleaned.changed then
      Logged.log .info .persistence
        ("Cleaned up " ++ toString cleaned.removedTables ++ " stored table(s)")
      let text := Json.write .compact (tablesJson cleaned.tables)
      return ((store.write k.limits.tablesKey text).1, cleaned)
    return (store, cleaned)

/-- The stored enum types that are valid. -/
def loadEnums (k : Keeper) (store : Store) : Logged (OrderedMap EnumType) := do
  match mapOf? (← readJson store k.limits.enumsKey) with
  | none => return {}
  | some raw => Cleaning.mergeEnums {} raw

/-- What is stored about edges, without unknown cardinalities. -/
def loadCardinalities (k : Keeper) (store : Store) : Logged (OrderedMap Cardinality) := do
  let raw := (mapOf? (← readJson store k.limits.edgesKey)).getD {}
  return raw.filterMap fun _ v => v.str?.bind Cardinality.ofName?

/-- The strings of a stored list. -/
def loadNames (store : Store) (key : String) : Logged (List String) := do
  let raw := ((← readJson store key).bind Json.items?).getD []
  return raw.filterMap Json.str?

/-- The stored history, or a new one that starts from what was loaded; with it comes the snapshot of
    what was loaded. -/
def loadHistory (k : Keeper) (store : Store) (kept : Kept) :
    Action HistoryError (History × Snapshot) :=
  History.restore k.host.settings k.host.stamp (store.read? k.history.storageKey)
    ⟨kept.schema, kept.cardinalities⟩

/-- Loads a session. -/
def load (k : Keeper) (store : Store) : Logged (Store × Except HistoryError Loaded) := do
  let (store, cleaned) ← k.loadTables store
  let enums ← k.loadEnums store
  let cardinalities ← k.loadCardinalities store
  let visible ← loadNames store k.limits.visibleKey
  let collapsed ← loadNames store k.limits.collapsedKey
  let kept : Kept := ⟨⟨cleaned.tables, enums⟩, cardinalities, visible, collapsed⟩
  let history ← (k.loadHistory store kept).run
  return (store, history.map fun (history, snapshot) =>
    ⟨{ kept with schema := snapshot.schema }, history, cleaned.removedTables,
      cleaned.removedColumns⟩)

end Keeper

end Schemata
