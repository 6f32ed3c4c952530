/-
  The JSON form of what is reported about stores.
-/
import Schemata.Store.Health
import Schemata.Store.Saving

namespace Schemata

/-- The members of the JSON form of an error. -/
def StorageExceeded.members (e : StorageExceeded) : List (String × Json) :=
  [("error", .str "StorageExceededError"), ("message", .str e.message), ("size", .int e.size),
    ("limit", .int e.limit)]

/-- The JSON form of whether writes were accepted. -/
def Store.statusJson (accepted : Bool) : Json := .str (if accepted then "ok" else "quota_exceeded")

/-- The JSON form of a report on a save. -/
def SaveReport.toJson (r : SaveReport) : Json :=
  .obj [("saved", .bool r.saved), ("size", .int r.size), ("limit", .int r.limit),
    ("status", Store.statusJson r.accepted), ("history_saved", .bool r.historySaved),
    ("error", .ofOption (fun e => .obj e.members) r.error)]

/-- The JSON form of a report on the health of a store. -/
def Store.HealthReport.toJson (r : Store.HealthReport) : Json :=
  .obj [("total_before", .int r.sizeBefore), ("total_after", .int r.sizeAfter),
    ("removed_keys", .strings r.removed), ("purged", .bool r.purged), ("healthy", .bool r.healthy)]

end Schemata
