/-
  The context of a log event: which operation, table, statement and history action it belongs to,
  which request it serves and which component speaks, and any further facts by name.

  * `merge` enters a block: the named fields are overridden, other names are added to the extra
    facts;
  * `toMembers` lists what is set, the six fields in their order before the extra facts.
-/
import Schemata.Json.Value

namespace Schemata.Log

/-- The facts attached to every event of a block; an unset field is `null`. -/
structure Context where
  operation : Json := .null
  tableKey : Json := .null
  statementIndex : Json := .null
  historyLabel : Json := .null
  correlationId : Json := .null
  component : Json := .null
  extra : List (String × Json) := []

namespace Context

/-- The fields by name, in their order. -/
def fields (c : Context) : List (String × Json) :=
  [("operation", c.operation), ("table_key", c.tableKey), ("statement_index", c.statementIndex),
    ("history_label", c.historyLabel), ("correlation_id", c.correlationId),
    ("component", c.component)]

/-- Whether a value is set. -/
def isSet : Json → Bool
  | .null => false
  | _ => true

/-- What is set, by name; an extra fact takes the place of a field of the same name. -/
def toMembers (c : Context) : List (String × Json) :=
  c.extra.foldl (fun l (k, v) => OrderedMap.put k v l) (c.fields.filter fun e => isSet e.2)

/-- The context with one fact set. -/
def set (c : Context) (k : String) (v : Json) : Context :=
  match k with
  | "operation" => { c with operation := v }
  | "table_key" => { c with tableKey := v }
  | "statement_index" => { c with statementIndex := v }
  | "history_label" => { c with historyLabel := v }
  | "correlation_id" => { c with correlationId := v }
  | "component" => { c with component := v }
  | "extra" => c
  | _ => { c with extra := OrderedMap.put k v c.extra }

/-- The context of an inner block: its facts override those of the outer one.  The members of a fact
    named `extra` come first. -/
def merge (c : Context) (facts : List (String × Json)) : Context :=
  let inner := ((OrderedMap.find "extra" facts).bind Json.members?).getD []
  let c := { c with extra := inner.foldl (fun l (k, v) => OrderedMap.put k v l) c.extra }
  facts.foldl (fun c (k, v) => c.set k v) c

/-- The context inside several blocks, the outermost first. -/
def ofBlocks (blocks : List (List (String × Json))) : Context := blocks.foldl merge {}

end Context

end Schemata.Log
