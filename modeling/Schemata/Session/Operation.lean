/-
  The operations of a session as values.  `Session.run` is the effect of one operation, with what it
  answers; `Session.runAll` is that of several, where a failed one leaves the session as it is.
-/
import Schemata.Session.Basic

namespace Schemata

open Log

/-- An operation that may change a session. -/
inductive SessionOperation where
  | edit (e : Edit)
  /-- Moves several tables at once to where a layout puts them. -/
  | arrange (places : OrderedMap (Json × Json))
  | importDocument (text : String)
  | applyDocument (text : String)
  | setCardinality (edge name : String)
  | undo
  | redo

/-- What an operation answers. -/
inductive SessionResult where
  | edited (result : EditResult)
  /-- Whether there was something to undo or to redo. -/
  | moved (done : Bool)
deriving DecidableEq, Repr

namespace Session

/-- The answer of an edit as that of an operation. -/
def asEdited (x : Action SessionError (Session × EditResult)) :
    Action SessionError (Session × SessionResult) :=
  (fun r => (r.1, .edited r.2)) <$> x

/-- A session after a move, if there was one. -/
def afterMove (s : Session) (moved : Option Session) : Session × SessionResult :=
  (moved.getD s, .moved moved.isSome)

/-- The effect of an operation. -/
def run (host : Host) (s : Session) : SessionOperation →
    Action SessionError (Session × SessionResult)
  | .edit e => asEdited (s.perform host e none)
  | .arrange places => asEdited (s.perform host (.moveTables places) (some .autoArrange))
  | .importDocument text => asEdited (s.importDocument host text)
  | .applyDocument text => asEdited (s.applyDocument host text)
  | .setCardinality edge name =>
    (fun s => (s, .edited .done)) <$> s.setCardinality host edge name
  | .undo => pure (s.afterMove s.undo?)
  | .redo => pure (s.afterMove s.redo?)

/-- The session after an operation; a failed one leaves it as it is. -/
def after (host : Host) (s : Session) (op : SessionOperation) : Session :=
  match (s.run host op).result with
  | .ok (s, _) => s
  | .error _ => s

/-- The session after several operations. -/
def runAll (host : Host) (s : Session) (ops : List SessionOperation) : Session :=
  ops.foldl (after host) s

end Session

end Schemata
