/-
  Log events, and values that come with the events of their making.

  * A source is one of the library's loggers; most of them add the context of an event and their
    component to the record, the plain ones add nothing;
  * a checkpoint is an event that marks a recovery on purpose;
  * `Logged α` is a value with the events of its making, in order.  `value_bind` and its companions
    say that the events never influence the value.
-/
import Schemata.Log.Context

namespace Schemata.Log

/-! ## Events -/

/-- How grave an event is. -/
inductive Level where
  | debug
  | info
  | warning
  | error
deriving DecidableEq, Repr

/-- The name of a level. -/
def Level.name : Level → String
  | debug => "DEBUG"
  | info => "INFO"
  | warning => "WARNING"
  | error => "ERROR"

/-- The rank of a level. -/
def Level.rank : Level → Nat
  | debug => 10
  | info => 20
  | warning => 30
  | error => 40

/-- The parts of the engine that a logger can belong to. -/
inductive Component where
  | model
  | parser
  | generator
  | history
  | storage
  | service
  | cli
deriving DecidableEq, Repr

namespace Component

/-- The name of a component. -/
def name : Component → String
  | model => "model"
  | parser => "parser"
  | generator => "generator"
  | history => "history"
  | storage => "storage"
  | service => "service"
  | cli => "cli"

/-- All components. -/
def all : List Component := [model, parser, generator, history, storage, service, cli]

/-- The component of a name. -/
def ofName? (s : String) : Option Component := all.find? fun c => c.name == s

end Component

/-- The loggers. -/
inductive Source where
  | parser
  | generator
  | cleaning
  | relationships
  | edits
  | history
  | session
  | persistence
  | validator
  | cli
  | checkpoint
deriving DecidableEq, Repr

namespace Source

/-- The name of a logger. -/
def name : Source → String
  | parser => "schemasync.schema.parser"
  | generator => "schemasync.schema.sql_generator"
  | cleaning => "schemasync.services.sanitize_service"
  | relationships => "schemasync.services.relationship_service"
  | edits => "schemasync.services.schema_service"
  | history => "schemasync.services.history_service"
  | session => "schemasync.services.session"
  | persistence => "schemasync.services.persistence_service"
  | validator => "schemasync.services.storage_validator"
  | cli => "schemasync.cli"
  | checkpoint => "schemasync.checkpoint"

/-- The component of a logger; a plain logger has none and records no context. -/
def component? : Source → Option Component
  | parser => some .parser
  | history => some .history
  | session => some .service
  | persistence => some .storage
  | validator => some .storage
  | cli => some .cli
  | _ => none

end Source

/-- A mark that state was thrown away on purpose. -/
structure Checkpoint where
  name : String
  data : List (String × Json)

/-- One log event. -/
structure Event where
  level : Level
  source : Source
  message : String
  /-- The facts of the blocks around the event, the outermost first. -/
  blocks : List (List (String × Json)) := []
  checkpoint : Option Checkpoint := none

/-- The record of a logger with a component: the given members, the context over them, and the
    component unless it is there already. -/
def contextPayload (component : Option Component) (members : List (String × Json))
    (context : Context) : List (String × Json) :=
  let payload := context.toMembers.foldl (fun l (k, v) => OrderedMap.put k v l) members
  match component with
  | some c => if (OrderedMap.find "component" payload).isSome then payload
    else payload ++ [("component", .str c.name)]
  | none => payload

/-- The record of a checkpoint at a time. -/
def checkpointPayload (now : String) (c : Checkpoint) (context : Context) :
    List (String × Json) :=
  [("checkpoint", .str c.name), ("timestamp", .str now)] ++
    (if context.operation.isPresent then [("operation", context.operation)] else []) ++
    (if context.historyLabel.isPresent then [("history_label", context.historyLabel)] else []) ++
    (if c.data.isEmpty then [] else [("data", .obj c.data)])

namespace Event

/-- The context that the event was logged in. -/
def context (e : Event) : Context := .ofBlocks e.blocks

/-- What is recorded beside the message, at a time. -/
def payload (now : String) (e : Event) : List (String × Json) :=
  match e.checkpoint with
  | some c => checkpointPayload now c e.context
  | none =>
    match e.source.component? with
    | some c => contextPayload (some c) [] e.context
    | none => []

/-- A checkpoint as an event of a logger. -/
def ofCheckpoint (source : Source) (name : String) (data : List (String × Json)) : Event :=
  { level := .info, source, message := "CHECKPOINT: " ++ name, checkpoint := some ⟨name, data⟩ }

end Event

/-! ## Values with events -/

/-- A value with the events of its making. -/
structure Logged (α : Type) where
  value : α
  events : List Event

namespace Logged

variable {α β : Type}

instance : Monad Logged where
  pure a := ⟨a, []⟩
  bind x f := ⟨(f x.value).value, x.events ++ (f x.value).events⟩

/-- Logs one event. -/
def tell (e : Event) : Logged Unit := ⟨(), [e]⟩

/-- Logs a message. -/
def log (level : Level) (source : Source) (message : String) : Logged Unit :=
  tell { level, source, message }

/-- Puts a block with the given facts around the making of a value. -/
def within (facts : List (String × Json)) (x : Logged α) : Logged α :=
  ⟨x.value, x.events.map fun e => { e with blocks := facts :: e.blocks }⟩

/-- Applies a logging function to every entry of a map, in order. -/
def overMap (f : String → α → Logged β) (m : OrderedMap α) : Logged (OrderedMap β) :=
  ⟨m.map fun k a => (f k a).value, m.entries.flatMap fun e => (f e.1 e.2).events⟩

@[simp] theorem value_pure (a : α) : (pure a : Logged α).value = a := rfl

@[simp] theorem value_bind (x : Logged α) (f : α → Logged β) :
    (x >>= f).value = (f x.value).value := rfl

@[simp] theorem value_map (f : α → β) (x : Logged α) : (f <$> x).value = f x.value := rfl

@[simp] theorem value_within (facts : List (String × Json)) (x : Logged α) :
    (x.within facts).value = x.value := rfl

@[simp] theorem value_overMap (f : String → α → Logged β) (m : OrderedMap α) :
    (overMap f m).value = m.map fun k a => (f k a).value := rfl

instance : LawfulMonad Logged :=
  LawfulMonad.mk' Logged (by intros; simp [Functor.map]) (by intros; simp [bind, pure])
    (by intros; simp [bind])

end Logged

/-- A computation that logs events and may fail. -/
abbrev Action (ε α : Type) := ExceptT ε Logged α

namespace Action

variable {ε α : Type}

/-- The outcome without its events. -/
def result (x : Action ε α) : Except ε α := x.run.value

/-- Puts a block with the given facts around a computation. -/
def within (facts : List (String × Json)) (x : Action ε α) : Action ε α :=
  ExceptT.mk (x.run.within facts)

/-- Fails or succeeds without an event. -/
def ofExcept (x : Except ε α) : Action ε α := ExceptT.mk (pure x)

@[simp] theorem result_within (facts : List (String × Json)) (x : Action ε α) :
    (x.within facts).result = x.result := rfl

@[simp] theorem result_ofExcept (x : Except ε α) : (ofExcept x).result = x := rfl

end Action

end Schemata.Log
