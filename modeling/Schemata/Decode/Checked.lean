/-
  Decoding with all faults at once.  A decoder answers with a value or with every fault of its
  input; a fault has a path from the outermost value to the place, and a cause.

  * `Checked` is applicative: two decoders side by side keep the faults of both, those of the first
    one first;
  * `text`, `flag`, `decimal`, `integer`, `list` and `map` decode values, and `record` an object,
    whose fields are read by `field` and `required`, each under its written name or another one.
-/
import Schemata.Json.Value
import Schemata.Number.Reading

namespace Schemata.Decode

open Number (Binary64)

/-! ## Faults -/

/-- A step from a value to one of its parts. -/
inductive Step where
  | field (name : String)
  | item (index : Nat)
deriving DecidableEq, Repr

/-- What is wrong at a place. -/
inductive Cause where
  | missing
  | notText
  | tooShort
  | notFlag
  | unknownFlag
  | notDecimal
  | unreadableDecimal
  | notInteger
  | unreadableInteger
  | fractional
  | infinite
  | oversized
  | belowOne
  | notList
  | notMap
  | notRecord
  | notMember
  /-- A rule of the domain is broken. -/
  | rule (text : String)
deriving DecidableEq, Repr

/-- A fault and its place. -/
structure Fault where
  path : List Step
  cause : Cause
deriving DecidableEq, Repr

/-- The code of a cause. -/
def Cause.code : Cause → String
  | missing => "missing"
  | notText => "string_type"
  | tooShort => "string_too_short"
  | notFlag => "bool_type"
  | unknownFlag => "bool_parsing"
  | notDecimal => "float_type"
  | unreadableDecimal => "float_parsing"
  | notInteger => "int_type"
  | unreadableInteger => "int_parsing"
  | fractional => "int_from_float"
  | infinite => "finite_number"
  | oversized => "int_parsing_size"
  | belowOne => "greater_than_equal"
  | notList => "list_type"
  | notMap => "dict_type"
  | notRecord => "model_type"
  | notMember => "enum"
  | rule _ => "value_error"

/-- The message of a broken rule. -/
def Cause.message? : Cause → Option String
  | rule text => some ("Value error, " ++ text)
  | _ => none

/-- The JSON form of a step. -/
def Step.toJson : Step → Json
  | field name => .str name
  | item index => .int index

/-- The JSON form of a fault. -/
def Fault.toJson (f : Fault) : Json :=
  .obj <| [("type", .str f.cause.code), ("loc", .arr (f.path.map Step.toJson))] ++
    Json.optional "msg" .str f.cause.message?

/-! ## Decoders -/

/-- A value, or all faults of the input. -/
inductive Checked (α : Type) where
  | ok (value : α)
  | bad (faults : List Fault)
deriving DecidableEq, Repr

namespace Checked

variable {α β : Type}

/-- A single fault at the place itself. -/
def fail (cause : Cause) : Checked α := .bad [⟨[], cause⟩]

/-- The image of a value. -/
def map (f : α → β) : Checked α → Checked β
  | ok a => ok (f a)
  | bad e => bad e

/-- Applies one decoded part to another; the faults of both are kept, in order. -/
def ap : Checked (α → β) → Checked α → Checked β
  | ok f, ok a => ok (f a)
  | ok _, bad e => bad e
  | bad e, ok _ => bad e
  | bad e, bad e' => bad (e ++ e')

instance : Applicative Checked where
  pure := ok
  map f x := x.map f
  seq f x := ap f (x ())

/-- The faults of a part, seen from the whole. -/
def under (step : Step) : Checked α → Checked α
  | ok a => ok a
  | bad faults => bad (faults.map fun f => { f with path := step :: f.path })

/-- A further decoder for a decoded value. -/
def andThen (f : α → Checked β) : Checked α → Checked β
  | ok a => f a
  | bad e => bad e

/-- The value, or the faults. -/
def toExcept : Checked α → Except (List Fault) α
  | ok a => .ok a
  | bad e => .error e

/-- The value, if there is no fault. -/
def value? : Checked α → Option α
  | ok a => some a
  | bad _ => none

@[simp] theorem map_ok (f : α → β) (a : α) : map f (ok a) = ok (f a) := rfl

@[simp] theorem ap_ok (f : α → β) (a : α) : ap (ok f) (ok a) = ok (f a) := rfl

/-- Two decoders side by side succeed only together. -/
theorem ap_eq_ok_iff {f : Checked (α → β)} {x : Checked α} {b : β} :
    ap f x = ok b ↔ ∃ g a, f = ok g ∧ x = ok a ∧ g a = b := by
  cases f <;> cases x <;> simp [ap]

@[simp] theorem under_eq_ok_iff {step : Step} {x : Checked α} {a : α} :
    x.under step = ok a ↔ x = ok a := by
  cases x <;> simp [under]

end Checked

/-! ## Single values -/

/-- A string. -/
def text : Json → Checked String
  | .str s => .ok s
  | _ => .fail .notText

/-- The first integer that 64 bits with a sign cannot hold. -/
def wordLimit : Int := Nat.pow 2 63

/-- Whether 64 bits with a sign can hold an integer. -/
def isWord (i : Int) : Bool := decide (-wordLimit ≤ i ∧ i < wordLimit)

/-- The truth value of one of the numbers 0 and 1. -/
def flagOfInt (i : Int) : Checked Bool :=
  if i = 0 then .ok false else if i = 1 then .ok true else .fail .unknownFlag

/-- The integer that a number without fraction is.  It lies between the least and the greatest
    integer of 64 bits, each of them excluded. -/
def wholeNumber (x : Binary64) : Checked Int :=
  match x.toInt? with
  | some i => if -wordLimit < i ∧ i < wordLimit then .ok i else .fail .oversized
  | none => if x.isFinite then .fail .fractional else .fail .infinite

/-- A truth value: `true`, `false`, one of the numbers 0 and 1, or a usual word. -/
def flag : Json → Checked Bool
  | .bool b => .ok b
  | .int i => if isWord i then flagOfInt i else .fail .notFlag
  | .float x =>
    match wholeNumber x with
    | .ok i => flagOfInt i
    | .bad _ => .fail .notFlag
  | .str s =>
    match Number.truth? s with
    | some b => .ok b
    | none => .fail .unknownFlag
  | _ => .fail .notFlag

/-- A number: written as one, as a truth value or as text. -/
def decimal : Json → Checked Binary64
  | .float x => .ok x
  | .int i =>
    match Binary64.ofInt i with
    | .infinity _ => .fail .notDecimal
    | x => .ok x
  | .bool b => .ok (if b then .one else .zero)
  | .str s =>
    match Number.decimal? s with
    | some x => .ok x
    | none => .fail .unreadableDecimal
  | _ => .fail .notDecimal

/-- An integer: written as one, as a truth value, as a number without fraction or as text. -/
def integer : Json → Checked Int
  | .int i => .ok i
  | .bool b => .ok (if b then 1 else 0)
  | .float x => wholeNumber x
  | .str s =>
    match Number.PlainInteger.ofString s with
    | .value i => .ok i
    | .tooLong => .fail .oversized
    | .malformed => .fail .unreadableInteger
  | _ => .fail .notInteger

/-- An optional value; `null` is absent. -/
def optional {α : Type} (f : Json → Checked α) : Json → Checked (Option α)
  | .null => .ok none
  | v => some <$> f v

/-- The items of a list from an index on. -/
def itemsFrom {α : Type} (f : Json → Checked α) (index : Nat) : List Json → Checked (List α)
  | [] => .ok []
  | v :: rest =>
    List.cons <$> (f v).under (.item index) <*> itemsFrom f (index + 1) rest

/-- A list. -/
def list {α : Type} (f : Json → Checked α) : Json → Checked (List α)
  | .arr items => itemsFrom f 0 items
  | _ => .fail .notList

/-- The entries of a map, in order. -/
def entries {α : Type} (f : Json → Checked α) :
    List (String × Json) → Checked (List (String × α))
  | [] => .ok []
  | (k, v) :: rest =>
    (fun a l => (k, a) :: l) <$> (f v).under (.field k) <*> entries f rest

/-- A map from names to values. -/
def map {α : Type} (f : Json → Checked α) : Json → Checked (OrderedMap α)
  | .obj members => (entries f members).map OrderedMap.ofList
  | _ => .fail .notMap

/-! ## Fields -/

/-- The written name of a field, and another name that it goes by. -/
structure FieldName where
  written : String
  other : Option String := none

instance : Coe String FieldName := ⟨fun s => ⟨s, none⟩⟩

/-- The value of a field, with the name it was found under; the written name comes first. -/
def FieldName.find? (n : FieldName) (members : List (String × Json)) : Option (String × Json) :=
  match OrderedMap.find n.written members with
  | some v => some (n.written, v)
  | none => n.other.bind fun o => (OrderedMap.find o members).map fun v => (o, v)

/-- A field that may be absent. -/
def field {α : Type} (n : FieldName) (absent : α) (f : Json → Checked α)
    (members : List (String × Json)) : Checked α :=
  match n.find? members with
  | some (name, v) => (f v).under (.field name)
  | none => .ok absent

/-- A field that must be there. -/
def required {α : Type} (n : FieldName) (f : Json → Checked α)
    (members : List (String × Json)) : Checked α :=
  match n.find? members with
  | some (name, v) => (f v).under (.field name)
  | none => Checked.fail .missing |>.under (.field n.written)

/-- A record from the fields of an object. -/
def record {α : Type} (f : List (String × Json) → Checked α) : Json → Checked α
  | .obj members => f members
  | _ => .fail .notRecord

end Schemata.Decode
