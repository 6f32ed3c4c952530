/-
  YAML values.  The keys of a mapping are values too; a key that is equal to an earlier one keeps
  its place and takes the last value.

  * `text` is a value that stands alone in a message, `shown` one inside a larger value;
  * `Value.ofTree` is the value that a tree stands for.
-/
import Schemata.Json.Value
import Schemata.Yaml.Scalar
import Schemata.Yaml.Tree

namespace Schemata.Yaml

/-- A value. -/
inductive Value where
  | null
  | bool (b : Bool)
  | int (i : Int)
  | float (x : Number.Binary64)
  | timestamp (t : Timestamp)
  | str (s : String)
  | seq (items : List Value)
  | map (entries : List (Value × Value))
deriving Repr

namespace Value

instance : Inhabited Value := ⟨.null⟩

/-! ## Keys -/

/-- The number that a value is as a key; truth values are 0 and 1. -/
def number? : Value → Option (Int ⊕ Number.Binary64)
  | bool b => some (.inl (if b then 1 else 0))
  | int i => some (.inl i)
  | float x =>
    match x.toInt? with
    | some i => some (.inl i)
    | none => some (.inr x)
  | _ => none

/-- Whether two values are the same key. -/
def sameKey (a b : Value) : Bool :=
  match a, b with
  | null, null => true
  | str s, str t => s == t
  | timestamp s, timestamp t => s.same t
  | _, _ =>
    match a.number?, b.number? with
    | some m, some n => m == n
    | _, _ => false

/-- Whether a value may be a key. -/
def isKey : Value → Bool
  | seq _ => false
  | map _ => false
  | _ => true

/-- Entries with one more. -/
def put (k v : Value) : List (Value × Value) → List (Value × Value)
  | [] => [(k, v)]
  | e :: rest => if e.1.sameKey k then (e.1, v) :: rest else e :: put k v rest

/-- The value under a name. -/
def get? (name : String) : Value → Option Value
  | map entries =>
    (entries.find? fun e => e.1.sameKey (str name)).map (·.2)
  | _ => none

/-! ## Views -/

/-- Whether a value counts as present: null, false, zero and what is empty do not. -/
def isPresent : Value → Bool
  | null => false
  | bool b => b
  | int i => i != 0
  | float x => !x.isZero
  | timestamp _ => true
  | str s => !s.isEmpty
  | seq items => !items.isEmpty
  | map entries => !entries.isEmpty

/-- The name of the kind of a value in messages. -/
def kindName : Value → String
  | null => "NoneType"
  | bool _ => "bool"
  | int _ => "int"
  | float _ => "float"
  | timestamp t => t.kindName
  | str _ => "str"
  | seq _ => "list"
  | map _ => "dict"

mutual

/-- A value inside a larger one. -/
def shown : Value → String
  | null => "None"
  | bool b => if b then "True" else "False"
  | int i => toString i
  | float x => x.text
  | timestamp t => t.shown
  | str s => Text.Half.display s
  | seq items => "[" ++ ", ".intercalate (shownItems items) ++ "]"
  | map entries => "\x7b" ++ ", ".intercalate (shownEntries entries) ++ "\x7d"

/-- The items of a sequence, each shown. -/
def shownItems : List Value → List String
  | [] => []
  | v :: rest => shown v :: shownItems rest

/-- The entries of a mapping, each shown. -/
def shownEntries : List (Value × Value) → List String
  | [] => []
  | (k, v) :: rest => (shown k ++ ": " ++ shown v) :: shownEntries rest

end

/-- A value that stands alone. -/
def text : Value → String
  | str s => s
  | timestamp t => t.text
  | v => shown v

/-! ## The values of trees -/

/-- The prefix of the tags for usual kinds. -/
def usualTag (name : String) : String := "tag:yaml.org,2002:" ++ name

/-- The kind of a scalar; a tag that names no kind is an error. -/
def kindOf (tag : Option String) (isPlain : Bool) (text : String) : Except Problem Kind :=
  match tag with
  | none => .ok (if isPlain then Kind.ofText text else .str)
  | some t =>
    if t = "!" then .ok (Kind.ofText text)
    else
      let kinds : List (String × Kind) :=
        [("null", .null), ("bool", .bool), ("int", .int), ("float", .float),
          ("timestamp", .timestamp), ("str", .str), ("merge", .merge), ("value", .default)]
      match kinds.find? fun e => usualTag e.1 == t with
      | some e => .ok e.2
      | none => .error .form

/-- The value of a scalar of a kind. -/
def ofScalar (kind : Kind) (text : String) : Except Problem Value :=
  match kind with
  | .null => .ok .null
  | .bool => ((truth? text).map fun b => Except.ok (.bool b)).getD (.error .form)
  | .int => (integer text).map .int
  | .float => (decimal text).map .float
  | .timestamp => (Yaml.timestamp text).map .timestamp
  | .merge => .error .form
  | .default => .error .form
  | .str => .ok (.str text)

/-- Whether a collection has the tag of its kind, or none. -/
def isUntagged (name : String) (tag : Option String) : Bool :=
  tag.all fun t => t == "!" || t == usualTag name

/-- Whether a key merges another mapping. -/
def isMerge : Tree → Bool
  | .scalar tag isPlain text => (kindOf tag isPlain text).toOption == some .merge
  | _ => false

/-- The key that a tree stands for. -/
def keyOf (t : Tree) (v : Except Problem Value) : Except Problem Value :=
  match t with
  | .scalar tag isPlain text =>
    if (kindOf tag isPlain text).toOption == some .default then .ok (.str text) else v
  | _ => v.bind fun v => if v.isKey then .ok v else .error .form

mutual

/-- The entries of a mapping with those of the mappings that it merges before its own. -/
def flatten (fuel : Nat) (entries : List (Tree × Tree)) : Except Problem (List (Tree × Tree)) :=
  match fuel with
  | 0 => .error .form
  | fuel + 1 => do
    let merged ← (entries.filter fun e => isMerge e.1).mapM fun e => merge fuel e.2
    return merged.flatten ++ entries.filter fun e => !isMerge e.1

/-- The entries that the value of a merging key brings: those of one mapping, or of several, of
    which the first one counts. -/
def merge (fuel : Nat) (t : Tree) : Except Problem (List (Tree × Tree)) :=
  match fuel with
  | 0 => .error .form
  | fuel + 1 =>
    match t with
    | .mapping _ entries => flatten fuel entries
    | .sequence _ items => do
      let parts ← items.mapM fun
        | .mapping _ entries => flatten fuel entries
        | _ => .error .form
      return parts.reverse.flatten
    | _ => .error .form

end

mutual

/-- The value that a tree stands for.  `fuel` bounds the depth of the tree, merged mappings
    included. -/
def ofTree (fuel : Nat) (t : Tree) : Except Problem Value :=
  match fuel with
  | 0 => .error .form
  | fuel + 1 =>
    match t with
    | .scalar tag isPlain text => (kindOf tag isPlain text).bind fun k => ofScalar k text
    | .sequence tag items =>
      if isUntagged "seq" tag then (ofItems fuel items).map .seq else .error .form
    | .mapping tag entries =>
      if isUntagged "map" tag then
        (flatten fuel entries).bind fun entries => (ofEntries fuel [] entries).map .map
      else .error .form

/-- The values of several trees. -/
def ofItems (fuel : Nat) (items : List Tree) : Except Problem (List Value) :=
  match fuel with
  | 0 => .error .form
  | fuel + 1 =>
    match items with
    | [] => .ok []
    | t :: rest => do
      let v ← ofTree fuel t
      return v :: (← ofItems fuel rest)

/-- The entries of a mapping after those of `acc`. -/
def ofEntries (fuel : Nat) (acc : List (Value × Value)) (entries : List (Tree × Tree)) :
    Except Problem (List (Value × Value)) :=
  match fuel with
  | 0 => .error .form
  | fuel + 1 =>
    match entries with
    | [] => .ok acc
    | (k, v) :: rest => do
      let k ← keyOf k (ofTree fuel k)
      let v ← ofTree fuel v
      ofEntries fuel (put k v acc) rest

end

end Value

end Schemata.Yaml
