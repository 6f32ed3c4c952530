/-
  Key-value stores.  A store may refuse a write; a refused write changes nothing.

  * The size of a store counts the characters of its keys and values;
  * `quotaPolicy` is the policy of a store that holds a limited number of characters.
-/
import Schemata.Number.Rounding
import Schemata.OrderedMap

namespace Schemata

/-- The characters that an entry takes up. -/
def entrySize (key text : String) : Nat := key.length + text.length

/-- The characters that the entries of a map take up. -/
def itemsSize (items : OrderedMap String) : Nat := items.sumBy entrySize

/-- A store of texts by key, with its policy on writes. -/
structure Store where
  items : OrderedMap String := {}
  /-- Whether a text may be written under a key, as things are. -/
  accepts : OrderedMap String → String → String → Bool := fun _ _ _ => true

namespace Store

/-- The text under a key. -/
def read? (s : Store) (key : String) : Option String := s.items.get? key

/-- The store after a write, and whether the write was accepted. -/
def write (s : Store) (key text : String) : Store × Bool :=
  if s.accepts s.items key text then ({ s with items := s.items.insert key text }, true)
  else (s, false)

/-- The store without a key. -/
def remove (s : Store) (key : String) : Store := { s with items := s.items.erase key }

/-- The store without some keys. -/
def removeAll (s : Store) (keys : List String) : Store := keys.foldl remove s

/-- The keys in order. -/
def keys (s : Store) : List String := s.items.keys

/-- The characters that the store takes up. -/
def size (s : Store) : Nat := itemsSize s.items

/-- The characters that some keys take up. -/
def sizeOf (s : Store) (keys : List String) : Nat :=
  keys.foldr
    (fun k n => n + match s.read? k with
      | some text => entrySize k text
      | none => 0) 0

/-- Accepts what stays within a quota of characters, except under some keys. -/
def quotaPolicy (quota : Option Int) (refused : List String) (items : OrderedMap String)
    (key text : String) : Bool :=
  !refused.contains key &&
    match quota with
    | none => true
    | some q => decide ((itemsSize (items.erase key) + entrySize key text : Nat) ≤ q)

/-- A refused write changes nothing. -/
theorem write_eq_self {s : Store} {key text : String} (h : (s.write key text).2 = false) :
    (s.write key text).1 = s := by
  unfold write at h ⊢
  split
  · next ha => simp [ha] at h
  · rfl

end Store

/-! ## Sizes -/

/-- A size in units of `2 ^ 20` characters, with two places. -/
def megabytes (n : Int) : String :=
  (if n < 0 then "-" else "") ++ Number.fixed 2 n.natAbs (1024 * 1024)

/-- Data that is larger than the budget. -/
structure StorageExceeded where
  size : Nat
  limit : Int
deriving DecidableEq, Repr

/-- The text of the error. -/
def StorageExceeded.message (e : StorageExceeded) : String :=
  "Data size (" ++ megabytes e.size ++ "MB) exceeds " ++ megabytes e.limit ++ "MB storage limit"

end Schemata
