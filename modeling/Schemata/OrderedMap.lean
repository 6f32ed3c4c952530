/-
  Maps from names to values that remember the order in which their names first came in.

  * `insert` keeps the position of a name that is already there and takes the new value; `erase`
    closes the gap; `ofList` inserts one pair after the other, so of a repeated name the first
    position and the last value stay;
  * `get?_insert`, `get?_erase`, `get?_map`, `get?_filterMap`: what a look-up sees after each
    operation;
  * `Equiv` is equality of contents, whatever the order.
-/

namespace Schemata

/-- A map with distinct names in the order of their first insertion. -/
structure OrderedMap (α : Type) where
  /-- The entries in order. -/
  entries : List (String × α)
  /-- No name occurs twice. -/
  nodup : (entries.map Prod.fst).Nodup
deriving DecidableEq

namespace OrderedMap

variable {α β : Type}

instance [Repr α] : Repr (OrderedMap α) := ⟨fun m n => reprPrec m.entries n⟩

/-- The map without entries. -/
def empty : OrderedMap α := ⟨[], List.nodup_nil⟩

instance : Inhabited (OrderedMap α) := ⟨empty⟩

instance : EmptyCollection (OrderedMap α) := ⟨empty⟩

/-- The names in order. -/
def keys (m : OrderedMap α) : List String := m.entries.map Prod.fst

/-- The values in the order of their names. -/
def values (m : OrderedMap α) : List α := m.entries.map Prod.snd

/-- The number of entries. -/
def size (m : OrderedMap α) : Nat := m.entries.length

/-- Whether there are no entries. -/
def isEmpty (m : OrderedMap α) : Bool := m.entries.isEmpty

/-- The sum of a measure over the entries. -/
def sumBy (f : String → α → Nat) (m : OrderedMap α) : Nat :=
  m.entries.foldr (fun e n => f e.1 e.2 + n) 0

/-! ## Entry lists -/

/-- The value under a name in a list of entries. -/
def find (k : String) : List (String × α) → Option α
  | [] => none
  | (k', v) :: rest => if k' = k then some v else find k rest

/-- A list of entries with the value under `k` set to `v`, at the end if `k` is new. -/
def put (k : String) (v : α) : List (String × α) → List (String × α)
  | [] => [(k, v)]
  | (k', v') :: rest => if k' = k then (k', v) :: rest else (k', v') :: put k v rest

theorem mem_keys_put {k k' : String} {v : α} {l : List (String × α)} :
    k' ∈ (put k v l).map Prod.fst ↔ k' = k ∨ k' ∈ l.map Prod.fst := by
  induction l with
  | nil => simp [put]
  | cons e l ih =>
    obtain ⟨a, w⟩ := e
    by_cases h : a = k
    · subst h; simp [put]
    · simp only [put, h, if_false, List.map_cons, List.mem_cons, ih]
      constructor <;> rintro (h | h | h) <;> simp [h]

theorem nodup_put {k : String} {v : α} {l : List (String × α)} (h : (l.map Prod.fst).Nodup) :
    ((put k v l).map Prod.fst).Nodup := by
  induction l with
  | nil => simp [put]
  | cons e l ih =>
    obtain ⟨a, w⟩ := e
    simp only [List.map_cons, List.nodup_cons] at h
    by_cases hk : a = k
    · rw [put, if_pos hk, List.map_cons, List.nodup_cons]; exact h
    · rw [put, if_neg hk, List.map_cons, List.nodup_cons, mem_keys_put, not_or]
      exact ⟨⟨hk, h.1⟩, ih h.2⟩

theorem find_put {k k' : String} {v : α} {l : List (String × α)} :
    find k' (put k v l) = if k = k' then some v else find k' l := by
  induction l with
  | nil => by_cases h : k = k' <;> simp [put, find, h]
  | cons e l ih =>
    obtain ⟨a, w⟩ := e
    by_cases hk : a = k
    · subst hk
      by_cases h : a = k' <;> simp [put, find, h]
    · by_cases h : k = k'
      · subst h; simp [put, find, hk, ih]
      · rw [put, if_neg hk, find, ih, if_neg h, if_neg h, find]

/-! ## Operations -/

/-- The value under a name. -/
def get? (m : OrderedMap α) (k : String) : Option α := find k m.entries

/-- Whether a name has a value. -/
def contains (m : OrderedMap α) (k : String) : Bool := (m.get? k).isSome

/-- The map with a value set: in place if the name is there, at the end otherwise. -/
def insert (m : OrderedMap α) (k : String) (v : α) : OrderedMap α :=
  ⟨put k v m.entries, nodup_put m.nodup⟩

theorem nodup_filter {p : String × α → Bool} {l : List (String × α)}
    (h : (l.map Prod.fst).Nodup) : ((l.filter p).map Prod.fst).Nodup :=
  h.sublist (List.filter_sublist.map Prod.fst)

/-- The entries that satisfy a test. -/
def filter (p : String → α → Bool) (m : OrderedMap α) : OrderedMap α :=
  ⟨m.entries.filter fun e => p e.1 e.2, nodup_filter m.nodup⟩

theorem sublist_map_filterMap (f : String → α → Option β) (l : List (String × α)) :
    ((l.filterMap fun e => (f e.1 e.2).map fun b => (e.1, b)).map Prod.fst).Sublist
      (l.map Prod.fst) := by
  induction l with
  | nil => simp
  | cons e l ih =>
    cases h : f e.1 e.2 with
    | none => simpa [h] using ih.cons e.1
    | some b => simpa [h] using ih

theorem nodup_filterMap {f : String → α → Option β} {l : List (String × α)}
    (h : (l.map Prod.fst).Nodup) :
    ((l.filterMap fun e => (f e.1 e.2).map fun b => (e.1, b)).map Prod.fst).Nodup :=
  h.sublist (sublist_map_filterMap f l)

/-- The map without a name. -/
def erase (m : OrderedMap α) (k : String) : OrderedMap α := m.filter fun k' _ => k' != k

/-- The map with every value replaced by its image. -/
def map (f : String → α → β) (m : OrderedMap α) : OrderedMap β :=
  ⟨m.entries.map fun e => (e.1, f e.1 e.2), by
    have : (m.entries.map fun e => (e.1, f e.1 e.2)).map Prod.fst = m.entries.map Prod.fst := by
      simp [Function.comp_def]
    rw [this]; exact m.nodup⟩

/-- The entries whose image is present, each replaced by its image. -/
def filterMap (f : String → α → Option β) (m : OrderedMap α) : OrderedMap β :=
  ⟨m.entries.filterMap fun e => (f e.1 e.2).map fun b => (e.1, b), nodup_filterMap m.nodup⟩

/-- The map with the entries of another one inserted in order. -/
def overlay (m n : OrderedMap α) : OrderedMap α :=
  n.entries.foldl (fun m e => m.insert e.1 e.2) m

/-- The entries of a list, inserted one after the other. -/
def ofList (l : List (String × α)) : OrderedMap α :=
  l.foldl (fun m e => m.insert e.1 e.2) empty

/-! ## Look-up -/

@[simp] theorem get?_empty (k : String) : (empty : OrderedMap α).get? k = none := rfl

@[simp] theorem get?_insert (m : OrderedMap α) (k k' : String) (v : α) :
    (m.insert k v).get? k' = if k = k' then some v else m.get? k' := find_put

theorem find_eq_none {k : String} {l : List (String × α)} (h : k ∉ l.map Prod.fst) :
    find k l = none := by
  induction l with
  | nil => rfl
  | cons e l ih =>
    simp only [List.map_cons, List.mem_cons, not_or] at h
    simp [find, Ne.symm h.1, ih h.2]

theorem find_filter {p : String → α → Bool} {k : String} {l : List (String × α)}
    (h : (l.map Prod.fst).Nodup) :
    find k (l.filter fun e => p e.1 e.2) = (find k l).filter (p k) := by
  induction l with
  | nil => rfl
  | cons e l ih =>
    obtain ⟨a, w⟩ := e
    simp only [List.map_cons, List.nodup_cons] at h
    have absent : a = k → find k l = none := fun hk => find_eq_none (hk ▸ h.1)
    by_cases hk : a = k
    · subst hk
      by_cases hp : p a w = true
      · simp [find, hp, Option.filter]
      · simp [find, hp, Option.filter, ih h.2, absent rfl]
    · by_cases hp : p a w = true
      · simp [find, hp, hk, ih h.2]
      · simp [find, hp, hk, ih h.2]

@[simp] theorem get?_filter (m : OrderedMap α) (p : String → α → Bool) (k : String) :
    (m.filter p).get? k = (m.get? k).filter (p k) := find_filter m.nodup

@[simp] theorem get?_erase (m : OrderedMap α) (k k' : String) :
    (m.erase k).get? k' = if k = k' then none else m.get? k' := by
  by_cases h : k = k'
  · subst h; cases hm : m.get? k <;> simp [erase, hm, Option.filter]
  · cases hm : m.get? k' <;> simp [erase, hm, Option.filter, h, Ne.symm h]

@[simp] theorem get?_map (f : String → α → β) (m : OrderedMap α) (k : String) :
    (m.map f).get? k = (m.get? k).map (f k) := by
  have : ∀ l : List (String × α),
      find k (l.map fun e => (e.1, f e.1 e.2)) = (find k l).map (f k) := by
    intro l
    induction l with
    | nil => rfl
    | cons e l ih =>
      by_cases h : e.1 = k
      · subst h; simp [find]
      · simp [find, h, ih]
  exact this m.entries

@[simp] theorem get?_filterMap (f : String → α → Option β) (m : OrderedMap α) (k : String) :
    (m.filterMap f).get? k = (m.get? k).bind (f k) := by
  have step : ∀ l : List (String × α), (l.map Prod.fst).Nodup →
      find k (l.filterMap fun e => (f e.1 e.2).map fun b => (e.1, b)) =
        (find k l).bind (f k) := by
    intro l
    induction l with
    | nil => intro; rfl
    | cons e l ih =>
      intro h
      simp only [List.map_cons, List.nodup_cons] at h
      have rest := ih h.2
      by_cases hk : e.1 = k
      · subst hk
        have absent := find_eq_none h.1
        cases hf : f e.1 e.2 <;> simp [find, hf, rest, absent]
      · cases hf : f e.1 e.2 <;> simp [find, hf, rest, hk]
  exact step m.entries m.nodup

/-! ## Equality of contents -/

/-- Equal contents, whatever the order. -/
def Equiv (a b : OrderedMap α) : Prop := ∀ k, a.get? k = b.get? k

theorem Equiv.refl (a : OrderedMap α) : Equiv a a := fun _ => rfl

theorem Equiv.symm {a b : OrderedMap α} (h : Equiv a b) : Equiv b a := fun k => (h k).symm

theorem Equiv.trans {a b c : OrderedMap α} (h : Equiv a b) (h' : Equiv b c) : Equiv a c :=
  fun k => (h k).trans (h' k)

/-- Whether two maps have equal contents under a comparison of values. -/
def sameBy (eq : α → α → Bool) (a b : OrderedMap α) : Bool :=
  a.size == b.size && a.entries.all fun (k, v) => (b.get? k).any (eq v)

end OrderedMap

end Schemata
