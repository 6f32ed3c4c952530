/-
  Maps with equal contents.

  * `get?_eq_some_iff`: looking a name up is finding its pair among the entries;
  * `filterMap_eq_self`: a map whose values are their own images is kept;
  * `Agree` compares two maps name by name; `agree_of_sameBy` reads it off the test `sameBy`, which
    compares the sizes and the values under the names of one map only, and `sameBy_of_agree` passes
    the test.
-/
import Mathlib.Data.List.Nodup
import Mathlib.Data.List.Perm.Subperm
import Mathlib.Data.Option.Basic
import Schemata.OrderedMap

namespace Schemata

namespace OrderedMap

variable {α : Type}

theorem mem_of_find {k : String} {v : α} {l : List (String × α)} (h : find k l = some v) :
    (k, v) ∈ l := by
  induction l with
  | nil => cases h
  | cons e l ih =>
    by_cases hk : e.1 = k
    · simp only [find, if_pos hk, Option.some.injEq] at h
      subst hk h
      exact List.mem_cons_self
    · rw [find, if_neg hk] at h
      exact List.mem_cons_of_mem _ (ih h)

theorem find_of_mem {k : String} {v : α} {l : List (String × α)} (hd : (l.map Prod.fst).Nodup)
    (h : (k, v) ∈ l) : find k l = some v := by
  induction l with
  | nil => cases h
  | cons e l ih =>
    simp only [List.map_cons, List.nodup_cons] at hd
    rcases List.mem_cons.1 h with rfl | h
    · simp [find]
    · have : e.1 ≠ k := by
        rintro rfl
        exact hd.1 (List.mem_map.2 ⟨_, h, rfl⟩)
      rw [find, if_neg this]
      exact ih hd.2 h

/-- A new name goes to the end. -/
theorem put_of_not_mem {k : String} (v : α) {l : List (String × α)} (h : k ∉ l.map Prod.fst) :
    put k v l = l ++ [(k, v)] := by
  induction l with
  | nil => rfl
  | cons e l ih =>
    rw [List.map_cons, List.mem_cons, not_or] at h
    rw [put, if_neg (Ne.symm h.1), ih h.2]
    rfl

theorem entries_foldl_insert {m : OrderedMap α} {l : List (String × α)}
    (h : ((m.entries ++ l).map Prod.fst).Nodup) :
    (l.foldl (fun m e => m.insert e.1 e.2) m).entries = m.entries ++ l := by
  induction l generalizing m with
  | nil => exact (List.append_nil _).symm
  | cons e l ih =>
    have hnew : e.1 ∉ m.entries.map Prod.fst := by
      rw [List.map_append, List.nodup_append] at h
      exact fun hm => h.2.2 e.1 hm e.1 List.mem_cons_self rfl
    have hinsert : (m.insert e.1 e.2).entries = m.entries ++ [e] := put_of_not_mem e.2 hnew
    have hassoc : (m.insert e.1 e.2).entries ++ l = m.entries ++ e :: l := by
      rw [hinsert, List.append_assoc]
      rfl
    rw [List.foldl_cons, ih (by rwa [hassoc]), hassoc]

/-- A map is the one of its entries. -/
theorem ofList_entries (m : OrderedMap α) : ofList m.entries = m := by
  have h : (ofList m.entries).entries = m.entries := entries_foldl_insert m.nodup
  cases m
  cases hm : ofList _
  rw [hm] at h
  cases h
  rfl

/-- A name has a value just if the pair is an entry. -/
theorem get?_eq_some_iff {m : OrderedMap α} {k : String} {v : α} :
    m.get? k = some v ↔ (k, v) ∈ m.entries :=
  ⟨mem_of_find, find_of_mem m.nodup⟩

theorem mem_keys_iff {m : OrderedMap α} {k : String} :
    k ∈ m.entries.map Prod.fst ↔ ∃ v, m.get? k = some v := by
  rw [List.mem_map]
  constructor
  · rintro ⟨⟨k', v⟩, hm, rfl⟩
    exact ⟨v, get?_eq_some_iff.2 hm⟩
  · rintro ⟨v, hv⟩
    exact ⟨(k, v), get?_eq_some_iff.1 hv, rfl⟩

theorem mem_values_iff {m : OrderedMap α} {v : α} :
    v ∈ m.values ↔ ∃ k, m.get? k = some v := by
  rw [values, List.mem_map]
  constructor
  · rintro ⟨⟨k, v⟩, he, rfl⟩
    exact ⟨k, get?_eq_some_iff.2 he⟩
  · rintro ⟨k, hk⟩
    exact ⟨(k, v), get?_eq_some_iff.1 hk, rfl⟩

/-- In two lists of entries, those of the first come first. -/
theorem find_append {k : String} {l m : List (String × α)} :
    find k (l ++ m) = (find k l).or (find k m) := by
  induction l with
  | nil => rfl
  | cons e l ih =>
    obtain ⟨k', v⟩ := e
    rw [List.cons_append, find, find, ih]
    split <;> rfl

/-- If parts agree on a name, it has the value that any of them gives it. -/
theorem find_flatMap_eq_some_iff {β : Type} {key : String} {f : β → List (String × α)} {l : List β}
    (h : ∀ a ∈ l, ∀ b ∈ l, ∀ v w, find key (f a) = some v → find key (f b) = some w → v = w)
    {v : α} : find key (l.flatMap f) = some v ↔ ∃ a ∈ l, find key (f a) = some v := by
  induction l with
  | nil => simp [find]
  | cons a l ih =>
    have hrest := ih fun a ha b hb =>
      h a (List.mem_cons_of_mem _ ha) b (List.mem_cons_of_mem _ hb)
    rw [List.flatMap_cons, find_append, List.exists_mem_cons_iff]
    cases ha : find key (f a) with
    | none => simpa using hrest
    | some w =>
      rw [Option.some_or]
      refine ⟨.inl, ?_⟩
      rintro (hv | ⟨b, hb, hv⟩)
      · exact hv
      · rw [h a List.mem_cons_self b (List.mem_cons_of_mem _ hb) w v ha hv]

/-- Maps with equal contents have the same entries. -/
theorem Equiv.perm_entries {a b : OrderedMap α} (h : a.Equiv b) : a.entries.Perm b.entries := by
  refine (List.perm_ext_iff_of_nodup (List.Nodup.of_map _ a.nodup)
    (List.Nodup.of_map _ b.nodup)).2 ?_
  rintro ⟨k, v⟩
  rw [← get?_eq_some_iff, ← get?_eq_some_iff, h k]

theorem Equiv.perm_values {a b : OrderedMap α} (h : a.Equiv b) : a.values.Perm b.values :=
  h.perm_entries.map Prod.snd

variable {β γ : Type}

theorem ext_entries {a b : OrderedMap α} (h : a.entries = b.entries) : a = b := by
  cases a
  cases b
  congr

theorem filterMap_map (f : String → α → β) (g : String → β → Option γ) (m : OrderedMap α) :
    (m.map f).filterMap g = m.filterMap fun k v => g k (f k v) :=
  ext_entries (List.filterMap_map ..)

theorem map_map (f : String → α → β) (g : String → β → γ) (m : OrderedMap α) :
    (m.map f).map g = m.map fun k v => g k (f k v) :=
  ext_entries (List.map_map ..)

theorem map_congr {m : OrderedMap α} {f g : String → α → β}
    (h : ∀ k v, m.get? k = some v → f k v = g k v) : m.map f = m.map g := by
  refine ext_entries (List.map_congr_left ?_)
  rintro ⟨k, v⟩ hm
  rw [h k v (get?_eq_some_iff.2 hm)]

theorem map_eq_self {m : OrderedMap α} {f : String → α → α}
    (h : ∀ k v, m.get? k = some v → f k v = v) : m.map f = m :=
  (map_congr h).trans (ext_entries (List.map_id _))

/-- If every value has an image, all entries are kept. -/
theorem filterMap_eq_map {m : OrderedMap α} {f : String → α → Option β} {g : String → α → β}
    (h : ∀ k v, m.get? k = some v → f k v = some (g k v)) : m.filterMap f = m.map g := by
  have heach : ∀ e ∈ m.entries, (f e.1 e.2).map (e.1, ·) = some (e.1, g e.1 e.2) := by
    rintro ⟨k, v⟩ hm
    rw [h k v (get?_eq_some_iff.2 hm), Option.map_some]
  exact ext_entries ((List.filterMap_congr heach).trans (congrFun List.filterMap_eq_map m.entries))

/-- A map is kept if every value is its own image. -/
theorem filterMap_eq_self {m : OrderedMap α} {f : String → α → Option α}
    (h : ∀ k v, m.get? k = some v → f k v = some v) : m.filterMap f = m :=
  (filterMap_eq_map h).trans (map_eq_self fun _ _ _ => rfl)

theorem erase_of_get?_eq_none {m : OrderedMap α} {k : String} (h : m.get? k = none) :
    m.erase k = m := by
  refine ext_entries (List.filter_eq_self.2 fun e he => ?_)
  have hne : e.1 ≠ k := by
    rintro rfl
    rw [get?_eq_some_iff.2 he] at h
    cases h
  exact bne_iff_ne.2 hne

theorem filter_put (k : String) (v : α) (l : List (String × α)) :
    (put k v l).filter (fun e => e.1 != k) = l.filter fun e => e.1 != k := by
  induction l with
  | nil => simp [put]
  | cons e l ih =>
    by_cases hk : e.1 = k
    · simp [put, hk]
    · simp [put, hk, ih]

/-- A value that was set leaves nothing when its name is erased. -/
theorem erase_insert (m : OrderedMap α) (k : String) (v : α) : (m.insert k v).erase k = m.erase k :=
  ext_entries (filter_put k v m.entries)

theorem erase_erase (m : OrderedMap α) (k : String) : (m.erase k).erase k = m.erase k :=
  erase_of_get?_eq_none (by rw [get?_erase, if_pos rfl])

/-- Under every name, both maps have a value and the values compare, or neither has one. -/
def Agree (eq : α → α → Bool) (a b : OrderedMap α) : Prop :=
  ∀ k, Option.Rel (fun v w => eq v w = true) (a.get? k) (b.get? k)

/-- The comparison of sizes and values under the names of one map covers the names of both. -/
theorem agree_of_sameBy {eq : α → α → Bool} {a b : OrderedMap α} (h : a.sameBy eq b = true) :
    Agree eq a b := by
  simp only [sameBy, Bool.and_eq_true, beq_iff_eq, List.all_eq_true, Option.any_eq_true] at h
  obtain ⟨hsize, hall⟩ := h
  have hsub : a.entries.map Prod.fst ⊆ b.entries.map Prod.fst := by
    intro k hk
    obtain ⟨v, hv⟩ := mem_keys_iff.1 hk
    obtain ⟨w, hw, -⟩ := hall (k, v) (get?_eq_some_iff.1 hv)
    exact mem_keys_iff.2 ⟨w, hw⟩
  have hperm : (a.entries.map Prod.fst).Perm (b.entries.map Prod.fst) :=
    (a.nodup.subperm hsub).perm_of_length_le (by simpa [size] using Nat.le_of_eq hsize.symm)
  intro k
  cases ha : a.get? k with
  | some v =>
    obtain ⟨w, hw, hvw⟩ := hall (k, v) (get?_eq_some_iff.1 ha)
    rw [show b.get? k = some w from hw]
    exact .some hvw
  | none =>
    cases hb : b.get? k with
    | none => exact .none
    | some w =>
      have hk := hperm.mem_iff.2 (mem_keys_iff.2 ⟨w, hb⟩)
      obtain ⟨v, hv⟩ := mem_keys_iff.1 hk
      rw [ha] at hv
      cases hv

/-- Maps that compare name by name pass the test. -/
theorem sameBy_of_agree {eq : α → α → Bool} {a b : OrderedMap α} (h : Agree eq a b) :
    a.sameBy eq b = true := by
  have hkeys : (a.entries.map Prod.fst).Perm (b.entries.map Prod.fst) := by
    rw [List.perm_ext_iff_of_nodup a.nodup b.nodup]
    intro k
    have hk := h k
    rw [mem_keys_iff, mem_keys_iff]
    cases ha : a.get? k <;> cases hb : b.get? k <;> rw [ha, hb] at hk <;> cases hk
    simp
  have hsize : a.size = b.size := by
    have := hkeys.length_eq
    rwa [List.length_map, List.length_map] at this
  rw [sameBy, hsize, beq_self_eq_true, Bool.true_and, List.all_eq_true]
  rintro ⟨k, v⟩ hm
  have hk := h k
  show (b.get? k).any (eq v) = true
  rw [get?_eq_some_iff.2 hm] at hk
  cases hb : b.get? k <;> rw [hb] at hk <;> cases hk
  · next hvw => rw [Option.any_some, hvw]

theorem agree_beq_iff [BEq α] [LawfulBEq α] {a b : OrderedMap α} :
    Agree (· == ·) a b ↔ Equiv a b := by
  refine forall_congr' fun k => ?_
  constructor
  · intro h
    cases hk : a.get? k <;> cases hk' : b.get? k <;> rw [hk, hk'] at h <;> cases h
    · next h => exact congrArg some (eq_of_beq h)
  · intro h
    rw [h]
    cases b.get? k with
    | none => exact .none
    | some v => exact .some (beq_self_eq_true v)

theorem Agree.symm {eq : α → α → Bool} (hs : ∀ v w, eq v w = true → eq w v = true)
    {a b : OrderedMap α} (h : Agree eq a b) : Agree eq b a := by
  intro k
  have := h k
  cases hk : a.get? k <;> cases hk' : b.get? k <;> rw [hk, hk'] at this <;> cases this
  · exact .none
  · next h => exact .some (hs _ _ h)

theorem Agree.trans {eq : α → α → Bool}
    (ht : ∀ u v w, eq u v = true → eq v w = true → eq u w = true)
    {a b c : OrderedMap α} (h : Agree eq a b) (h' : Agree eq b c) : Agree eq a c := by
  intro k
  have hab := h k
  have hbc := h' k
  cases ha : a.get? k <;> cases hb : b.get? k <;> cases hc : c.get? k <;>
    rw [ha, hb] at hab <;> rw [hb, hc] at hbc <;> cases hab <;> cases hbc
  · exact .none
  · next h h' => exact .some (ht _ _ _ h h')

end OrderedMap

end Schemata
