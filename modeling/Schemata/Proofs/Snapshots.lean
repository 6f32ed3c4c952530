/-
  Sameness of snapshots.

  * Sameness of numbers, of places and of tables is symmetric and transitive, and a numbered value is
    the same as itself;
  * `Snapshot.Agrees` says of two snapshots that they are equal as maps: under every name they hold
    the same table, the same enum type and the same cardinality; `Snapshot.agrees_of_same` reads it
    off the test `Snapshot.same`, and `Snapshot.same_of_agrees` passes the test;
  * `Snapshot.same_of_same_numbered`: numbering a snapshot with a free number makes it the same as
    nothing that it was not the same as before.
-/
import Schemata.History.Snapshot
import Schemata.Proofs.Maps

namespace Schemata

open Number

/-! ## Numbers -/

namespace Number.Binary64

theorem same_iff {x y : Binary64} :
    x.same y = true ↔ x ≠ nan none ∧ (x = y ∨ x.isZero = true ∧ y.isZero = true) := by
  rcases x with _ | _ | _ | k <;> simp [same]

theorem same_symm {x y : Binary64} (h : x.same y = true) : y.same x = true := by
  rw [same_iff] at h ⊢
  obtain ⟨hx, rfl | ⟨h0, h0'⟩⟩ := h
  · exact ⟨hx, .inl rfl⟩
  · refine ⟨?_, .inr ⟨h0', h0⟩⟩
    rintro rfl
    cases h0'

theorem same_trans {x y z : Binary64} (h : x.same y = true) (h' : y.same z = true) :
    x.same z = true := by
  rw [same_iff] at h h' ⊢
  obtain ⟨hx, rfl | ⟨h0, h0'⟩⟩ := h
  · exact h'
  · refine ⟨hx, .inr ⟨h0, ?_⟩⟩
    obtain ⟨-, rfl | ⟨-, h0''⟩⟩ := h'
    · exact h0'
    · exact h0''

theorem same_numbered (n : Nat) (x : Binary64) :
    (x.numbered n).same (x.numbered n) = true := by
  rw [same_iff]
  refine ⟨?_, .inl rfl⟩
  rcases x with _ | _ | _ | _ <;> simp [numbered]

theorem same_of_same_numbered {n : Nat} {x y : Binary64} (hn : x.serial < n)
    (h : x.same (y.numbered n) = true) : x.same y = true := by
  by_cases hy : y = nan none
  · subst hy
    -- the number `n` is not one that `x` has
    obtain ⟨-, rfl | ⟨-, h0⟩⟩ := same_iff.1 h
    · simp [numbered, serial] at hn
    · cases h0
  · have : y.numbered n = y := by rcases y with _ | _ | _ | _ <;> simp_all [numbered]
    rwa [this] at h

end Number.Binary64

/-! ## Places and tables -/

namespace Position

theorem sameOption_symm {p q : Option Position} (h : sameOption p q = true) :
    sameOption q p = true := by
  rcases p with _ | p <;> rcases q with _ | q
  · rfl
  · exact absurd h Bool.false_ne_true
  · exact absurd h Bool.false_ne_true
  · simp only [sameOption, same, Bool.and_eq_true] at h ⊢
    exact ⟨Binary64.same_symm h.1, Binary64.same_symm h.2⟩

theorem sameOption_trans {p q r : Option Position} (h : sameOption p q = true)
    (h' : sameOption q r = true) : sameOption p r = true := by
  rcases p with _ | p <;> rcases q with _ | q
  · exact h'
  · exact absurd h Bool.false_ne_true
  · exact absurd h Bool.false_ne_true
  · rcases r with _ | r
    · exact absurd h' Bool.false_ne_true
    · simp only [sameOption, same, Bool.and_eq_true] at h h' ⊢
      exact ⟨Binary64.same_trans h.1 h'.1, Binary64.same_trans h.2 h'.2⟩

theorem sameOption_numbered (n : Nat) (p : Option Position) :
    sameOption (p.map (numbered n)) (p.map (numbered n)) = true := by
  cases p with
  | none => rfl
  | some p => simp [sameOption, same, numbered, Binary64.same_numbered]

theorem sameOption_of_numbered {n : Nat} {p q : Option Position}
    (hn : (p.map Position.serial).getD 0 < n)
    (h : sameOption p (q.map (numbered n)) = true) : sameOption p q = true := by
  rcases p with _ | p <;> rcases q with _ | q
  · rfl
  · exact absurd h Bool.false_ne_true
  · exact absurd h Bool.false_ne_true
  · simp only [Option.map_some, Option.getD_some, Position.serial] at hn
    simp only [sameOption, same, Option.map_some, Bool.and_eq_true] at h ⊢
    exact ⟨Binary64.same_of_same_numbered (by omega) h.1,
      Binary64.same_of_same_numbered (by omega) h.2⟩

end Position

namespace Table

theorem same_iff {t u : Table} :
    t.same u = true ↔ Position.sameOption t.position u.position = true ∧
      { t with position := none } = { u with position := none } := by
  rw [same, Bool.and_eq_true, decide_eq_true_iff]

theorem same_symm {t u : Table} (h : t.same u = true) : u.same t = true := by
  rw [same_iff] at h ⊢
  exact ⟨Position.sameOption_symm h.1, h.2.symm⟩

theorem same_trans {t u v : Table} (h : t.same u = true) (h' : u.same v = true) :
    t.same v = true := by
  rw [same_iff] at h h' ⊢
  exact ⟨Position.sameOption_trans h.1 h'.1, h.2.trans h'.2⟩

end Table

/-! ## Snapshots -/

namespace Snapshot

/-- Equality as maps: under every name the same table, enum type and cardinality. -/
structure Agrees (a b : Snapshot) : Prop where
  tables : a.schema.tables.Agree Table.same b.schema.tables
  enums : a.schema.enums.Equiv b.schema.enums
  cardinalities : a.cardinalities.Equiv b.cardinalities

theorem Agrees.symm {a b : Snapshot} (h : Agrees a b) : Agrees b a := by
  refine ⟨h.tables.symm ?_, h.enums.symm, h.cardinalities.symm⟩
  exact fun _ _ => Table.same_symm

theorem Agrees.trans {a b c : Snapshot} (h : Agrees a b) (h' : Agrees b c) : Agrees a c := by
  refine ⟨h.tables.trans ?_ h'.tables, h.enums.trans h'.enums,
    h.cardinalities.trans h'.cardinalities⟩
  exact fun _ _ _ => Table.same_trans

theorem agrees_of_same {a b : Snapshot} (h : a.same b = true) : Agrees a b := by
  simp only [same, Bool.and_eq_true] at h
  obtain ⟨⟨ht, he⟩, hc⟩ := h
  exact ⟨OrderedMap.agree_of_sameBy ht,
    OrderedMap.agree_beq_iff.1 (OrderedMap.agree_of_sameBy he),
    OrderedMap.agree_beq_iff.1 (OrderedMap.agree_of_sameBy hc)⟩

theorem same_of_agrees {a b : Snapshot} (h : Agrees a b) : a.same b = true := by
  rw [same, Bool.and_eq_true, Bool.and_eq_true]
  exact ⟨⟨OrderedMap.sameBy_of_agree h.tables,
    OrderedMap.sameBy_of_agree (OrderedMap.agree_beq_iff.2 h.enums)⟩,
    OrderedMap.sameBy_of_agree (OrderedMap.agree_beq_iff.2 h.cardinalities)⟩

/-- A numbered snapshot agrees with itself. -/
theorem agrees_numbered (n : Nat) (s : Snapshot) : Agrees (s.numbered n) (s.numbered n) := by
  refine ⟨fun k => ?_, .refl _, .refl _⟩
  simp only [numbered, OrderedMap.get?_map]
  cases s.schema.tables.get? k with
  | none => exact .none
  | some t => exact .some (Table.same_iff.2 ⟨Position.sameOption_numbered n t.position, rfl⟩)

theorem le_foldl_max {α : Type} (f : α → Nat) (l : List α) (n : Nat) :
    n ≤ l.foldl (fun n a => max n (f a)) n ∧ ∀ a ∈ l, f a ≤ l.foldl (fun n a => max n (f a)) n := by
  induction l generalizing n with
  | nil => simp
  | cons b l ih =>
    obtain ⟨hn, hl⟩ := ih (max n (f b))
    refine ⟨by simp only [List.foldl_cons]; omega, ?_⟩
    intro a ha
    rcases List.mem_cons.1 ha with rfl | ha
    · simp only [List.foldl_cons]; omega
    · exact hl a ha

theorem serial_le {s : Snapshot} {k : String} {t : Table} (h : (k, t) ∈ s.schema.tables.entries) :
    (t.position.map Position.serial).getD 0 ≤ s.serial :=
  (le_foldl_max (fun t : Table => (t.position.map Position.serial).getD 0) _ 0).2 t
    (List.mem_map.2 ⟨_, h, rfl⟩)

/-- **Numbering.** A snapshot that differs from another one still does so after it is numbered with
    a number that the other one does not have. -/
theorem same_of_same_numbered {n : Nat} {a b : Snapshot} (hn : a.serial < n)
    (h : a.same (b.numbered n) = true) : a.same b = true := by
  simp only [same, Bool.and_eq_true] at h ⊢
  obtain ⟨⟨ht, he⟩, hc⟩ := h
  refine ⟨⟨?_, he⟩, hc⟩
  simp only [OrderedMap.sameBy, Bool.and_eq_true, List.all_eq_true, numbered,
    OrderedMap.get?_map, Option.any_map] at ht ⊢
  refine ⟨by simpa [OrderedMap.size, OrderedMap.map] using ht.1, ?_⟩
  rintro ⟨k, t⟩ hk
  have := ht.2 (k, t) hk
  simp only [Option.any_eq_true] at this ⊢
  obtain ⟨u, hu, hs⟩ := this
  refine ⟨u, hu, ?_⟩
  rw [Table.same_iff] at hs ⊢
  have := serial_le hk
  exact ⟨Position.sameOption_of_numbered (n := n) (by omega) hs.1, hs.2⟩

end Snapshot

end Schemata
