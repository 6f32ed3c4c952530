/-
  Sorting by a preorder.

  * `mergeSort_eq_of_filter`: sorting keeps equivalent items in their order, so two lists with the
    same items whose equivalent ones come in the same order are sorted alike;
  * `map_mergeSort_eq`: sorted by a key, the order of the items does not show in what the key
    determines;
  * the orders of constraints and of indexes are total preorders, and equivalent constraints are of
    one kind;
  * `Constraint.byKind_eq_mergeSort`: to group constraints by kind is to sort them by kind.
-/
import Mathlib.Data.List.Basic
import Schemata.Schema.Outline

namespace Schemata

section
variable {α : Type} {le : α → α → Bool} {l l' : List α}

/-- Neither item comes before the other. -/
def tied (le : α → α → Bool) (a b : α) : Bool := le a b && le b a

theorem eq_of_pairwise_of_filter (hs : l.Pairwise fun a b => le a b = true)
    (hs' : l'.Pairwise fun a b => le a b = true) (hrefl : ∀ a, le a a = true) (hperm : l.Perm l')
    (hf : ∀ a, l.filter (tied le a) = l'.filter (tied le a)) : l = l' := by
  induction l generalizing l' with
  | nil => exact hperm.nil_eq
  | cons x xs ih =>
    cases l' with
    | nil => exact absurd hperm.eq_nil (List.cons_ne_nil x xs)
    | cons y ys =>
      have hle (a b : α) {l : List α} (hl : (a :: l).Pairwise fun a b => le a b = true)
          (hb : b ∈ a :: l) : le a b = true := by
        rcases List.mem_cons.1 hb with rfl | hb
        · exact hrefl b
        · exact List.rel_of_pairwise_cons hl hb
      have hxy : tied le x y = true := by
        rw [tied, Bool.and_eq_true]
        exact ⟨hle x y hs (hperm.mem_iff.2 List.mem_cons_self),
          hle y x hs' (hperm.mem_iff.1 List.mem_cons_self)⟩
      have hxx : tied le x x = true := by simp [tied, hrefl]
      have hx := hf x
      rw [List.filter_cons_of_pos hxx, List.filter_cons_of_pos hxy] at hx
      obtain ⟨rfl, -⟩ := List.cons.inj hx
      rw [ih hs.of_cons hs'.of_cons (List.perm_cons x |>.1 hperm)]
      intro a
      have ha := hf a
      by_cases hax : tied le a x = true
      · rw [List.filter_cons_of_pos hax, List.filter_cons_of_pos hax] at ha
        exact (List.cons.inj ha).2
      · rwa [List.filter_cons_of_neg hax, List.filter_cons_of_neg hax] at ha

/-- Lists with the same items in the order of a key that determines their images have the same
    images. -/
theorem map_eq_of_pairwise {β γ : Type} {l l' : List β} {key : β → α} {f : β → γ}
    (hanti : ∀ a b, le a b = true → le b a = true → a = b)
    (hs : l.Pairwise fun a b => le (key a) (key b) = true)
    (hs' : l'.Pairwise fun a b => le (key a) (key b) = true) (hperm : l.Perm l')
    (hf : ∀ a ∈ l, ∀ b ∈ l, key a = key b → f a = f b) : l.map f = l'.map f := by
  -- keys and images together are ordered without ties
  have hpairs : (l.map fun a => (key a, f a)) = l'.map fun a => (key a, f a) := by
    have hsorted {m : List β} (hm : m.Pairwise fun a b => le (key a) (key b) = true) :
        (m.map fun a => (key a, f a)).Pairwise fun p q => le p.1 q.1 = true := List.pairwise_map.2 hm
    refine List.Perm.eq_of_pairwise (fun p q hp hq hpq hqp => ?_) (hsorted hs) (hsorted hs')
      (hperm.map _)
    obtain ⟨a, ha, rfl⟩ := List.mem_map.1 hp
    obtain ⟨b, hb, rfl⟩ := List.mem_map.1 hq
    have hkey := hanti _ _ hpq hqp
    exact Prod.ext hkey (hf a ha b (hperm.mem_iff.2 hb) hkey)
  simpa only [List.map_map, Function.comp_def] using congrArg (List.map Prod.snd) hpairs

variable (htrans : ∀ a b c, le a b = true → le b c = true → le a c = true)
variable (htotal : ∀ a b, (le a b || le b a) = true)
include htrans htotal

/-- Sorting keeps equivalent items in their order. -/
theorem filter_mergeSort (a : α) :
    (l.mergeSort le).filter (tied le a) = l.filter (tied le a) := by
  have hpair : (l.filter (tied le a)).Pairwise fun b c => le b c = true := by
    refine List.pairwise_of_forall_mem_list fun b hb c hc => ?_
    have hb := (List.mem_filter.1 hb).2
    have hc := (List.mem_filter.1 hc).2
    rw [tied, Bool.and_eq_true] at hb hc
    exact htrans b a c hb.2 hc.1
  have hsub := (List.sublist_mergeSort htrans htotal hpair List.filter_sublist).filter (tied le a)
  rw [List.filter_filter] at hsub
  simp only [Bool.and_self] at hsub
  refine (hsub.eq_of_length ?_).symm
  exact ((List.mergeSort_perm l le).filter (tied le a)).length_eq.symm

/-- Lists with the same items, the equivalent ones in the same order, are sorted alike. -/
theorem mergeSort_eq_of_filter (hperm : l.Perm l')
    (hf : ∀ a, l.filter (tied le a) = l'.filter (tied le a)) : l.mergeSort le = l'.mergeSort le := by
  refine eq_of_pairwise_of_filter (List.pairwise_mergeSort htrans htotal l)
    (List.pairwise_mergeSort htrans htotal l') (fun a => by simpa using htotal a a) ?_ fun a => ?_
  · exact (List.mergeSort_perm l le).trans (hperm.trans (List.mergeSort_perm l' le).symm)
  · rw [filter_mergeSort htrans htotal, filter_mergeSort htrans htotal, hf]

/-- Sorting twice is sorting once. -/
theorem mergeSort_mergeSort : (l.mergeSort le).mergeSort le = l.mergeSort le :=
  List.mergeSort_of_pairwise (List.pairwise_mergeSort htrans htotal l)

/-- Lists with the same items, sorted by a key that determines their images, have the same images. -/
theorem map_mergeSort_eq {β γ : Type} {l l' : List β} {key : β → α} {f : β → γ}
    (hanti : ∀ a b, le a b = true → le b a = true → a = b) (hperm : l.Perm l')
    (hf : ∀ a ∈ l, ∀ b ∈ l, key a = key b → f a = f b) :
    (l.mergeSort fun a b => le (key a) (key b)).map f =
      (l'.mergeSort fun a b => le (key a) (key b)).map f := by
  have hsorted (m : List β) : (m.mergeSort fun a b => le (key a) (key b)).Pairwise
      fun a b => le (key a) (key b) = true :=
    List.pairwise_mergeSort (fun a b c => htrans (key a) (key b) (key c))
      (fun a b => htotal (key a) (key b)) m
  refine map_eq_of_pairwise hanti (hsorted l) (hsorted l') ?_ fun a ha b hb => ?_
  · exact ((List.mergeSort_perm l _).trans hperm).trans (List.mergeSort_perm l' _).symm
  · exact hf a (List.mem_mergeSort.1 ha) b (List.mem_mergeSort.1 hb)

end

/-! ## Texts -/

theorem textLE_iff {a b : String} : textLE a b = true ↔ ¬b < a := by
  rw [textLE, Bool.not_eq_true', decide_eq_false_iff_not]

theorem textLE_trans (a b c : String) (h : textLE a b = true) (h' : textLE b c = true) :
    textLE a c = true := by
  rw [textLE_iff, String.not_lt] at h h' ⊢
  exact String.le_trans h h'

theorem textLE_total (a b : String) : (textLE a b || textLE b a) = true := by
  rw [Bool.or_eq_true, textLE_iff, textLE_iff]
  exact (String.le_total a b).imp String.not_lt.2 String.not_lt.2

theorem textLE_antisymm {a b : String} (h : textLE a b = true) (h' : textLE b a = true) : a = b :=
  String.le_antisymm (String.not_lt.1 (textLE_iff.1 h)) (String.not_lt.1 (textLE_iff.1 h'))

theorem textsLE_total (as bs : List String) : (textsLE as bs || textsLE bs as) = true := by
  induction as generalizing bs with
  | nil => simp [textsLE]
  | cons a as ih =>
    cases bs with
    | nil => simp [textsLE]
    | cons b bs =>
      by_cases h : a = b
      · subst h
        simpa [textsLE] using ih bs
      · simpa [textsLE, h, Ne.symm h] using textLE_total a b

theorem textsLE_trans (as bs cs : List String) (h : textsLE as bs = true)
    (h' : textsLE bs cs = true) : textsLE as cs = true := by
  induction as generalizing bs cs with
  | nil => simp [textsLE]
  | cons a as ih =>
    cases bs with
    | nil => cases h
    | cons b bs =>
      cases cs with
      | nil => cases h'
      | cons c cs =>
        rw [textsLE] at h h' ⊢
        by_cases hab : a = b
        · subst hab
          rw [if_pos rfl] at h
          by_cases hac : a = c
          · rw [if_pos hac] at h' ⊢
            exact ih bs cs h h'
          · rw [if_neg hac] at h' ⊢
            exact h'
        · rw [if_neg hab] at h
          by_cases hbc : b = c
          · subst hbc
            rw [if_neg hab]
            exact h
          · rw [if_neg hbc] at h'
            have hac := textLE_trans a b c h h'
            by_cases hac' : a = c
            · subst hac'
              exact absurd (textLE_antisymm h h') hab
            · rw [if_neg hac']
              exact hac

theorem textsLE_antisymm {as bs : List String} (h : textsLE as bs = true)
    (h' : textsLE bs as = true) : as = bs := by
  induction as generalizing bs with
  | nil =>
    cases bs with
    | nil => rfl
    | cons b bs => cases h'
  | cons a as ih =>
    cases bs with
    | nil => cases h
    | cons b bs =>
      rw [textsLE] at h h'
      by_cases hab : a = b
      · rw [if_pos hab] at h
        rw [if_pos hab.symm] at h'
        rw [hab, ih h h']
      · rw [if_neg hab] at h
        rw [if_neg (Ne.symm hab)] at h'
        exact absurd (textLE_antisymm h h') hab

theorem head_eq_of_tied {a b : String} {as bs : List String}
    (h : tied textsLE (a :: as) (b :: bs) = true) : a = b := by
  rw [tied, Bool.and_eq_true] at h
  exact (List.cons.inj (textsLE_antisymm h.1 h.2)).1

/-! ## Constraints and indexes -/

theorem Constraint.le_trans (a b c : Constraint) (h : Constraint.le a b = true)
    (h' : Constraint.le b c = true) : Constraint.le a c = true := textsLE_trans _ _ _ h h'

theorem Constraint.le_total (a b : Constraint) :
    (Constraint.le a b || Constraint.le b a) = true := textsLE_total _ _

theorem Index.le_trans (a b c : Index) (h : Index.le a b = true) (h' : Index.le b c = true) :
    Index.le a c = true := textLE_trans _ _ _ h h'

theorem Index.le_total (a b : Index) : (Index.le a b || Index.le b a) = true := textLE_total _ _

/-- Equivalent constraints are of one kind. -/
theorem Constraint.kind_eq_of_tied {a b : Constraint} (h : tied Constraint.le a b = true) :
    a.kind = b.kind := by
  have hname : a.kind.name = b.kind.name := head_eq_of_tied h
  have hinj : ∀ k k' : ConstraintKind, k.name = k'.name → k = k' := by
    intro k k'
    cases k <;> cases k' <;> simp [ConstraintKind.name]
  exact hinj _ _ hname

/-- Constraints by kind, those of one kind in their order. -/
def Constraint.byKind (cs : List Constraint) : List Constraint :=
  ConstraintKind.all.flatMap fun kind => cs.filter fun c => c.kind == kind

theorem Constraint.byKind_perm (cs : List Constraint) : (byKind cs).Perm cs := by
  rw [List.perm_iff_count]
  intro a
  have hkind (kind : ConstraintKind) : (cs.filter fun c => c.kind == kind).count a =
      if a.kind = kind then cs.count a else 0 := by
    split
    · next h => exact List.count_filter (by simp [h])
    · next h => exact List.count_eq_zero_of_not_mem fun hm => h (by simpa using (List.mem_filter.1 hm).2)
  simp only [byKind, ConstraintKind.all, List.flatMap_cons, List.flatMap_nil, List.append_nil,
    List.count_append, hkind]
  cases a.kind <;> simp

/-- Grouping by kind keeps constraints in their order that an order of kinds does not tell apart. -/
theorem Constraint.filter_tied_byKind {le : Constraint → Constraint → Bool}
    (hkind : ∀ a b, tied le a b = true → a.kind = b.kind) (cs : List Constraint) (a : Constraint) :
    (byKind cs).filter (tied le a) = cs.filter (tied le a) := by
  have hone (kind : ConstraintKind) : (cs.filter fun c => c.kind == kind).filter (tied le a) =
      if a.kind = kind then cs.filter (tied le a) else [] := by
    rw [List.filter_filter]
    split
    · next h =>
      refine List.filter_congr fun c _ => ?_
      cases ht : tied le a c with
      | false => rfl
      | true => simp [← hkind a c ht, h]
    · next h =>
      refine List.filter_eq_nil_iff.2 fun c _ hc => h ?_
      rw [Bool.and_eq_true, beq_iff_eq] at hc
      rw [hkind a c hc.1, hc.2]
  simp only [byKind, ConstraintKind.all, List.flatMap_cons, List.flatMap_nil, List.append_nil,
    List.filter_append, hone]
  cases a.kind <;> simp

/-- Grouping constraints by kind does not change their sorted form. -/
theorem Constraint.mergeSort_byKind (cs : List Constraint) :
    (byKind cs).mergeSort Constraint.le = cs.mergeSort Constraint.le :=
  mergeSort_eq_of_filter Constraint.le_trans Constraint.le_total (byKind_perm cs)
    (filter_tied_byKind (fun _ _ => kind_eq_of_tied) cs)

/-! ### Constraints by the rank of their kind -/

/-- The order of the kinds of constraints. -/
def Constraint.rankLE (c d : Constraint) : Bool := decide (c.kind.rank ≤ d.kind.rank)

theorem Constraint.rankLE_trans (a b c : Constraint) (h : rankLE a b = true)
    (h' : rankLE b c = true) : rankLE a c = true := by
  rw [rankLE, decide_eq_true_eq] at h h' ⊢
  exact Nat.le_trans h h'

theorem Constraint.rankLE_total (a b : Constraint) : (rankLE a b || rankLE b a) = true := by
  rw [rankLE, rankLE, Bool.or_eq_true, decide_eq_true_eq, decide_eq_true_eq]
  exact Nat.le_total _ _

theorem ConstraintKind.rank_injective {k k' : ConstraintKind} (h : k.rank = k'.rank) : k = k' := by
  cases k <;> cases k' <;> first | rfl | cases h

theorem Constraint.pairwise_byKind (cs : List Constraint) :
    (byKind cs).Pairwise fun c d => rankLE c d = true := by
  have hkind : ∀ {kind : ConstraintKind} {c : Constraint},
      c ∈ cs.filter (fun c => c.kind == kind) → c.kind = kind :=
    fun hc => eq_of_beq (List.mem_filter.1 hc).2
  rw [byKind, List.pairwise_flatMap]
  constructor
  · intro kind _
    refine List.pairwise_of_forall_mem_list fun c hc d hd => ?_
    simp [rankLE, hkind hc, hkind hd]
  · have hall : ConstraintKind.all.Pairwise fun k k' => k.rank ≤ k'.rank := by decide
    refine hall.imp fun hle c hc d hd => ?_
    simpa [rankLE, hkind hc, hkind hd] using hle

/-- Grouping constraints by kind is sorting them by kind. -/
theorem Constraint.byKind_eq_mergeSort (cs : List Constraint) :
    byKind cs = cs.mergeSort rankLE := by
  have htied : ∀ a b, tied rankLE a b = true → a.kind = b.kind := by
    intro a b h
    rw [tied, rankLE, rankLE, Bool.and_eq_true, decide_eq_true_eq, decide_eq_true_eq] at h
    exact ConstraintKind.rank_injective (Nat.le_antisymm h.1 h.2)
  rw [← mergeSort_eq_of_filter rankLE_trans rankLE_total (byKind_perm cs)
    (filter_tied_byKind htied cs)]
  exact (List.mergeSort_of_pairwise (pairwise_byKind cs)).symm

/-- Constraints that are listed by kind stay in their order. -/
theorem Constraint.byKind_eq_self {cs : List Constraint}
    (h : cs.Pairwise fun c d => c.kind.rank ≤ d.kind.rank) : byKind cs = cs := by
  rw [byKind_eq_mergeSort]
  exact List.mergeSort_of_pairwise (h.imp fun hle => decide_eq_true hle)

end Schemata
