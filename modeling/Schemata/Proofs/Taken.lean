/-
  What the readers of statements take off their tokens.

  * What a reader leaves is an end of what it got, and what it cuts out are tokens in a row
    (`suffix_of_accept` and its companions, `run_of_mem_items`);
  * `of_group`, `enclosed_of_mem_items`: the parentheses of what is cut out are balanced;
  * `level_of_spanElements`: what is passed over up to a stop does not stop.
-/
import Schemata.Proofs.Levels
import Schemata.Statement.Clause

namespace Schemata.Token

variable {mark : Char} {t : Token} {ts us : List Token} {d d' : Nat}

/-! ## Pieces -/

/-- Pieces of tokens in a row, the first one from the start. -/
def Runs (ts : List Token) (pieces : List (List Token)) : Prop :=
  ∃ first more, pieces = first :: more ∧ first <+: ts ∧ ∀ us ∈ more, us <:+: ts

theorem runs_nil : Runs [] [[]] :=
  ⟨[], [], rfl, List.nil_prefix, fun _ hu => absurd hu List.not_mem_nil⟩

theorem Runs.cons {pieces : List (List Token)} (t : Token) (h : Runs ts pieces) :
    Runs (t :: ts) (Text.consFirst t pieces) := by
  obtain ⟨first, more, rfl, hfirst, hmore⟩ := h
  exact ⟨t :: first, more, rfl, List.cons_prefix_cons.2 ⟨rfl, hfirst⟩,
    fun us hu => List.infix_cons (hmore us hu)⟩

theorem Runs.mem {pieces : List (List Token)} (h : Runs ts pieces) (hu : us ∈ pieces) :
    us <:+: ts := by
  obtain ⟨first, more, rfl, hfirst, hmore⟩ := h
  rcases List.mem_cons.1 hu with rfl | hu
  · exact hfirst.isInfix
  · exact hmore us hu

theorem Runs.split {pieces : List (List Token)} (t : Token) (h : Runs ts pieces) :
    Runs (t :: ts) ([] :: pieces) :=
  ⟨[], pieces, rfl, List.nil_prefix, fun _ hu => List.infix_cons (h.mem hu)⟩

theorem runs_statementsFrom (d : Nat) (ts : List Token) : Runs ts (statementsFrom d ts) := by
  induction ts generalizing d with
  | nil => exact runs_nil
  | cons t ts ih =>
    rw [statementsFrom]
    split
    · exact (ih _).cons t
    split
    · exact (ih _).cons t
    split
    · exact (ih _).split t
    · exact (ih _).cons t

theorem runs_itemsFrom (mark : Char) (d : Int) (ts : List Token) : Runs ts (itemsFrom mark d ts) := by
  induction ts generalizing d with
  | nil => exact runs_nil
  | cons t ts ih =>
    rw [itemsFrom]
    split
    · exact (ih _).cons t
    split
    · exact (ih _).cons t
    split
    · exact (ih _).split t
    · exact (ih _).cons t

/-- A statement is a run of tokens in a row. -/
theorem run_of_mem_statements (h : us ∈ statements ts) : us <:+: ts :=
  (runs_statementsFrom 0 ts).mem (List.mem_filter.1 h).1

/-- An item of a list is a run of tokens in a row, and there are some. -/
theorem run_of_mem_items (h : us ∈ items ts) : us ≠ [] ∧ us <:+: ts := by
  obtain ⟨hu, hne⟩ := List.mem_filter.1 h
  exact ⟨by simpa using hne, (runs_itemsFrom ',' 0 ts).mem hu⟩

/-- Between marks outside parentheses the parentheses are balanced. -/
theorem level_of_itemsFrom (h : level never d ts = some 0) :
    ∃ first more, itemsFrom mark d ts = first :: more ∧ level (isPunct mark) d first = some 0 ∧
      ∀ us ∈ more, Enclosed (isPunct mark) us := by
  induction ts generalizing d with
  | nil =>
    obtain rfl : d = 0 := Option.some.inj h
    exact ⟨[], [], rfl, rfl, fun _ hu => absurd hu List.not_mem_nil⟩
  | cons t ts ih =>
    rw [itemsFrom]
    obtain ⟨ho, h⟩ | ⟨ho, hc, hd, h⟩ | ⟨ho, hc, -, h⟩ := level_cons h
    · obtain ⟨first, more, he, hfirst, hmore⟩ := ih h
      rw [if_pos ho, show (d : Int) + 1 = ((d + 1 : Nat) : Int) by omega, he]
      exact ⟨t :: first, more, rfl, by rw [level_open ho, hfirst], hmore⟩
    · obtain ⟨first, more, he, hfirst, hmore⟩ := ih h
      rw [if_neg (by simp [ho]), if_pos hc, show (d : Int) - 1 = ((d - 1 : Nat) : Int) by omega, he]
      exact ⟨t :: first, more, rfl, by rw [level_close ho hc hd, hfirst], hmore⟩
    · obtain ⟨first, more, he, hfirst, hmore⟩ := ih h
      rw [if_neg (by simp [ho]), if_neg (by simp [hc]), he]
      split
      · next hm =>
        simp only [Bool.and_eq_true, beq_iff_eq] at hm
        obtain rfl : d = 0 := by omega
        refine ⟨[], first :: more, rfl, rfl, fun us hu => ?_⟩
        rcases List.mem_cons.1 hu with rfl | hu
        · exact hfirst
        · exact hmore us hu
      · next hm =>
        simp only [Bool.and_eq_true, beq_iff_eq, not_and] at hm
        refine ⟨t :: first, more, rfl, ?_, hmore⟩
        rw [level_other ho hc, hfirst]
        intro hd
        rw [Bool.eq_false_iff]
        exact fun hp => hm hp (by omega)

/-- The items of a balanced list are balanced themselves. -/
theorem enclosed_of_mem_items (h : Enclosed never ts) (hu : us ∈ items ts) :
    Enclosed (isPunct ',') us := by
  obtain ⟨first, more, he, hfirst, hmore⟩ := @level_of_itemsFrom ',' ts 0 h
  have hm : us ∈ itemsFrom ',' 0 ts := (List.mem_filter.1 hu).1
  rw [show (0 : Int) = ((0 : Nat) : Int) from rfl, he] at hm
  rcases List.mem_cons.1 hm with rfl | hm
  · exact hfirst
  · exact hmore us hm

end Schemata.Token

namespace Schemata.Cursor

open Token

variable {stop : Token → Bool} {t : Token} {ts rest inside front : List Token} {d d' : Nat}

/-! ## Keywords and names -/

theorem suffix_of_accept {words : List String} (h : accept words ts = some rest) : rest <:+ ts := by
  induction words generalizing ts with
  | nil =>
    have : ts = rest := by cases ts <;> exact Option.some.inj h
    exact this ▸ List.suffix_rfl
  | cons w words ih =>
    cases ts with
    | nil => cases h
    | cons t ts =>
      rw [accept] at h
      split at h
      · exact (ih h).trans (List.suffix_cons t ts)
      · cases h

theorem suffix_skip (words : List String) (ts : List Token) : skip words ts <:+ ts := by
  unfold skip
  cases h : accept words ts with
  | none => exact List.suffix_rfl
  | some rest => exact suffix_of_accept h

theorem suffix_of_acceptFirst {options : List (List String)} {words : List String}
    (h : acceptFirst options ts = some (words, rest)) : words ∈ options ∧ rest <:+ ts := by
  induction options with
  | nil => cases h
  | cons o options ih =>
    rw [acceptFirst] at h
    split at h
    · next ha =>
      cases h
      exact ⟨List.mem_cons_self, suffix_of_accept ha⟩
    · exact ⟨List.mem_cons_of_mem o (ih h).1, (ih h).2⟩

theorem suffix_of_advance (h : advance ts = .ok (t, rest)) : rest <:+ ts := by
  cases ts with
  | nil => cases h
  | cons u ts => cases h; exact List.suffix_cons t rest

theorem suffix_of_expectName {what name : String} (h : expectName what ts = .ok (name, rest)) :
    rest <:+ ts := by
  cases ts with
  | nil => cases h
  | cons t ts =>
    rw [expectName] at h
    split at h
    · cases h; exact List.suffix_cons t rest
    · cases h

theorem suffix_of_nameParts {what : String} {parts : List String}
    (h : nameParts what ts = .ok (parts, rest)) : rest <:+ ts := by
  fun_induction nameParts what ts generalizing parts with
  | case1 => cases h
  | case2 t _ dot ts' _ parts' rest' hr ih =>
    cases h
    exact (ih hr).trans ((List.suffix_cons dot ts').trans (List.suffix_cons t _))
  | case3 => cases h
  | case4 t => cases h; exact List.suffix_cons t _
  | case5 t => cases h; exact List.suffix_cons t _
  | case6 => cases h

theorem suffix_of_qualifiedName {what : String} {name : Option String × String}
    (h : qualifiedName what ts = .ok (name, rest)) : rest <:+ ts := by
  unfold qualifiedName at h
  split at h
  · next hn => cases h; exact suffix_of_nameParts hn
  · cases h

/-! ## Groups -/

theorem of_closeGroup (h : closeGroup d ts = some (inside, rest)) :
    (∃ c : Token, c.isPunct ')' = true ∧ ts = inside ++ c :: rest) ∧
      level never d inside = some 0 := by
  induction ts generalizing d inside with
  | nil => cases h
  | cons t ts ih =>
    rw [closeGroup] at h
    split at h
    · next hc =>
      simp only [Bool.and_eq_true, beq_iff_eq] at hc
      cases h
      exact ⟨⟨t, hc.1, rfl⟩, by rw [hc.2]; rfl⟩
    · next hc =>
      obtain ⟨⟨i, r⟩, hr, he⟩ := Option.map_eq_some_iff.1 h
      cases he
      obtain ⟨⟨c, hcp, rfl⟩, hlevel⟩ := ih hr
      refine ⟨⟨c, hcp, rfl⟩, ?_⟩
      by_cases ho : t.isPunct '(' = true
      · rw [if_pos ho] at hlevel
        rw [level_open ho, hlevel]
      · rw [if_neg ho] at hlevel
        rw [Bool.not_eq_true] at ho
        by_cases hp : t.isPunct ')' = true
        · rw [if_pos hp] at hlevel
          have hd : 0 < d := by
            simp only [hp, Bool.true_and, beq_iff_eq] at hc
            omega
          rw [level_close ho hp hd, hlevel]
        · rw [if_neg hp] at hlevel
          rw [Bool.not_eq_true] at hp
          rw [level_other ho hp fun _ => rfl, hlevel]

/-- A group stands between its parentheses and is balanced. -/
theorem of_group (h : group ts = .ok (inside, rest)) : inside <:+: ts ∧ rest <:+ ts ∧
    Enclosed never inside := by
  unfold group at h
  split at h
  · cases h
  · next t ts =>
    split at h
    · split at h
      · next hc =>
        cases h
        obtain ⟨⟨c, -, rfl⟩, hlevel⟩ := of_closeGroup hc
        refine ⟨⟨[t], c :: rest, by simp⟩, ⟨t :: (inside ++ [c]), by simp⟩, hlevel⟩
      · cases h
    · cases h

/-! ## Elements -/

/-- An element is one token that opens no group, or a whole group. -/
theorem of_skipElement (h : skipElement ts = .ok rest) :
    ∃ element, ts = element ++ rest ∧ element ≠ [] ∧ (∀ more, skipElement (element ++ more) = .ok more) ∧
      ((∃ t : Token, element = [t] ∧ t.isPunct '(' = false) ∨ Enclosed never element) := by
  unfold skipElement at h
  split at h
  · cases h
  · next t ts =>
    split at h
    · next ho =>
      split at h
      · next inside last hc =>
        cases h
        obtain ⟨⟨c, hcp, rfl⟩, hlevel⟩ := of_closeGroup hc
        refine ⟨t :: (inside ++ [c]), by simp, List.cons_ne_nil _ _, fun more => ?_, .inr ?_⟩
        · have hclose : closeGroup 0 (inside ++ [c] ++ more) = some (inside, more) := by
            rw [List.append_assoc]
            exact closeGroup_enclosed hcp hlevel
          simp only [List.cons_append, skipElement, ho, if_true, hclose]
        · exact Enclosed.group ho hcp hlevel Enclosed.nil
      · cases h
    · next ho =>
      cases h
      rw [Bool.not_eq_true] at ho
      refine ⟨[t], rfl, List.cons_ne_nil _ _, fun more => ?_, .inl ⟨t, rfl, ho⟩⟩
      simp only [List.cons_append, List.nil_append, skipElement, ho, Bool.false_eq_true, if_false]

/-- What is passed over up to a stop does not stop where it is balanced. -/
theorem level_of_spanElementsFrom (h : spanElementsFrom stop d ts = some (front, rest))
    (hl : level never d front = some d') : level stop d front = some d' := by
  induction ts generalizing d front with
  | nil =>
    rw [spanElementsFrom] at h
    split at h
    · cases h; exact hl
    · cases h
  | cons t ts ih =>
    rw [spanElementsFrom] at h
    split at h
    · cases h; exact hl
    · next hs =>
      obtain ⟨⟨f, r⟩, hr, he⟩ := Option.map_eq_some_iff.1 h
      cases he
      obtain ⟨ho, hl⟩ | ⟨ho, hc, hd, hl⟩ | ⟨ho, hc, -, hl⟩ := level_cons hl
      · rw [if_pos ho] at hr
        rw [level_open ho, ih hr hl]
      · simp only [ho, hc, Bool.false_eq_true, if_false, if_true] at hr
        rw [level_close ho hc hd, ih hr hl]
      · simp only [ho, hc, Bool.false_eq_true, if_false] at hr
        rw [level_other ho hc, ih hr hl]
        intro hd
        rw [Bool.eq_false_iff]
        exact fun hst => hs ⟨hd, hst⟩

theorem suffix_of_spanElements (h : spanElements stop ts = .ok (front, rest)) : rest <:+ ts :=
  ⟨front, (eq_append_of_spanElements h).symm⟩

theorem enclosed_of_spanElements (h : spanElements stop ts = .ok (front, rest))
    (hl : Enclosed never front) : Enclosed stop front := by
  unfold spanElements at h
  split at h
  · next hs => cases h; exact level_of_spanElementsFrom hs hl
  · cases h

end Schemata.Cursor
