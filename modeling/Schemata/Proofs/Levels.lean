/-
  Parentheses in token lists.

  * `level stop depth ts` is the number of open parentheses after `ts`, if none closes too early and
    no token outside parentheses satisfies `stop`; `clampedLevel` lets a closing parenthesis too many
    count for nothing;
  * `Enclosed stop ts`: the parentheses of `ts` are balanced, and what satisfies `stop` stands inside;
  * a reader that counts parentheses passes over such tokens: `statementsFrom_append`,
    `itemsFrom_append`, `closeGroup_append`, `spanElementsFrom_append`.
-/
import Schemata.Statement.Cursor

namespace Schemata.Token

variable {stop stop' : Token → Bool} {t : Token} {ts us : List Token} {d d' : Nat}

/-- A mark is no other mark. -/
theorem isPunct_ne {c e : Char} (h : t.isPunct c = true) (hne : c ≠ e) : t.isPunct e = false := by
  simp only [isPunct, Bool.and_eq_true, beq_iff_eq] at h ⊢
  simp [h.2, hne]

/-! ## Levels -/

/-- The number of open parentheses after some tokens; absent if one closes too early or a token
    outside parentheses stops. -/
def level (stop : Token → Bool) (depth : Nat) : List Token → Option Nat
  | [] => some depth
  | t :: ts =>
    if t.isPunct '(' then level stop (depth + 1) ts
    else if t.isPunct ')' then if depth = 0 then none else level stop (depth - 1) ts
    else if depth = 0 ∧ stop t then none
    else level stop depth ts

/-- The number of open parentheses after some tokens, where a closing one too many counts for
    nothing; absent if a token outside parentheses stops. -/
def clampedLevel (stop : Token → Bool) (depth : Nat) : List Token → Option Nat
  | [] => some depth
  | t :: ts =>
    if t.isPunct '(' then clampedLevel stop (depth + 1) ts
    else if t.isPunct ')' then clampedLevel stop (depth - 1) ts
    else if depth = 0 ∧ stop t then none
    else clampedLevel stop depth ts

/-- Nothing stops. -/
def never (_ : Token) : Bool := false

/-- The parentheses are balanced, and no token outside them stops. -/
def Enclosed (stop : Token → Bool) (ts : List Token) : Prop := level stop 0 ts = some 0

instance (stop : Token → Bool) (ts : List Token) : Decidable (Enclosed stop ts) :=
  inferInstanceAs (Decidable (level stop 0 ts = some 0))

theorem level_append :
    level stop d (ts ++ us) = (level stop d ts).bind fun e => level stop e us := by
  induction ts generalizing d with
  | nil => rfl
  | cons t ts ih =>
    simp only [List.cons_append, level, ih]
    split
    · rfl
    · split
      · split <;> rfl
      · split <;> rfl

theorem clampedLevel_append :
    clampedLevel stop d (ts ++ us) =
      (clampedLevel stop d ts).bind fun e => clampedLevel stop e us := by
  induction ts generalizing d with
  | nil => rfl
  | cons t ts ih =>
    simp only [List.cons_append, clampedLevel, ih]
    split
    · rfl
    · split
      · rfl
      · split <;> rfl

/-- What one token does to the level. -/
theorem level_cons (h : level stop d (t :: ts) = some d') :
    (t.isPunct '(' = true ∧ level stop (d + 1) ts = some d') ∨
      (t.isPunct '(' = false ∧ t.isPunct ')' = true ∧ 0 < d ∧ level stop (d - 1) ts = some d') ∨
      (t.isPunct '(' = false ∧ t.isPunct ')' = false ∧ (d = 0 → stop t = false) ∧
        level stop d ts = some d') := by
  rw [level] at h
  cases ho : t.isPunct '(' with
  | true => exact .inl ⟨rfl, by simpa [ho] using h⟩
  | false =>
    cases hc : t.isPunct ')' with
    | true =>
      simp only [ho, hc, Bool.false_eq_true, if_false, if_true] at h
      split at h
      · cases h
      · exact .inr (.inl ⟨rfl, rfl, by omega, h⟩)
    | false =>
      simp only [ho, hc, Bool.false_eq_true, if_false] at h
      split at h
      · cases h
      · next hn =>
        refine .inr (.inr ⟨rfl, rfl, fun hd => ?_, h⟩)
        rw [Bool.eq_false_iff]
        exact fun hs => hn ⟨hd, hs⟩

theorem level_open (ho : t.isPunct '(' = true) :
    level stop d (t :: ts) = level stop (d + 1) ts := by
  rw [level, if_pos ho]

theorem level_close (ho : t.isPunct '(' = false) (hc : t.isPunct ')' = true) (hd : 0 < d) :
    level stop d (t :: ts) = level stop (d - 1) ts := by
  simp only [level, ho, hc, Bool.false_eq_true, if_false, if_true]
  rw [if_neg (by omega)]

theorem level_other (ho : t.isPunct '(' = false) (hc : t.isPunct ')' = false)
    (hs : d = 0 → stop t = false) : level stop d (t :: ts) = level stop d ts := by
  simp only [level, ho, hc, Bool.false_eq_true, if_false]
  rw [if_neg fun h => by rw [hs h.1] at h; cases h.2]

theorem clampedLevel_of_level (h : level stop d ts = some d') :
    clampedLevel stop d ts = some d' := by
  induction ts generalizing d with
  | nil => exact h
  | cons t ts ih =>
    obtain ⟨ho, h⟩ | ⟨ho, hc, -, h⟩ | ⟨ho, hc, hs, h⟩ := level_cons h
    · simpa [clampedLevel, ho] using ih h
    · simpa [clampedLevel, ho, hc] using ih h
    · have : ¬(d = 0 ∧ stop t = true) := fun hd => by rw [hs hd.1] at hd; cases hd.2
      simpa [clampedLevel, ho, hc, this] using ih h

/-- Fewer tokens that stop leave the level as it is. -/
theorem level_mono (hs : ∀ t ∈ ts, stop' t = true → stop t = true)
    (h : level stop d ts = some d') : level stop' d ts = some d' := by
  induction ts generalizing d with
  | nil => exact h
  | cons t ts ih =>
    have hts : ∀ u ∈ ts, stop' u = true → stop u = true :=
      fun u hu => hs u (List.mem_cons_of_mem t hu)
    obtain ⟨ho, h⟩ | ⟨ho, hc, hd, h⟩ | ⟨ho, hc, ht, h⟩ := level_cons h
    · rw [level_open ho]; exact ih hts h
    · rw [level_close ho hc hd]; exact ih hts h
    · rw [level_other ho hc]
      · exact ih hts h
      · intro hd
        rw [Bool.eq_false_iff]
        intro hst
        have := hs t List.mem_cons_self hst
        rw [ht hd] at this
        cases this

/-- Inside more parentheses nothing stops. -/
theorem level_add (k : Nat) (h : level stop d ts = some d') :
    level stop' (d + k + 1) ts = some (d' + k + 1) := by
  induction ts generalizing d with
  | nil => cases h; rfl
  | cons t ts ih =>
    obtain ⟨ho, h⟩ | ⟨ho, hc, hd, h⟩ | ⟨ho, hc, -, h⟩ := level_cons h
    · rw [level_open ho, show d + k + 1 + 1 = d + 1 + k + 1 by omega]
      exact ih h
    · rw [level_close ho hc (by omega), show d + k + 1 - 1 = d - 1 + k + 1 by omega]
      exact ih h
    · rw [level_other ho hc (by omega)]
      exact ih h

namespace Enclosed

theorem nil : Enclosed stop [] := rfl

theorem append (h : Enclosed stop ts) (h' : Enclosed stop us) : Enclosed stop (ts ++ us) := by
  rw [Enclosed, level_append, h]
  exact h'

theorem mono (hs : ∀ t ∈ ts, stop' t = true → stop t = true) (h : Enclosed stop ts) :
    Enclosed stop' ts := level_mono hs h

theorem never (h : Enclosed stop ts) : Enclosed never ts :=
  h.mono fun _ _ hf => by cases hf

/-- Enclosed tokens leave every level as it is. -/
theorem level_eq (h : Enclosed stop ts) (d : Nat) : level stop d ts = some d := by
  cases d with
  | zero => exact h
  | succ d =>
    have hinside : level stop (0 + d + 1) ts = some (0 + d + 1) := level_add d h
    rwa [Nat.zero_add] at hinside

/-- A token that is no parenthesis and does not stop. -/
theorem cons (ho : t.isPunct '(' = false) (hc : t.isPunct ')' = false) (ht : stop t = false)
    (h : Enclosed stop ts) : Enclosed stop (t :: ts) := by
  rw [Enclosed, level_other ho hc fun _ => ht]
  exact h

/-- A group in parentheses. -/
theorem group {o c : Token} (ho : o.isPunct '(' = true) (hc : c.isPunct ')' = true)
    (h : Enclosed stop' ts) (h' : Enclosed stop us) : Enclosed stop (o :: (ts ++ c :: us)) := by
  have hin : level stop 1 ts = some 1 := level_add 0 h
  rw [Enclosed, level_open ho, level_append, hin, Option.bind_some,
    level_close (isPunct_ne hc (by decide)) hc Nat.zero_lt_one]
  exact h'

end Enclosed

/-! ## Readers -/

/-- The tokens put in front of the first piece. -/
def consAll (ts : List Token) (pieces : List (List Token)) : List (List Token) :=
  ts.foldr Text.consFirst pieces

theorem consAll_cons {piece : List Token} {pieces : List (List Token)} :
    consAll ts (piece :: pieces) = (ts ++ piece) :: pieces := Text.foldr_consFirst ts piece pieces

theorem statementsFrom_append (h : clampedLevel (isPunct ';') d ts = some d') :
    statementsFrom d (ts ++ us) = consAll ts (statementsFrom d' us) := by
  induction ts generalizing d with
  | nil => cases h; rfl
  | cons t ts ih =>
    rw [clampedLevel] at h
    rw [List.cons_append, statementsFrom, consAll, List.foldr_cons, ← consAll]
    split at h
    · next ho => rw [if_pos ho, ih h]
    · next ho =>
      rw [if_neg ho]
      split at h
      · next hc => rw [if_pos hc, ih h]
      · next hc =>
        rw [if_neg hc]
        split at h
        · cases h
        · next hs =>
          rw [if_neg (by simpa [and_comm] using hs), ih h]

theorem itemsFrom_append (us : List Token) {mark : Char} (h : level (isPunct mark) d ts = some d') :
    itemsFrom mark d (ts ++ us) = consAll ts (itemsFrom mark d' us) := by
  induction ts generalizing d with
  | nil => cases h; rfl
  | cons t ts ih =>
    rw [List.cons_append, itemsFrom, consAll, List.foldr_cons, ← consAll]
    obtain ⟨ho, h⟩ | ⟨ho, hc, hd, h⟩ | ⟨ho, hc, hs, h⟩ := level_cons h
    · rw [if_pos ho, ← ih h, Int.natCast_add, Int.natCast_one]
    · rw [if_neg (by simp [ho]), if_pos hc, ← ih h, show ((d - 1 : Nat) : Int) = d - 1 by omega]
    · have : ¬((isPunct mark t && ((d : Int) == 0)) = true) := by
        simp only [Bool.and_eq_true, beq_iff_eq]
        intro hm
        rw [hs (by omega)] at hm
        cases hm.1
      rw [if_neg (by simp [ho]), if_neg (by simp [hc]), if_neg this, ih h]

end Schemata.Token

namespace Schemata.Cursor

open Token

variable {stop : Token → Bool} {t : Token} {ts us : List Token} {d d' : Nat}

theorem closeGroup_append (h : level never d ts = some d') :
    closeGroup d (ts ++ us) = (closeGroup d' us).map fun r => (ts ++ r.1, r.2) := by
  induction ts generalizing d with
  | nil => cases h; simp
  | cons t ts ih =>
    rw [List.cons_append, closeGroup]
    obtain ⟨ho, h⟩ | ⟨ho, hc, hd, h⟩ | ⟨ho, hc, -, h⟩ := level_cons h
    · simp [isPunct_ne ho, ho, ih h, Function.comp_def]
    · simp [hc, ho, show d ≠ 0 by omega, ih h, Function.comp_def]
    · simp [hc, ho, ih h, Function.comp_def]

/-- The group of enclosed tokens ends at the parenthesis after them. -/
theorem closeGroup_enclosed {c : Token} (hc : c.isPunct ')' = true) (h : Enclosed never ts) :
    closeGroup 0 (ts ++ c :: us) = some (ts, us) := by
  rw [closeGroup_append h, closeGroup, if_pos (by simp [hc])]
  simp

theorem group_enclosed (us : List Token) {o c : Token} (ho : o.isPunct '(' = true) (hc : c.isPunct ')' = true)
    (h : Enclosed never ts) : group (o :: (ts ++ c :: us)) = .ok (ts, us) := by
  simp only [group, ho, if_true, closeGroup_enclosed hc h]

theorem spanElementsFrom_append (hs : ∀ t, stop t = true → t.kind ≠ .punct)
    (h : level stop d ts = some d') :
    spanElementsFrom stop d (ts ++ us) =
      (spanElementsFrom stop d' us).map fun r => (ts ++ r.1, r.2) := by
  have hp : ∀ {t : Token} {c : Char}, t.isPunct c = true → stop t = false := by
    intro t c ht
    simp only [isPunct, Bool.and_eq_true, beq_iff_eq] at ht
    rw [Bool.eq_false_iff]
    exact fun hst => hs t hst ht.1
  induction ts generalizing d with
  | nil => cases h; simp
  | cons t ts ih =>
    rw [List.cons_append, spanElementsFrom]
    obtain ⟨ho, h⟩ | ⟨ho, hc, hd, h⟩ | ⟨ho, hc, ht, h⟩ := level_cons h
    · simp [hp ho, ho, ih h, Function.comp_def]
    · simp [hp hc, hc, ho, ih h, Function.comp_def]
    · have : ¬(d = 0 ∧ stop t = true) := fun hd => by rw [ht hd.1] at hd; cases hd.2
      simp [this, hc, ho, ih h, Function.comp_def]

end Schemata.Cursor
