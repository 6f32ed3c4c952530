/-
  Type texts without blanks around punctuation.

  * the passes only take blanks away (`thinned_tightenBefore`, `thinned_tightenAfter`,
    `thinned_tightenBrackets`), and a text that one pass leaves alone is still left alone by it after
    blanks were taken away elsewhere;
  * so the text after all passes is `Tight` (`tight_tightenAll`), and the passes leave just the tight
    texts alone (`tightenAll_eq_self_iff`);
  * `tightenAll_append`: what opens with a bracket does not change what stands before it.
-/
import Mathlib.Data.List.Basic
import Mathlib.Data.List.TakeWhile
import Schemata.Proofs.Squeezing
import Schemata.TypeText

namespace Schemata.TypeText

open Text

variable {p : Char → Bool} {c : Char} {cs ds : List Char} {after : Bool}

/-! ## Blanks before marks -/

theorem leadsTo_cons : leadsTo p (c :: cs) = if isBlank c then leadsTo p cs else p c := by
  unfold leadsTo
  cases hc : isBlank c <;> simp [hc]

theorem leadsTo_thinned (h : Thinned cs ds) : leadsTo p ds = leadsTo p cs := by
  induction h with
  | nil => rfl
  | keep c h ih => rw [leadsTo_cons, leadsTo_cons, ih]
  | drop hc h ih => rw [leadsTo_cons, if_pos hc, ih]

theorem thinned_tightenBefore (p : Char → Bool) (cs : List Char) :
    Thinned cs (tightenBefore p cs) := by
  induction cs with
  | nil => exact .nil
  | cons c cs ih =>
    rw [tightenBefore]
    split
    · next h => exact .drop (Bool.and_eq_true _ _ ▸ h).1 ih
    · exact .keep c ih

theorem tightenBefore_cons_eq_self : tightenBefore p (c :: cs) = c :: cs ↔
    (isBlank c && leadsTo p cs) = false ∧ tightenBefore p cs = cs := by
  rw [tightenBefore]
  split
  · next h =>
    have hlen := (thinned_tightenBefore p cs).sublist.length_le
    refine iff_of_false (fun he => ?_) fun hfalse => Bool.false_ne_true (hfalse.1.symm.trans h)
    rw [he, List.length_cons] at hlen
    omega
  · next h => simpa using fun _ => h

/-- A text without blanks before marks stays so without some of its blanks. -/
theorem tightenBefore_thinned (h : Thinned cs ds) (hcs : tightenBefore p cs = cs) :
    tightenBefore p ds = ds := by
  induction h with
  | nil => rfl
  | keep c h ih =>
    rw [tightenBefore_cons_eq_self] at hcs ⊢
    rw [leadsTo_thinned h]
    exact ⟨hcs.1, ih hcs.2⟩
  | drop hc h ih => exact ih (tightenBefore_cons_eq_self.1 hcs).2

theorem leadsTo_append (h : leadsTo p cs = true) (ds : List Char) : leadsTo p (cs ++ ds) = true := by
  induction cs with
  | nil => cases h
  | cons c cs ih =>
    rw [leadsTo_cons] at h
    rw [List.cons_append, leadsTo_cons]
    split at h
    · next hc => rw [if_pos hc, ih h]
    · next hc => rw [if_neg hc, h]

theorem tightenBefore_left (h : tightenBefore p (cs ++ ds) = cs ++ ds) : tightenBefore p cs = cs := by
  induction cs with
  | nil => rfl
  | cons c cs ih =>
    rw [List.cons_append, tightenBefore_cons_eq_self] at h
    refine tightenBefore_cons_eq_self.2 ⟨?_, ih h.2⟩
    cases hlead : leadsTo p cs with
    | false => exact Bool.and_false _
    | true => exact leadsTo_append hlead ds ▸ h.1

theorem tightenBefore_right (h : tightenBefore p (cs ++ ds) = cs ++ ds) : tightenBefore p ds = ds := by
  induction cs with
  | nil => exact h
  | cons c cs ih => exact ih (tightenBefore_cons_eq_self.1 h).2

theorem tightenBefore_of_none (h : ∀ c ∈ cs, p c = false) : tightenBefore p cs = cs := by
  induction cs with
  | nil => rfl
  | cons c cs ih =>
    have hcs : ∀ d ∈ cs, p d = false := fun d hd => h d (List.mem_cons_of_mem c hd)
    have hlead : leadsTo p cs = false := by
      rw [leadsTo]
      cases hhead : (cs.dropWhile isBlank).head? with
      | none => rfl
      | some d => exact hcs d ((List.dropWhile_sublist _).subset (List.mem_of_head? hhead))
    exact tightenBefore_cons_eq_self.2 ⟨by rw [hlead, Bool.and_false], ih hcs⟩

theorem tightenBefore_tightenBefore (p : Char → Bool) (cs : List Char) :
    tightenBefore p (tightenBefore p cs) = tightenBefore p cs := by
  induction cs with
  | nil => rfl
  | cons c cs ih =>
    rw [tightenBefore]
    split
    · exact ih
    · next h =>
      rw [tightenBefore_cons_eq_self, leadsTo_thinned (thinned_tightenBefore p cs)]
      exact ⟨by simpa using h, ih⟩

/-! ## Blanks after marks -/

theorem thinned_tightenAfter (p : Char → Bool) (after : Bool) (cs : List Char) :
    Thinned cs (tightenAfter p after cs) := by
  induction cs generalizing after with
  | nil => exact .nil
  | cons c cs ih =>
    rw [tightenAfter]
    split
    · next h => exact .drop (Bool.and_eq_true _ _ ▸ h).2 (ih true)
    · exact .keep c (ih (p c))

theorem tightenAfter_cons_eq_self : tightenAfter p after (c :: cs) = c :: cs ↔
    (after && isBlank c) = false ∧ tightenAfter p (p c) cs = cs := by
  rw [tightenAfter]
  split
  · next h =>
    have hlen := (thinned_tightenAfter p true cs).sublist.length_le
    refine iff_of_false (fun he => ?_) fun hfalse => Bool.false_ne_true (hfalse.1.symm.trans h)
    rw [he, List.length_cons] at hlen
    omega
  · next h => simpa using fun _ => h

/-- A text without blanks after marks stays so without some of its blanks. -/
theorem tightenAfter_thinned (hp : ∀ c, p c = true → isBlank c = false) (h : Thinned cs ds)
    (hcs : tightenAfter p after cs = cs) : tightenAfter p after ds = ds := by
  induction h generalizing after with
  | nil => rfl
  | keep c h ih =>
    rw [tightenAfter_cons_eq_self] at hcs ⊢
    exact ⟨hcs.1, ih hcs.2⟩
  | @drop c cs ds hc h ih =>
    rw [tightenAfter_cons_eq_self, hc, Bool.and_true] at hcs
    have hpc : p c = false := by
      cases hpc : p c with
      | false => rfl
      | true =>
        rw [hp c hpc] at hc
        cases hc
    rw [hpc] at hcs
    rw [hcs.1]
    exact ih hcs.2

theorem tightenAfter_left (h : tightenAfter p after (cs ++ ds) = cs ++ ds) :
    tightenAfter p after cs = cs := by
  induction cs generalizing after with
  | nil => rfl
  | cons c cs ih =>
    rw [List.cons_append, tightenAfter_cons_eq_self] at h
    exact tightenAfter_cons_eq_self.2 ⟨h.1, ih h.2⟩

theorem tightenAfter_right (h : tightenAfter p after (cs ++ ds) = cs ++ ds) :
    tightenAfter p false ds = ds := by
  induction cs generalizing after with
  | nil =>
    cases ds with
    | nil => rfl
    | cons d ds => exact tightenAfter_cons_eq_self.2 ⟨rfl, (tightenAfter_cons_eq_self.1 h).2⟩
  | cons c cs ih => exact ih (tightenAfter_cons_eq_self.1 h).2

theorem tightenAfter_of_none (h : ∀ c ∈ cs, p c = false) : tightenAfter p false cs = cs := by
  induction cs with
  | nil => rfl
  | cons c cs ih =>
    rw [tightenAfter_cons_eq_self, h c List.mem_cons_self]
    exact ⟨rfl, ih fun d hd => h d (List.mem_cons_of_mem c hd)⟩

theorem tightenAfter_tightenAfter (p : Char → Bool) (after : Bool) (cs : List Char) :
    tightenAfter p after (tightenAfter p after cs) = tightenAfter p after cs := by
  induction cs generalizing after with
  | nil => rfl
  | cons c cs ih =>
    rw [tightenAfter]
    split
    · next h =>
      obtain rfl : after = true := (Bool.and_eq_true _ _ ▸ h).1
      exact ih true
    · next h => exact tightenAfter_cons_eq_self.2 ⟨by simpa using h, ih (p c)⟩

/-! ## Brackets -/

/-- The text between the brackets of an array: digits with blanks around them. -/
def Interior (cs : List Char) : Prop :=
  ((cs.dropWhile isBlank).dropWhile isDigit).dropWhile isBlank = []

/-- The digits between the brackets of an array. -/
def digits (cs : List Char) : List Char := (cs.dropWhile isBlank).takeWhile isDigit

theorem Interior.mem (h : Interior cs) (hc : c ∈ cs) : isBlank c = true ∨ isDigit c = true := by
  rw [← List.takeWhile_append_dropWhile (p := isBlank) (l := cs), List.mem_append] at hc
  rcases hc with hc | hc
  · exact .inl (List.mem_takeWhile_imp hc)
  rw [← List.takeWhile_append_dropWhile (p := isDigit) (l := cs.dropWhile isBlank),
    List.mem_append] at hc
  rcases hc with hc | hc
  · exact .inr (List.mem_takeWhile_imp hc)
  · exact .inl (List.dropWhile_eq_nil_iff.1 h c hc)

theorem Interior.thinned (h : Interior cs) : Thinned cs (digits cs) := by
  have hfront : Thinned (cs.takeWhile isBlank) [] := .of_blank fun c hc => List.mem_takeWhile_imp hc
  have hback : Thinned ((cs.dropWhile isBlank).dropWhile isDigit) [] :=
    .of_blank (List.dropWhile_eq_nil_iff.1 h)
  have hall := hfront.append ((Thinned.refl (digits cs)).append hback)
  rwa [List.append_nil, List.nil_append, digits, List.takeWhile_append_dropWhile,
    List.takeWhile_append_dropWhile] at hall

theorem dropWhile_append_cons {q : Char → Bool} {d : Char} (hd : q d = false) (cs ds : List Char) :
    (cs ++ d :: ds).dropWhile q = cs.dropWhile q ++ d :: ds := by
  induction cs with
  | nil => simp [hd]
  | cons c cs ih =>
    rw [List.cons_append, List.dropWhile_cons, List.dropWhile_cons, ih]
    split <;> rfl

theorem takeWhile_append_cons {q : Char → Bool} {d : Char} (hd : q d = false) (cs ds : List Char) :
    (cs ++ d :: ds).takeWhile q = cs.takeWhile q := by
  induction cs with
  | nil => simp [hd]
  | cons c cs ih => rw [List.cons_append, List.takeWhile_cons, List.takeWhile_cons, ih]

/-- What stands before the first occurrence of a character is determined. -/
theorem eq_of_append_cons {es : List Char} (hcs : c ∉ cs) (hds : c ∉ ds) {es' : List Char}
    (h : cs ++ c :: es = ds ++ c :: es') : cs = ds := by
  have hfront {cs es : List Char} (hc : c ∉ cs) : (cs ++ c :: es).takeWhile (· != c) = cs := by
    rw [takeWhile_append_cons (by simp), List.takeWhile_eq_self_iff]
    intro d hd
    exact bne_iff_ne.2 fun he => hc (he ▸ hd)
  rw [← hfront hcs, h, hfront hds]

theorem dropWhile_interior (cs ds : List Char) :
    (((cs ++ ']' :: ds).dropWhile isBlank).dropWhile isDigit).dropWhile isBlank =
      ((cs.dropWhile isBlank).dropWhile isDigit).dropWhile isBlank ++ ']' :: ds := by
  rw [dropWhile_append_cons (by decide), dropWhile_append_cons (by decide),
    dropWhile_append_cons (by decide)]

/-- Brackets are found just where they open, with nothing but digits and blanks between them. -/
theorem afterLooseBrackets?_eq_some_iff {found rest : List Char} :
    afterLooseBrackets? cs = some (found, rest) ↔
      ∃ inner, cs = '[' :: (inner ++ ']' :: rest) ∧ Interior inner ∧ found = digits inner := by
  constructor
  · intro h
    unfold afterLooseBrackets? at h
    split at h
    · next more =>
      simp only at h
      split at h
      · next rest' hrest =>
        cases h
        have hsuffix : ']' :: rest <:+ more := by
          rw [← hrest]
          exact (List.dropWhile_suffix _).trans
            ((List.dropWhile_suffix _).trans (List.dropWhile_suffix _))
        obtain ⟨inner, rfl⟩ := hsuffix
        rw [dropWhile_interior] at hrest
        refine ⟨inner, rfl, List.append_left_eq_self.1 hrest, ?_⟩
        rw [dropWhile_append_cons (by decide), takeWhile_append_cons (by decide)]
        rfl
      · cases h
    · cases h
  · rintro ⟨inner, rfl, hinner, rfl⟩
    simp only [afterLooseBrackets?]
    rw [dropWhile_interior, hinner, dropWhile_append_cons (by decide),
      takeWhile_append_cons (by decide)]
    rfl

theorem tightenBrackets_drop (skip : Nat) (cs : List Char) :
    tightenBrackets skip cs = tightenBrackets 0 (cs.drop skip) := by
  induction cs generalizing skip with
  | nil => cases skip <;> rfl
  | cons c cs ih =>
    cases skip with
    | zero => rfl
    | succ skip => exact ih skip

theorem tightenBrackets_none (h : afterLooseBrackets? (c :: cs) = none) :
    tightenBrackets 0 (c :: cs) = c :: tightenBrackets 0 cs := by
  rw [tightenBrackets, h]

theorem tightenBrackets_some {inner rest : List Char} (h : Interior inner) :
    tightenBrackets 0 ('[' :: (inner ++ ']' :: rest)) =
      '[' :: (digits inner ++ ']' :: tightenBrackets 0 rest) := by
  have hfound : afterLooseBrackets? ('[' :: (inner ++ ']' :: rest)) = some (digits inner, rest) :=
    afterLooseBrackets?_eq_some_iff.2 ⟨inner, rfl, h, rfl⟩
  have hskip : (inner ++ ']' :: rest).length - rest.length = (inner ++ [']']).length := by
    simp only [List.length_append, List.length_cons, List.length_nil]
    omega
  have hdrop : (inner ++ ']' :: rest).drop (inner ++ [']']).length = rest := by
    rw [List.append_cons inner ']' rest, List.drop_left]
  rw [tightenBrackets, hfound]
  simp only
  rw [hskip, tightenBrackets_drop, hdrop]

/-- A text starts with brackets, or its first character is kept. -/
theorem brackets_cases (c : Char) (cs : List Char) :
    (∃ inner rest, c :: cs = '[' :: (inner ++ ']' :: rest) ∧ Interior inner) ∨
      afterLooseBrackets? (c :: cs) = none := by
  cases h : afterLooseBrackets? (c :: cs) with
  | none => exact .inr rfl
  | some found =>
    obtain ⟨inner, hcs, hinner, -⟩ := afterLooseBrackets?_eq_some_iff.1 h
    exact .inl ⟨inner, _, hcs, hinner⟩

/-- What holds of a text without brackets at its start if it holds of the rest, and of one with brackets
    if it holds of what follows them, holds of every text. -/
theorem brackets_induction {P : List Char → Prop} (nil : P [])
    (keep : ∀ c cs, afterLooseBrackets? (c :: cs) = none → P cs → P (c :: cs))
    (brackets : ∀ inner rest, Interior inner → P rest → P ('[' :: (inner ++ ']' :: rest)))
    (cs : List Char) : P cs := by
  cases cs with
  | nil => exact nil
  | cons c cs =>
    obtain ⟨inner, rest, hcs, hinner⟩ | hnone := brackets_cases c cs
    · rw [hcs]
      exact brackets inner rest hinner (brackets_induction nil keep brackets rest)
    · exact keep c cs hnone (brackets_induction nil keep brackets cs)
termination_by cs.length
decreasing_by
  · have := congrArg List.length hcs
    simp only [List.length_cons, List.length_append] at this
    simp_wf
    omega
  · simp_wf

theorem thinned_tightenBrackets (cs : List Char) : Thinned cs (tightenBrackets 0 cs) := by
  induction cs using brackets_induction with
  | nil => exact .nil
  | keep c cs hnone ih =>
    rw [tightenBrackets_none hnone]
    exact .keep c ih
  | brackets inner rest hinner ih =>
    rw [tightenBrackets_some hinner]
    exact .keep '[' (hinner.thinned.append (.keep ']' ih))

/-- The brackets of arrays hold nothing but digits. -/
def BracketsTight : List Char → Prop
  | [] => True
  | c :: cs => (∀ inner rest, c :: cs = '[' :: (inner ++ ']' :: rest) → Interior inner →
      digits inner = inner) ∧ BracketsTight cs

theorem BracketsTight.left (h : BracketsTight (cs ++ ds)) : BracketsTight cs := by
  induction cs with
  | nil => trivial
  | cons c cs ih =>
    refine ⟨fun inner rest hcs => h.1 inner (rest ++ ds) ?_, ih h.2⟩
    simpa using congrArg (· ++ ds) hcs

theorem BracketsTight.right (h : BracketsTight (cs ++ ds)) : BracketsTight ds := by
  induction cs with
  | nil => exact h
  | cons c cs ih => exact ih h.2

theorem BracketsTight.append_of_notMem (hcs : '[' ∉ cs) (h : BracketsTight ds) :
    BracketsTight (cs ++ ds) := by
  induction cs with
  | nil => exact h
  | cons c cs ih =>
    rw [List.mem_cons, not_or] at hcs
    exact ⟨fun _ _ heq => absurd (List.cons.inj heq).1.symm hcs.1, ih hcs.2⟩

theorem tightenBrackets_of_tight (h : BracketsTight cs) : tightenBrackets 0 cs = cs := by
  induction cs using brackets_induction with
  | nil => rfl
  | keep c cs hnone ih => rw [tightenBrackets_none hnone, ih h.2]
  | brackets inner rest hinner ih =>
    have hrest : BracketsTight rest := by
      have h := h.2
      rw [List.append_cons] at h
      exact h.right
    rw [tightenBrackets_some hinner, ih hrest, h.1 inner rest rfl hinner]

theorem digits_digits (cs : List Char) : digits (digits cs) = digits cs := by
  unfold digits
  cases hcs : cs.dropWhile isBlank with
  | nil => rfl
  | cons c cs' =>
    have hc : isBlank c = false := by
      have := List.head?_dropWhile_not isBlank cs
      rw [hcs] at this
      simpa using this
    cases hd : isDigit c with
    | false => simp [hd]
    | true => simp [hd, hc, List.takeWhile_takeWhile]

theorem not_mem_digits (cs : List Char) (hc : isDigit c = false) : c ∉ digits cs := fun h =>
  Bool.false_ne_true (hc.symm.trans (List.mem_takeWhile_imp h))

theorem Interior.not_mem (h : Interior cs) : ']' ∉ cs := fun hm =>
  (h.mem hm).elim (by decide) (by decide)

/-- Blanks and digits before a closing bracket that the pass leaves were there before. -/
theorem tightenBrackets_spares {inner rest : List Char}
    (hinner : ∀ c ∈ inner, isBlank c = true ∨ isDigit c = true)
    (h : tightenBrackets 0 cs = inner ++ ']' :: rest) : ∃ rest', cs = inner ++ ']' :: rest' := by
  induction inner generalizing cs with
  | nil =>
    cases cs with
    | nil => cases h
    | cons c cs =>
      obtain ⟨inner', rest', hcs, hinner'⟩ | hnone := brackets_cases c cs
      · rw [hcs, tightenBrackets_some hinner'] at h
        cases h
      · rw [tightenBrackets_none hnone] at h
        obtain ⟨rfl, -⟩ := List.cons.inj h
        exact ⟨cs, rfl⟩
  | cons d inner ih =>
    cases cs with
    | nil => cases h
    | cons c cs =>
      obtain ⟨inner', rest', hcs, hinner'⟩ | hnone := brackets_cases c cs
      · rw [hcs, tightenBrackets_some hinner'] at h
        obtain ⟨rfl, -⟩ := List.cons.inj h
        exact absurd (hinner '[' List.mem_cons_self) (by decide)
      · rw [tightenBrackets_none hnone] at h
        obtain ⟨rfl, htail⟩ := List.cons.inj h
        obtain ⟨rest', rfl⟩ := ih (fun e he => hinner e (List.mem_cons_of_mem c he)) htail
        exact ⟨rest', rfl⟩

theorem bracketsTight_tightenBrackets (cs : List Char) : BracketsTight (tightenBrackets 0 cs) := by
  induction cs using brackets_induction with
  | nil => trivial
  | keep c cs hnone ih =>
    rw [tightenBrackets_none hnone]
    refine ⟨fun inner rest hcs hinner => ?_, ih⟩
    obtain ⟨rfl, htail⟩ := List.cons.inj hcs
    obtain ⟨rest', rfl⟩ := tightenBrackets_spares (fun c => hinner.mem) htail
    rw [afterLooseBrackets?_eq_some_iff.2 ⟨inner, rfl, hinner, rfl⟩] at hnone
    cases hnone
  | brackets inner rest hinner ih =>
    rw [tightenBrackets_some hinner]
    refine ⟨fun inner' rest' hcs hinner' => ?_, ?_⟩
    · obtain ⟨-, htail⟩ := List.cons.inj hcs
      obtain rfl := eq_of_append_cons (not_mem_digits inner (by decide)) hinner'.not_mem htail
      exact digits_digits inner
    · rw [List.append_cons]
      refine ih.append_of_notMem fun hm => ?_
      rcases List.mem_append.1 hm with hm | hm
      · exact not_mem_digits inner (by decide) hm
      · cases List.mem_singleton.1 hm

/-! ### Other passes -/

/-- A class of marks other than those that make up the brackets of an array. -/
def Apart (p : Char → Bool) : Prop :=
  ∀ c, p c = true → isBlank c = false ∧ isDigit c = false ∧ c ≠ '[' ∧ c ≠ ']'

theorem Apart.eq_false (hp : Apart p) (hc : isBlank c = true ∨ isDigit c = true ∨ c = '[' ∨ c = ']') :
    p c = false := by
  cases hpc : p c with
  | false => rfl
  | true =>
    obtain ⟨hblank, hdigit, hopen, hclose⟩ := hp c hpc
    simp [hblank, hdigit, hopen, hclose] at hc

theorem leadsTo_interior (hp : Apart p) {inner rest : List Char}
    (hinner : ∀ c ∈ inner, isBlank c = true ∨ isDigit c = true) :
    leadsTo p (inner ++ ']' :: rest) = false := by
  induction inner with
  | nil =>
    rw [List.nil_append, leadsTo_cons, if_neg (by decide)]
    exact hp.eq_false (.inr (.inr (.inr rfl)))
  | cons c inner ih =>
    rw [List.cons_append, leadsTo_cons]
    split
    · exact ih fun d hd => hinner d (List.mem_cons_of_mem c hd)
    · exact hp.eq_false ((hinner c List.mem_cons_self).imp_right .inl)

theorem tightenBefore_spares (hp : Apart p) {inner rest : List Char}
    (hinner : ∀ c ∈ inner, isBlank c = true ∨ isDigit c = true)
    (h : tightenBefore p cs = inner ++ ']' :: rest) : ∃ rest', cs = inner ++ ']' :: rest' := by
  induction cs generalizing inner with
  | nil => cases inner <;> cases h
  | cons c cs ih =>
    rw [tightenBefore] at h
    split at h
    · next hdrop =>
      -- a blank is dropped before marks only
      have hlead := leadsTo_thinned (p := p) (thinned_tightenBefore p cs)
      rw [h, leadsTo_interior hp hinner] at hlead
      rw [← hlead, Bool.and_false] at hdrop
      cases hdrop
    · cases inner with
      | nil =>
        obtain ⟨rfl, -⟩ := List.cons.inj h
        exact ⟨cs, rfl⟩
      | cons d inner =>
        obtain ⟨rfl, htail⟩ := List.cons.inj h
        obtain ⟨rest', rfl⟩ := ih (fun e he => hinner e (List.mem_cons_of_mem c he)) htail
        exact ⟨rest', rfl⟩

theorem tightenAfter_spares (hp : Apart p) {inner rest : List Char}
    (hinner : ∀ c ∈ inner, isBlank c = true ∨ isDigit c = true)
    (h : tightenAfter p false cs = inner ++ ']' :: rest) : ∃ rest', cs = inner ++ ']' :: rest' := by
  induction cs generalizing inner with
  | nil => cases inner <;> cases h
  | cons c cs ih =>
    rw [tightenAfter, Bool.false_and, if_neg Bool.false_ne_true] at h
    cases inner with
    | nil =>
      obtain ⟨rfl, -⟩ := List.cons.inj h
      exact ⟨cs, rfl⟩
    | cons d inner =>
      obtain ⟨rfl, htail⟩ := List.cons.inj h
      rw [hp.eq_false ((hinner c List.mem_cons_self).imp_right .inl)] at htail
      obtain ⟨rest', rfl⟩ := ih (fun e he => hinner e (List.mem_cons_of_mem c he)) htail
      exact ⟨rest', rfl⟩

theorem BracketsTight.tightenBefore (hp : Apart p) (h : BracketsTight cs) :
    BracketsTight (tightenBefore p cs) := by
  induction cs with
  | nil => trivial
  | cons c cs ih =>
    rw [TypeText.tightenBefore]
    split
    · exact ih h.2
    · refine ⟨fun inner rest heq hinner => ?_, ih h.2⟩
      obtain ⟨rfl, htail⟩ := List.cons.inj heq
      obtain ⟨rest', rfl⟩ := tightenBefore_spares hp (fun c => hinner.mem) htail
      exact h.1 inner rest' rfl hinner

theorem BracketsTight.tightenAfter (hp : Apart p) (h : BracketsTight cs) (after : Bool) :
    BracketsTight (tightenAfter p after cs) := by
  induction cs generalizing after with
  | nil => trivial
  | cons c cs ih =>
    rw [TypeText.tightenAfter]
    split
    · exact ih h.2 true
    · refine ⟨fun inner rest heq hinner => ?_, ih h.2 (p c)⟩
      obtain ⟨rfl, htail⟩ := List.cons.inj heq
      rw [hp.eq_false (.inr (.inr (.inl rfl)))] at htail
      obtain ⟨rest', rfl⟩ := tightenAfter_spares hp (fun c => hinner.mem) htail
      exact h.1 inner rest' rfl hinner

/-! ## All passes -/

/-- The marks that no blank stands before. -/
def marks : List Char := ['(', ')', ',', '[', '.']

/-- The marks that no blank stands after. -/
def marksBetween : List Char := ['(', ',', '.']

theorem marksBetween_subset : marksBetween ⊆ marks := by
  simp [marksBetween, marks]

/-- A text without blanks around punctuation. -/
structure Tight (cs : List Char) : Prop where
  before : ∀ m ∈ marks, tightenBefore (· == m) cs = cs
  after : ∀ m ∈ marksBetween, tightenAfter (· == m) false cs = cs
  brackets : BracketsTight cs

theorem tightenAll_eq_self (h : Tight cs) : tightenAll cs = cs := by
  have before := h.before
  have after := h.after
  simp only [marks, marksBetween, List.mem_cons, List.not_mem_nil, or_false, forall_eq_or_imp,
    forall_eq] at before after
  simp only [tightenAll, tighten, before, after, tightenBrackets_of_tight h.brackets]

theorem Tight.left (h : Tight (cs ++ ds)) : Tight cs :=
  ⟨fun m hm => tightenBefore_left (h.before m hm), fun m hm => tightenAfter_left (h.after m hm),
    h.brackets.left⟩

theorem Tight.right (h : Tight (cs ++ ds)) : Tight ds :=
  ⟨fun m hm => tightenBefore_right (h.before m hm), fun m hm => tightenAfter_right (h.after m hm),
    h.brackets.right⟩

/-- No blank stands before an opening bracket. -/
theorem Tight.last_not_blank (h : Tight (cs ++ '[' :: ds)) (hc : cs.getLast? = some c) :
    isBlank c = false := by
  obtain ⟨front, rfl⟩ := List.getLast?_eq_some_iff.1 hc
  have hbefore := h.before '[' (by decide)
  rw [List.append_assoc, List.singleton_append] at hbefore
  have hblank := (tightenBefore_cons_eq_self.1 (tightenBefore_right hbefore)).1
  have hlead : leadsTo (· == '[') ('[' :: ds) = true := by
    rw [leadsTo_cons]
    rfl
  rwa [hlead, Bool.and_true] at hblank

theorem thinned_tighten (m : Char) (cs : List Char) : Thinned cs (tighten m cs) :=
  (thinned_tightenBefore _ cs).trans (thinned_tightenAfter _ false _)

theorem thinned_tightenAll (cs : List Char) : Thinned cs (tightenAll cs) :=
  (thinned_tighten '(' cs).trans <| (thinned_tightenBefore (· == ')') _).trans <|
    (thinned_tighten ',' _).trans <| (thinned_tightenBefore (· == '[') _).trans <|
      (thinned_tightenBrackets _).trans (thinned_tighten '.' _)

/-- The text after all passes is tight: what one of them takes away, the later ones do not bring
    back. -/
theorem tight_tightenAll (cs : List Char) : Tight (tightenAll cs) := by
  have hbefore (m : Char) (cs : List Char) : tightenBefore (· == m) (tighten m cs) = tighten m cs :=
    tightenBefore_thinned (thinned_tightenAfter _ false _) (tightenBefore_tightenBefore _ cs)
  have hafter (m : Char) (cs : List Char) : tightenAfter (· == m) false (tighten m cs) = tighten m cs :=
    tightenAfter_tightenAfter _ false _
  have hmark {m : Char} (hm : isBlank m = false) (c : Char) (hc : (c == m) = true) :
      isBlank c = false := by rwa [eq_of_beq hc]
  have hdot : Apart (· == '.') := fun c hc => by
    obtain rfl := eq_of_beq hc
    decide
  let parens := tighten '(' cs
  let closed := tightenBefore (· == ')') parens
  let commas := tighten ',' closed
  let opened := tightenBefore (· == '[') commas
  let brackets := tightenBrackets 0 opened
  have h₅ : Thinned brackets (tightenAll cs) := thinned_tighten '.' brackets
  have h₄ : Thinned opened (tightenAll cs) := (thinned_tightenBrackets opened).trans h₅
  have h₃ : Thinned commas (tightenAll cs) := (thinned_tightenBefore _ commas).trans h₄
  have h₂ : Thinned closed (tightenAll cs) := (thinned_tighten ',' closed).trans h₃
  have h₁ : Thinned parens (tightenAll cs) := (thinned_tightenBefore _ parens).trans h₂
  refine ⟨?_, ?_, ?_⟩
  · simp only [marks, List.forall_mem_cons, List.not_mem_nil, false_implies, implies_true, and_true]
    exact ⟨tightenBefore_thinned h₁ (hbefore '(' cs),
      tightenBefore_thinned h₂ (tightenBefore_tightenBefore _ parens),
      tightenBefore_thinned h₃ (hbefore ',' closed),
      tightenBefore_thinned h₄ (tightenBefore_tightenBefore _ commas), hbefore '.' brackets⟩
  · simp only [marksBetween, List.forall_mem_cons, List.not_mem_nil, false_implies, implies_true,
      and_true]
    exact ⟨tightenAfter_thinned (hmark (by decide)) h₁ (hafter '(' cs),
      tightenAfter_thinned (hmark (by decide)) h₃ (hafter ',' closed), hafter '.' brackets⟩
  · exact ((bracketsTight_tightenBrackets opened).tightenBefore hdot).tightenAfter hdot false

/-- The passes leave just the tight texts alone. -/
theorem tightenAll_eq_self_iff : tightenAll cs = cs ↔ Tight cs :=
  ⟨fun h => h ▸ tight_tightenAll cs, tightenAll_eq_self⟩

/-- A text without punctuation is tight. -/
theorem tight_of_not_mem (h : ∀ m ∈ marks, m ∉ cs) : Tight cs := by
  have hclass {m : Char} (hm : m ∈ marks) : ∀ c ∈ cs, (c == m) = false :=
    fun c hc => beq_eq_false_iff_ne.2 fun he => h m hm (he ▸ hc)
  refine ⟨fun m hm => tightenBefore_of_none (hclass hm), fun m hm => tightenAfter_of_none ?_, ?_⟩
  · exact hclass (marksBetween_subset hm)
  · have hall : BracketsTight (cs ++ []) := BracketsTight.append_of_notMem (h '[' (by decide)) trivial
    rwa [List.append_nil] at hall

/-! ## Parts of a text -/

theorem leadsTo_append_of_last (hne : cs ≠ []) (hlast : ∀ c, cs.getLast? = some c → isBlank c = false)
    (ds : List Char) : leadsTo p (cs ++ ds) = leadsTo p cs := by
  induction cs with
  | nil => exact absurd rfl hne
  | cons c cs ih =>
    rw [List.cons_append, leadsTo_cons, leadsTo_cons]
    cases cs with
    | nil => simp [hlast c rfl]
    | cons d cs =>
      rw [ih (List.cons_ne_nil d cs) fun e he => hlast e (by rwa [List.getLast?_cons_cons])]

theorem tightenBefore_append (hlast : ∀ c, cs.getLast? = some c → isBlank c = false)
    (ds : List Char) : tightenBefore p (cs ++ ds) = tightenBefore p cs ++ tightenBefore p ds := by
  induction cs with
  | nil => rfl
  | cons c cs ih =>
    rw [List.cons_append, tightenBefore, tightenBefore]
    cases cs with
    | nil =>
      rw [hlast c rfl]
      rfl
    | cons d cs =>
      have hlast : ∀ e, (d :: cs).getLast? = some e → isBlank e = false := fun e he =>
        hlast e (by rwa [List.getLast?_cons_cons])
      rw [leadsTo_append_of_last (List.cons_ne_nil d cs) hlast, ih hlast]
      split <;> rfl

theorem tightenAfter_append (hhead : ∀ c, ds.head? = some c → isBlank c = false)
    (after : Bool) (cs : List Char) :
    tightenAfter p after (cs ++ ds) = tightenAfter p after cs ++ tightenAfter p false ds := by
  induction cs generalizing after with
  | nil =>
    cases ds with
    | nil => rfl
    | cons d ds => simp [tightenAfter, hhead d rfl]
  | cons c cs ih =>
    rw [List.cons_append, tightenAfter, tightenAfter, ih, ih]
    split <;> rfl

/-- The interior of brackets does not reach into a text that starts with something else. -/
theorem interior_of_append {inner rest : List Char} (hinner : Interior inner)
    (hhead : ∀ c, ds.head? = some c → isBlank c = false ∧ isDigit c = false ∧ c ≠ ']')
    (h : cs ++ ds = inner ++ ']' :: rest) : ∃ rest', cs = inner ++ ']' :: rest' := by
  obtain ⟨front, rfl, hds⟩ | ⟨front, rfl, hds⟩ := List.append_eq_append_iff.1 h
  · cases front with
    | nil => exact absurd rfl (hhead ']' (by rw [hds]; rfl)).2.2
    | cons c front =>
      obtain ⟨hblank, hdigit, -⟩ := hhead c (by rw [hds]; rfl)
      have := hinner.mem (List.mem_append_right cs List.mem_cons_self)
      simp [hblank, hdigit] at this
  · cases front with
    | nil => exact absurd rfl (hhead ']' (by rw [← show ']' :: rest = ds from hds]; rfl)).2.2
    | cons c front =>
      obtain ⟨rfl, -⟩ := List.cons.inj hds
      exact ⟨front, rfl⟩

/-- Brackets do not reach into a text that starts with something else. -/
theorem tightenBrackets_append
    (hhead : ∀ c, ds.head? = some c → isBlank c = false ∧ isDigit c = false ∧ c ≠ ']')
    (cs : List Char) : tightenBrackets 0 (cs ++ ds) = tightenBrackets 0 cs ++ tightenBrackets 0 ds := by
  induction cs using brackets_induction with
  | nil => rfl
  | keep c cs hnone ih =>
    have hnone' : afterLooseBrackets? (c :: (cs ++ ds)) = none := by
      refine Option.eq_none_iff_forall_ne_some.2 fun found hfound => ?_
      obtain ⟨inner, hcs, hinner, -⟩ := afterLooseBrackets?_eq_some_iff.1 hfound
      obtain ⟨rfl, htail⟩ := List.cons.inj hcs
      obtain ⟨rest, rfl⟩ := interior_of_append hinner hhead htail
      rw [afterLooseBrackets?_eq_some_iff.2 ⟨inner, rfl, hinner, rfl⟩] at hnone
      cases hnone
    rw [List.cons_append, tightenBrackets_none hnone', tightenBrackets_none hnone, ih]
    rfl
  | brackets inner rest hinner ih =>
    have hassoc : '[' :: (inner ++ ']' :: rest) ++ ds = '[' :: (inner ++ ']' :: (rest ++ ds)) := by simp
    rw [hassoc, tightenBrackets_some hinner, tightenBrackets_some hinner, ih]
    simp

/-- What opens with a parenthesis or a bracket does not change what stands before it. -/
theorem tightenAll_append (hs : Squeezed false cs) (hds : Tight ds)
    (hhead : ∀ c, ds.head? = some c → c = '(' ∨ c = '[') :
    tightenAll (cs ++ ds) = tightenAll cs ++ ds := by
  have hblank : ∀ c, ds.head? = some c → isBlank c = false ∧ isDigit c = false ∧ c ≠ ']' := by
    intro c hc
    obtain rfl | rfl := hhead c hc <;> decide
  have hbefore {m : Char} {cs : List Char} (hm : m ∈ marks) (hs : Squeezed false cs) :
      tightenBefore (· == m) (cs ++ ds) = tightenBefore (· == m) cs ++ ds := by
    rw [tightenBefore_append fun _ => hs.last_not_blank, hds.before m hm]
  have htighten {m : Char} {cs : List Char} (hm : m ∈ marksBetween) (hs : Squeezed false cs) :
      tighten m (cs ++ ds) = tighten m cs ++ ds := by
    rw [tighten, hbefore (marksBetween_subset hm) hs,
      tightenAfter_append fun c hc => (hblank c hc).1, hds.after m hm]
    rfl
  have h₁ := (thinned_tighten '(' cs).squeezed hs
  have h₂ := (thinned_tightenBefore (· == ')') _).squeezed h₁
  have h₃ := (thinned_tighten ',' _).squeezed h₂
  have h₄ := (thinned_tightenBefore (· == '[') _).squeezed h₃
  have h₅ := (thinned_tightenBrackets _).squeezed h₄
  simp only [tightenAll]
  rw [htighten (by decide) hs, hbefore (by decide) h₁, htighten (by decide) h₂,
    hbefore (by decide) h₃, tightenBrackets_append hblank, tightenBrackets_of_tight hds.brackets,
    htighten (by decide) h₅]

end Schemata.TypeText
