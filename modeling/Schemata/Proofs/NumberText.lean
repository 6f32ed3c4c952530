/-
  Numbers in texts of values.

  * `Ends`: a text that ends a number, being empty or starting with white space or with a mark that
    stands after a value; `number_append`: a number is read the same whatever ends it;
  * `scalar_int`: an integer is read from its digits, unless there are too many of them;
  * `Binary64.reread?` is the number that the text of a number is read as; `scalar_float` and
    `stuck_float`: the text is read as that number, or something is left that ends no value.
-/
import Mathlib.Algebra.Group.Nat.Defs
import Mathlib.Data.List.Basic
import Mathlib.Data.List.TakeDrop
import Mathlib.Data.List.TakeWhile
import Schemata.Json.Reader
import Schemata.Json.Writer
import Schemata.Proofs.Scanning

namespace Schemata

open Text (isAsciiDigit)

/-! ## Digits -/

namespace Number

theorem isAsciiDigit_of_isDigit {c : Char} (h : c.isDigit = true) : isAsciiDigit c = true := by
  simpa [Char.isDigit, isAsciiDigit, UInt32.le_iff_toNat_le] using h

theorem isAsciiDigit_of_mem_toDigits {n : Nat} {c : Char} (h : c ∈ Nat.toDigits 10 n) :
    isAsciiDigit c = true :=
  isAsciiDigit_of_isDigit (Nat.isDigit_of_mem_toDigits (by decide) (by decide) h)

theorem asciiValue_toDigits (n : Nat) : asciiValue (Nat.toDigits 10 n) = n := by
  have h := Nat.ofDigitChars_toDigits (b := 10) (n := n) (by decide) (by decide)
  simp only [Nat.ofDigitChars_eq_foldl, Nat.mul_comm 10] at h
  exact h

/-- Only zero has a text that starts with a zero. -/
theorem toDigits_head (n : Nat) : n = 0 ∨ (Nat.toDigits 10 n).head? ≠ some '0' := by
  induction n using Nat.strongRecOn with
  | ind n ih =>
    rw [Nat.toDigits_eq_if (by decide)]
    split
    · next h =>
      rw [List.head?_cons, ne_eq, Option.some.injEq, Nat.digitChar_eq_zero]
      exact Nat.eq_zero_or_pos n |>.imp_right (by omega)
    · next h =>
      refine .inr ?_
      rw [List.head?_append_of_ne_nil _ Nat.toDigits_ne_nil]
      exact (ih (n / 10) (by omega)).resolve_left (by omega)

end Number

namespace Json

/-! ## Ends of numbers -/

/-- The characters that end a number: white space and the marks after a value. -/
def endings : List Char := [' ', '\t', '\n', '\r', ',', ']', '\x7d']

/-- The text is empty, or its first character ends a number. -/
def Ends (cs : List Char) : Prop := ∀ c, cs.head? = some c → c ∈ endings

/-- The first character of the text ends no number. -/
def Stuck (cs : List Char) : Prop := ∃ c, cs.head? = some c ∧ c ∉ endings

variable {start cs rest : List Char} {negative : Bool}

theorem not_digit_of_mem_endings : ∀ c ∈ endings, isAsciiDigit c = false := by
  simp [endings, isAsciiDigit]

theorem ends_nil : Ends [] := nofun

theorem ends_cons {c : Char} (h : c ∈ endings) : Ends (c :: cs) := by
  rintro _ ⟨⟩
  exact h

theorem Ends.head_ne (h : Ends cs) {c : Char} (hc : c ∉ endings) : cs.head? ≠ some c :=
  fun hhead => hc (h c hhead)

theorem spanDigits_eq (cs : List Char) :
    spanDigits cs = (cs.takeWhile isAsciiDigit, cs.dropWhile isAsciiDigit) :=
  List.span_eq_takeWhile_dropWhile ..

theorem spanDigits_append (h : Ends rest) (cs : List Char) :
    spanDigits (cs ++ rest) = ((spanDigits cs).1, (spanDigits cs).2 ++ rest) := by
  have hspan := Token.takeWhile_append_of_head cs fun c hc => not_digit_of_mem_endings c (h c hc)
  rw [spanDigits_eq, spanDigits_eq, hspan.1, hspan.2]

theorem fraction_of_head_ne (h : cs.head? ≠ some '.') : fraction cs = ([], cs) := by
  unfold fraction
  split
  · exact absurd rfl h
  · rfl

theorem fraction_point (cs : List Char) : fraction ('.' :: cs) =
    if (spanDigits cs).1.isEmpty then ([], '.' :: cs) else spanDigits cs := rfl

theorem fraction_append (h : Ends rest) (cs : List Char) :
    fraction (cs ++ rest) = ((fraction cs).1, (fraction cs).2 ++ rest) := by
  cases cs with
  | nil => exact fraction_of_head_ne (h.head_ne (by decide))
  | cons c cs =>
    by_cases hc : c = '.'
    · subst hc
      rw [List.cons_append, fraction_point, fraction_point, spanDigits_append h]
      split <;> rfl
    · have hne (l : List Char) : (c :: l).head? ≠ some '.' := by simpa using hc
      rw [List.cons_append, fraction_of_head_ne (hne _), fraction_of_head_ne (hne _)]
      rfl

/-- The sign of an exponent, and the rest. -/
def exponentSign (cs : List Char) : Bool × List Char :=
  match cs with
  | '-' :: r => (true, r)
  | '+' :: r => (false, r)
  | r => (false, r)

theorem exponentSign_append (h : Ends rest) (cs : List Char) :
    exponentSign (cs ++ rest) = ((exponentSign cs).1, (exponentSign cs).2 ++ rest) := by
  have hother {l : List Char} (hm : l.head? ≠ some '-') (hp : l.head? ≠ some '+') :
      exponentSign l = (false, l) := by
    unfold exponentSign
    split
    · exact absurd rfl hm
    · exact absurd rfl hp
    · rfl
  cases cs with
  | nil => exact hother (h.head_ne (by decide)) (h.head_ne (by decide))
  | cons c cs =>
    by_cases hm : c = '-'
    · subst hm
      rfl
    by_cases hp : c = '+'
    · subst hp
      rfl
    have hne {d : Char} (hd : c ≠ d) (l : List Char) : (c :: l).head? ≠ some d := by simpa using hd
    rw [List.cons_append, hother (hne hm _) (hne hp _), hother (hne hm _) (hne hp _)]
    rfl

/-- The exponent after its mark. -/
def exponentAfter? (cs : List Char) : Option (Int × List Char) :=
  let digits := spanDigits (exponentSign cs).2
  if digits.1.isEmpty then none
  else
    let n : Int := Number.asciiValue digits.1
    some (if (exponentSign cs).1 then -n else n, digits.2)

theorem exponent?_mark {e : Char} (he : e = 'e' ∨ e = 'E') (cs : List Char) :
    exponent? (e :: cs) = exponentAfter? cs := by
  unfold exponent?
  dsimp only
  rw [if_pos he]
  rfl

theorem exponent?_of_head_ne (he : cs.head? ≠ some 'e') (hE : cs.head? ≠ some 'E') :
    exponent? cs = none := by
  cases cs with
  | nil => rfl
  | cons c cs =>
    unfold exponent?
    refine if_neg ?_
    rintro (rfl | rfl)
    · exact he rfl
    · exact hE rfl

theorem exponent?_append (h : Ends rest) (cs : List Char) :
    exponent? (cs ++ rest) = (exponent? cs).map fun r => (r.1, r.2 ++ rest) := by
  cases cs with
  | nil => exact exponent?_of_head_ne (h.head_ne (by decide)) (h.head_ne (by decide))
  | cons c cs =>
    by_cases hc : c = 'e' ∨ c = 'E'
    · rw [List.cons_append, exponent?_mark hc, exponent?_mark hc, exponentAfter?, exponentAfter?,
        exponentSign_append h, spanDigits_append h]
      dsimp only
      split <;> rfl
    · rw [not_or] at hc
      have hne {d : Char} (hd : c ≠ d) (l : List Char) : (c :: l).head? ≠ some d := by simpa using hd
      rw [List.cons_append, exponent?_of_head_ne (hne hc.1 _) (hne hc.2 _),
        exponent?_of_head_ne (hne hc.1 _) (hne hc.2 _)]
      rfl

/-! ## Numbers -/

/-- The digits before the point, and the rest: a zero stands alone. -/
def wholeDigits (cs : List Char) : List Char × List Char :=
  match cs with
  | '0' :: rest => (['0'], rest)
  | _ => spanDigits cs

theorem wholeDigits_of_head_ne (h : cs.head? ≠ some '0') : wholeDigits cs = spanDigits cs := by
  unfold wholeDigits
  split
  · exact absurd rfl h
  · rfl

theorem wholeDigits_append (h : Ends rest) (cs : List Char) :
    wholeDigits (cs ++ rest) = ((wholeDigits cs).1, (wholeDigits cs).2 ++ rest) := by
  cases cs with
  | nil =>
    rw [List.nil_append, wholeDigits_of_head_ne (h.head_ne (by decide))]
    exact spanDigits_append h []
  | cons c cs =>
    by_cases hc : c = '0'
    · subst hc
      rfl
    · have hne (l : List Char) : (c :: l).head? ≠ some '0' := by simpa using hc
      rw [List.cons_append, wholeDigits_of_head_ne (hne _), wholeDigits_of_head_ne (hne _),
        ← List.cons_append, spanDigits_append h]

/-- A number from the digits before its point, their places after it and what follows. -/
def numberOf (start : List Char) (negative : Bool) (whole places rest : List Char) :
    Except Flawed (Json × List Char) :=
  match exponent? rest with
  | some (e, rest) =>
    .ok (.float (.ofDecimal negative (Number.asciiValue (whole ++ places)) (e - places.length)), rest)
  | none =>
    if places.isEmpty then (wholeNumber start negative whole).map fun v => (v, rest)
    else
      .ok (.float (.ofDecimal negative (Number.asciiValue (whole ++ places)) (-places.length)), rest)

theorem number_eq (start : List Char) (negative : Bool) (cs : List Char) :
    number start negative cs =
      if (wholeDigits cs).1.isEmpty then .error ⟨.noValue, start.length⟩
      else numberOf start negative (wholeDigits cs).1 (fraction (wholeDigits cs).2).1
        (fraction (wholeDigits cs).2).2 := rfl

/-- A number is read the same whatever ends it. -/
theorem number_append (h : Ends rest) (start start' : List Char) (negative : Bool)
    (cs : List Char) : (number start negative (cs ++ rest)).toOption =
      (number start' negative cs).toOption.map fun r => (r.1, r.2 ++ rest) := by
  rw [number_eq, number_eq, wholeDigits_append h, fraction_append h]
  dsimp only
  split
  · rfl
  · unfold numberOf
    rw [exponent?_append h]
    cases exponent? (fraction (wholeDigits cs).2).2 with
    | some e => rfl
    | none =>
      dsimp only [Option.map_none]
      split
      · unfold wholeNumber
        split <;> rfl
      · rfl

/-! ### What is left -/

theorem spanDigits_suffix (cs : List Char) : (spanDigits cs).2 <:+ cs := by
  rw [spanDigits_eq]
  exact List.dropWhile_suffix _

theorem wholeDigits_suffix (cs : List Char) : (wholeDigits cs).2 <:+ cs := by
  unfold wholeDigits
  split
  · exact List.suffix_cons _ _
  · exact spanDigits_suffix cs

theorem fraction_suffix (cs : List Char) : (fraction cs).2 <:+ cs := by
  unfold fraction
  split
  · dsimp only
    split
    · exact List.suffix_rfl
    · exact (spanDigits_suffix _).trans (List.suffix_cons _ _)
  · exact List.suffix_rfl

theorem exponentSign_suffix (cs : List Char) : (exponentSign cs).2 <:+ cs := by
  unfold exponentSign
  split
  · exact List.suffix_cons _ _
  · exact List.suffix_cons _ _
  · exact List.suffix_rfl

theorem exponent?_suffix {e : Int} (h : exponent? cs = some (e, rest)) : rest <:+ cs := by
  cases cs with
  | nil => cases h
  | cons c cs =>
    by_cases hc : c = 'e' ∨ c = 'E'
    · rw [exponent?_mark hc, exponentAfter?] at h
      dsimp only at h
      split at h <;> cases h
      exact ((spanDigits_suffix _).trans (exponentSign_suffix cs)).trans (List.suffix_cons _ _)
    · rw [not_or] at hc
      rw [exponent?_of_head_ne (by simpa using hc.1) (by simpa using hc.2)] at h
      cases h

/-- What a number leaves is an end of the text. -/
theorem number_suffix {v : Json} (h : number start negative cs = .ok (v, rest)) : rest <:+ cs := by
  rw [number_eq] at h
  split at h
  · cases h
  · have hplaces := (fraction_suffix (wholeDigits cs).2).trans (wholeDigits_suffix cs)
    unfold numberOf at h
    split at h
    · next he =>
      cases h
      exact (exponent?_suffix he).trans hplaces
    · split at h
      · unfold wholeNumber at h
        split at h <;> cases h
        exact hplaces
      · cases h
        exact hplaces

/-! ## Integers -/

theorem spanDigits_digits (h : Ends rest) (hd : ∀ c ∈ cs, isAsciiDigit c = true) :
    spanDigits (cs ++ rest) = (cs, rest) := by
  have htake : cs.takeWhile isAsciiDigit = cs := List.takeWhile_eq_self_iff.2 hd
  have hdrop : cs.dropWhile isAsciiDigit = [] := List.dropWhile_eq_nil_iff.2 hd
  rw [spanDigits_append h, spanDigits_eq, htake, hdrop]
  rfl

/-- The digits of a number are read as a whole. -/
theorem number_toDigits (h : Ends rest) (n : Nat) :
    number start negative (Nat.toDigits 10 n ++ rest) =
      (wholeNumber start negative (Nat.toDigits 10 n)).map fun v => (v, rest) := by
  have hdigits : ∀ c ∈ Nat.toDigits 10 n, isAsciiDigit c = true :=
    fun c => Number.isAsciiDigit_of_mem_toDigits
  have hwhole : wholeDigits (Nat.toDigits 10 n ++ rest) = (Nat.toDigits 10 n, rest) := by
    rcases Number.toDigits_head n with rfl | hhead
    · rfl
    · rw [wholeDigits_of_head_ne, spanDigits_digits h hdigits]
      rwa [List.head?_append_of_ne_nil _ Nat.toDigits_ne_nil]
  have hne : (Nat.toDigits 10 n).isEmpty = false :=
    List.isEmpty_eq_false_iff.2 Nat.toDigits_ne_nil
  rw [number_eq, hwhole]
  dsimp only
  rw [hne, fraction_of_head_ne (h.head_ne (by decide)), numberOf,
    exponent?_of_head_ne (h.head_ne (by decide)) (h.head_ne (by decide))]
  rfl

/-- A text that starts with a digit is read as a number. -/
theorem scalar_digit {c : Char} (h : isAsciiDigit c = true) (cs : List Char) :
    scalar (c :: cs) = number (c :: cs) false (c :: cs) := by
  have hne {d : Char} (hd : isAsciiDigit d = false) : c ≠ d := by
    rintro rfl
    rw [h] at hd
    cases hd
  unfold scalar
  split
  case h_8 => rfl
  all_goals
    next heq =>
    rw [List.cons.injEq] at heq
    exact absurd heq.1 (hne (by decide))

/-- So is a text that starts with a minus sign and a digit. -/
theorem scalar_minus {c : Char} (h : isAsciiDigit c = true) (cs : List Char) :
    scalar ('-' :: c :: cs) = number ('-' :: c :: cs) true (c :: cs) := by
  have hne : c ≠ 'I' := by
    rintro rfl
    cases h
  unfold scalar
  split
  case h_7 heq =>
    cases heq
    rfl
  case h_6 heq =>
    simp only [List.cons.injEq] at heq
    exact absurd heq.2.1 hne
  case h_8 heq => exact absurd rfl (heq _)
  all_goals next heq => cases heq

theorem toList_toString (i : Int) :
    (toString i).toList = if i < 0 then '-' :: Nat.toDigits 10 i.natAbs
      else Nat.toDigits 10 i.natAbs := by
  cases i with
  | ofNat n =>
    rw [if_neg (by simp)]
    exact congrArg String.toList Nat.repr_eq_ofList_toDigits |>.trans String.toList_ofList
  | negSucc n =>
    rw [if_pos (Int.negSucc_lt_zero n)]
    have hminus : "-".toList = ['-'] := rfl
    show ("-" ++ Nat.repr (n + 1)).toList = _
    rw [String.toList_append, hminus, Nat.repr_eq_ofList_toDigits, String.toList_ofList]
    rfl

/-- The text of an integer is read as a number of its digits. -/
theorem scalar_toString (h : Ends rest) (i : Int) : ∃ start,
    scalar ((toString i).toList ++ rest) =
      (wholeNumber start (decide (i < 0)) (Nat.toDigits 10 i.natAbs)).map fun v => (v, rest) := by
  obtain ⟨c, cs, hcs⟩ := List.exists_cons_of_ne_nil (Nat.toDigits_ne_nil (b := 10) (n := i.natAbs))
  have hc : isAsciiDigit c = true :=
    Number.isAsciiDigit_of_mem_toDigits (n := i.natAbs) (hcs ▸ List.mem_cons_self)
  rw [toList_toString]
  split
  · next hi =>
    refine ⟨'-' :: Nat.toDigits 10 i.natAbs ++ rest, ?_⟩
    rw [decide_eq_true hi, ← number_toDigits h, hcs]
    exact scalar_minus hc _
  · next hi =>
    refine ⟨Nat.toDigits 10 i.natAbs ++ rest, ?_⟩
    rw [decide_eq_false hi, ← number_toDigits h, hcs]
    exact scalar_digit hc _

/-- Whether an integer has no more digits than are read. -/
def isShort (i : Int) : Bool := decide ((Nat.toDigits 10 i.natAbs).length ≤ Number.maxDigits)

theorem isShort_iff {i : Int} : isShort i = true ↔ i.natAbs < 10 ^ Number.maxDigits := by
  rw [isShort, decide_eq_true_iff, Nat.length_toDigits_le_iff (by decide) (by decide)]

/-- A short integer is read from its text. -/
theorem scalar_int (h : Ends rest) {i : Int} (hi : isShort i = true) :
    scalar ((toString i).toList ++ rest) = .ok (.int i, rest) := by
  obtain ⟨start, hstart⟩ := scalar_toString h i
  have hvalue : Number.signed (decide (i < 0)) i.natAbs = i := by
    unfold Number.signed
    split
    · next hneg =>
      have := of_decide_eq_true hneg
      omega
    · next hneg =>
      have := of_decide_eq_false (Bool.eq_false_iff.2 hneg)
      omega
  rw [hstart, wholeNumber, if_neg (Nat.not_lt.2 (of_decide_eq_true hi)),
    Number.asciiValue_toDigits, hvalue]
  rfl

/-- A long one is an error. -/
theorem scalar_int_long (h : Ends rest) {i : Int} (hi : isShort i = false) :
    ∃ f, scalar ((toString i).toList ++ rest) = .error f := by
  obtain ⟨start, hstart⟩ := scalar_toString h i
  rw [hstart, wholeNumber, if_pos (Nat.not_le.1 (of_decide_eq_false hi))]
  exact ⟨_, rfl⟩

end Json

/-! ## Numbers with a fraction -/

namespace Number.Binary64

/-- The number that is read from the text of a number, if it reads as one. -/
def reread? (x : Binary64) : Option Binary64 :=
  match Json.scalar (x.textWith "Infinity" "NaN").toList with
  | .ok (.float y, []) => some y
  | _ => none

/-- The number as its text is read. -/
def reread (x : Binary64) : Binary64 := x.reread?.getD x

/-- The text starts with a digit, has nothing but digits, points, marks of exponents and signs, and
    is no mere run of digits. -/
structure DecimalText (cs : List Char) : Prop where
  head : ∃ c rest, cs = c :: rest ∧ isAsciiDigit c = true
  chars : ∀ c ∈ cs, isAsciiDigit c = true ∨ c ∈ ['.', 'e', '+', '-']
  mark : ∃ c ∈ cs, isAsciiDigit c = false

theorem isAsciiDigit_of_mem_padded {width n : Nat} {c : Char} (h : c ∈ (padded width n).toList) :
    isAsciiDigit c = true := by
  rw [padded, String.toList_ofList, List.mem_append] at h
  rcases h with h | h
  · rw [List.eq_of_mem_replicate h]
    rfl
  · exact isAsciiDigit_of_mem_toDigits h

theorem exponentText_chars {e : Int} {c : Char} (h : c ∈ (exponentText e).toList) :
    isAsciiDigit c = true ∨ c ∈ ['.', 'e', '+', '-'] := by
  simp only [exponentText, String.toList_append, List.mem_append] at h
  rcases h with (h | h) | h
  · rw [List.mem_singleton.1 h]
    exact .inr (by decide)
  · refine .inr ?_
    split at h <;> rw [List.mem_singleton.1 h] <;> decide
  · exact .inl (isAsciiDigit_of_mem_padded h)

theorem decimalText_point {whole fraction : List Char} (hne : whole ≠ [])
    (hw : ∀ c ∈ whole, isAsciiDigit c = true) (hf : ∀ c ∈ fraction, isAsciiDigit c = true) :
    DecimalText (whole ++ '.' :: fraction) := by
  obtain ⟨c, cs, rfl⟩ := List.exists_cons_of_ne_nil hne
  refine ⟨⟨c, _, rfl, hw c List.mem_cons_self⟩, fun d hd => ?_, '.', by simp, by decide⟩
  rcases List.mem_append.1 hd with hd | hd
  · exact .inl (hw d hd)
  · rcases List.mem_cons.1 hd with rfl | hd
    · exact .inr (by decide)
    · exact .inl (hf d hd)

theorem decimalText_exponent {mantissa : List Char} (e : Int)
    (hhead : ∃ c rest, mantissa = c :: rest ∧ isAsciiDigit c = true)
    (hm : ∀ c ∈ mantissa, isAsciiDigit c = true ∨ c ∈ ['.', 'e', '+', '-']) :
    DecimalText (String.ofList mantissa ++ exponentText e).toList := by
  rw [String.toList_append, String.toList_ofList]
  obtain ⟨c, rest, rfl, hc⟩ := hhead
  refine ⟨⟨c, _, rfl, hc⟩, fun d hd => ?_, 'e', ?_, by decide⟩
  · rcases List.mem_append.1 hd with hd | hd
    · exact hm d hd
    · exact exponentText_chars hd
  · simp [exponentText]

theorem decimalText_layout {cs : List Char} (h : ∀ c ∈ cs, isAsciiDigit c = true) (k : Int) :
    DecimalText (layout cs k).toList := by
  have hzeros (n : Nat) : ∀ c ∈ List.replicate n '0', isAsciiDigit c = true := by
    intro c hc
    rw [List.eq_of_mem_replicate hc]
    rfl
  unfold layout
  split
  · split
    · rw [String.toList_ofList]
      refine decimalText_point (List.cons_ne_nil '0' []) (List.forall_mem_singleton.2 rfl) fun c hc => ?_
      rcases List.mem_append.1 hc with hc | hc
      · exact hzeros _ c hc
      · exact h c hc
    · next hk =>
      dsimp only
      rw [String.toList_ofList]
      refine decimalText_point ?_ (fun c hc => ?_) fun c hc => ?_
      · rw [ne_eq, List.append_eq_nil_iff, List.take_eq_nil_iff, List.replicate_eq_nil_iff]
        rintro ⟨hk' | rfl, hlen⟩
        · omega
        · simp only [List.length_nil] at hlen
          omega
      · rcases List.mem_append.1 hc with hc | hc
        · exact h c (List.mem_of_mem_take hc)
        · exact hzeros _ c hc
      · split at hc
        · rw [List.mem_singleton.1 hc]
          rfl
        · exact h c (List.mem_of_mem_drop hc)
  · dsimp only
    refine decimalText_exponent _ ?_ ?_
    · split
      · exact ⟨'0', [], rfl, rfl⟩
      · exact ⟨_, [], rfl, h _ List.mem_cons_self⟩
      · exact ⟨_, _, rfl, h _ List.mem_cons_self⟩
    · split
      · exact List.forall_mem_singleton.2 (.inl rfl)
      · exact fun c hc => .inl (h c hc)
      · next c rest _ =>
        intro d hd
        rcases List.mem_cons.1 hd with rfl | hd
        · exact .inl (h d List.mem_cons_self)
        · rcases List.mem_cons.1 hd with rfl | hd
          · exact .inr (by decide)
          · exact .inl (h d (List.mem_cons_of_mem c hd))

theorem digits_chars (significand : Nat) (exponent : Int) :
    ∀ c ∈ (digits significand exponent).1, isAsciiDigit c = true := by
  obtain ⟨k, candidate, hdigits⟩ : ∃ k candidate,
      digits significand exponent = candidateDigits k candidate := ⟨_, _, rfl⟩
  rw [hdigits]
  intro c hc
  rw [candidateDigits, List.mem_reverse] at hc
  have hc := (List.dropWhile_suffix _).subset hc
  rw [List.mem_reverse] at hc
  exact isAsciiDigit_of_mem_toDigits hc

/-- The text of a finite number without its sign. -/
def bodyText (significand : Nat) (exponent : Int) : List Char :=
  if significand = 0 then "0.0".toList
  else
    let (cs, k) := digits significand exponent
    (layout cs k).toList

theorem decimalText_bodyText (significand : Nat) (exponent : Int) :
    DecimalText (bodyText significand exponent) := by
  unfold bodyText
  split
  · have hzero : ∀ c ∈ ['0'], isAsciiDigit c = true := List.forall_mem_singleton.2 rfl
    exact decimalText_point (List.cons_ne_nil '0' []) hzero hzero
  · exact decimalText_layout (digits_chars significand exponent) _

theorem toList_textWith_finite (negative : Bool) (significand : Nat) (exponent : Int)
    (infinityName nanName : String) :
    ((finite negative significand exponent).textWith infinityName nanName).toList =
      if negative then '-' :: bodyText significand exponent else bodyText significand exponent := by
  rw [textWith, bodyText]
  generalize digits significand exponent = d
  obtain ⟨cs, k⟩ := d
  have hminus : "-".toList = ['-'] := rfl
  cases negative <;> dsimp only
  · rw [if_neg Bool.false_ne_true, if_neg Bool.false_ne_true]
    split <;> rfl
  · rw [if_pos rfl, if_pos rfl, String.toList_append, hminus]
    split <;> rfl

end Number.Binary64

namespace Json

open Number (Binary64)
open Number.Binary64 (DecimalText)

variable {cs rest : List Char}

theorem fraction_snd_of_isEmpty (h : (fraction cs).1.isEmpty = true) : (fraction cs).2 = cs := by
  by_cases hhead : cs.head? = some '.'
  · obtain ⟨cs, rfl⟩ := List.head?_eq_some_iff.1 hhead
    rw [fraction_point] at h ⊢
    split
    · rfl
    · next hne =>
      rw [if_neg hne] at h
      exact absurd h hne
  · rw [fraction_of_head_ne hhead]

theorem digits_of_wholeDigits (h : (wholeDigits cs).2 = []) : ∀ c ∈ cs, isAsciiDigit c = true := by
  unfold wholeDigits at h
  split at h
  · cases h
    exact List.forall_mem_singleton.2 rfl
  · rw [spanDigits_eq] at h
    exact List.dropWhile_eq_nil_iff.1 h

/-- What is read from a whole text with a fraction or an exponent is no integer. -/
theorem exists_float_of_number {start : List Char} {negative : Bool} {v : Json}
    (hcs : DecimalText cs) (h : number start negative cs = .ok (v, [])) :
    ∃ digits exponent, v = .float (.ofDecimal negative digits exponent) := by
  rw [number_eq] at h
  split at h
  · cases h
  · unfold numberOf at h
    split at h
    · cases h
      exact ⟨_, _, rfl⟩
    · split at h
      · next hplaces =>
        unfold wholeNumber at h
        split at h
        · cases h
        · simp only [Except.map, Except.ok.injEq, Prod.mk.injEq] at h
          rw [fraction_snd_of_isEmpty hplaces] at h
          obtain ⟨c, hc, hdigit⟩ := hcs.mark
          rw [digits_of_wholeDigits h.2 c hc] at hdigit
          cases hdigit
      · simp only [Except.ok.injEq, Prod.mk.injEq] at h
        exact ⟨_, _, h.1.symm⟩

/-- The text of a finite number is read as a number without its sign. -/
theorem scalar_finite (negative : Bool) (significand : Nat) (exponent : Int) (rest : List Char) :
    ∃ start, scalar
      (((Binary64.finite negative significand exponent).textWith "Infinity" "NaN").toList ++ rest) =
        number start negative (Binary64.bodyText significand exponent ++ rest) := by
  obtain ⟨c, cs, hcs, hc⟩ := (Binary64.decimalText_bodyText significand exponent).head
  rw [Binary64.toList_textWith_finite, hcs]
  cases negative with
  | false => exact ⟨_, scalar_digit hc (cs ++ rest)⟩
  | true => exact ⟨_, scalar_minus hc (cs ++ rest)⟩

/-- **Reading a number again.** The text of a number that can be read again is read as that number,
    whatever ends it. -/
theorem scalar_float (h : Ends rest) {x y : Binary64} (hx : x.reread? = some y) :
    scalar ((x.textWith "Infinity" "NaN").toList ++ rest) = .ok (.float y, rest) := by
  unfold Binary64.reread? at hx
  split at hx
  case h_2 => cases hx
  next z hscalar =>
  cases hx
  cases x with
  | infinity negative =>
    have hread : scalar ((Binary64.infinity negative).textWith "Infinity" "NaN").toList =
        .ok (.float (.infinity negative), []) := by cases negative <;> rfl
    rw [hread] at hscalar
    cases hscalar
    cases negative <;> rfl
  | nan serial =>
    have htext : (Binary64.nan serial).textWith "Infinity" "NaN" = "NaN" := rfl
    rw [htext] at hscalar ⊢
    cases hscalar
    rfl
  | finite negative significand exponent =>
    obtain ⟨start, hstart⟩ := scalar_finite negative significand exponent []
    obtain ⟨start', hstart'⟩ := scalar_finite negative significand exponent rest
    rw [List.append_nil, List.append_nil, hscalar] at hstart
    have happend := number_append h start' start negative (Binary64.bodyText significand exponent)
    rw [← hstart, ← hstart'] at happend
    revert happend
    cases scalar (((Binary64.finite negative significand exponent).textWith "Infinity"
      "NaN").toList ++ rest) with
    | error f => exact nofun
    | ok r =>
      intro happend
      exact congrArg Except.ok (Option.some.inj happend)

/-- Of any other text something is left that ends no value. -/
theorem stuck_float (h : Ends rest) {x : Binary64} (hx : x.reread? = none) {v : Json}
    {left : List Char} (hv : scalar ((x.textWith "Infinity" "NaN").toList ++ rest) = .ok (v, left)) :
    Stuck left := by
  cases x with
  | infinity negative =>
    have hread : (Binary64.infinity negative).reread? = some (.infinity negative) := by
      cases negative <;> rfl
    rw [hread] at hx
    cases hx
  | nan serial =>
    have htext : (Binary64.nan serial).textWith "Infinity" "NaN" = "NaN" := rfl
    rw [Binary64.reread?, htext] at hx
    cases hx
  | finite negative significand exponent =>
    have hbody := Binary64.decimalText_bodyText significand exponent
    obtain ⟨start, hstart⟩ := scalar_finite negative significand exponent []
    obtain ⟨start', hstart'⟩ := scalar_finite negative significand exponent rest
    rw [List.append_nil, List.append_nil] at hstart
    have happend := number_append h start' start negative (Binary64.bodyText significand exponent)
    rw [← hstart', hv, ← hstart] at happend
    obtain ⟨⟨w, left'⟩, hw, heq⟩ := Option.map_eq_some_iff.1 happend.symm
    cases heq
    have hw : scalar ((Binary64.finite negative significand exponent).textWith "Infinity"
        "NaN").toList = .ok (w, left') := by
      revert hw
      cases scalar ((Binary64.finite negative significand exponent).textWith "Infinity"
        "NaN").toList with
      | error f => exact nofun
      | ok r => exact fun hr => congrArg Except.ok (Option.some.inj hr)
    cases left' with
    | nil =>
      obtain ⟨digits, e, rfl⟩ := exists_float_of_number hbody (hstart.symm.trans hw)
      unfold Binary64.reread? at hx
      rw [hw] at hx
      cases hx
    | cons c left' =>
      -- what is left of the text is made of characters of numbers
      have hc := (number_suffix (hstart.symm.trans hw)).subset List.mem_cons_self
      refine ⟨c, rfl, fun hend => ?_⟩
      rcases hbody.chars c hc with hdigit | hmark
      · rw [not_digit_of_mem_endings c hend] at hdigit
        cases hdigit
      · have : ∀ d ∈ endings, d ∉ ['.', 'e', '+', '-'] := by simp [endings]
        exact this c hend hmark

end Json

end Schemata
