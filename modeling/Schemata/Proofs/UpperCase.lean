/-
  Scanning the capitals of a text.

  * No class of characters that the scanner knows tells small letters from capitals
    (`asciiUpper_keeps`), and no sign is made or lost by capitals (`asciiUpper_eq_iff`);
  * so the capitals of a lexeme are a lexeme and those of a layout a layout, rule by rule
    (`Lexed.upper`, `LayoutBefore.upper`); only the tags of dollar quotes know the case;
  * `scanList_upper`: the tokens of the capitals of a text are the capitals of its tokens.
-/
import Schemata.Proofs.Levels
import Schemata.Proofs.Scanning

namespace Schemata

/-! ## Capitals of characters -/

namespace Text

theorem of_ascii {P : Char → Prop} (h : ∀ n : Fin 128, P (Char.ofNat n)) {c : Char}
    (hc : c.toNat < 128) : P c := by
  have := h ⟨c.toNat, hc⟩
  rwa [Char.ofNat_toNat] at this

theorem asciiUpper_of_not_lt {c : Char} (hc : ¬c.toNat < 128) : asciiUpper c = c := by
  have hz : ¬('a' ≤ c ∧ c ≤ 'z') := by
    rintro ⟨-, hz⟩
    exact hc (Nat.lt_of_le_of_lt (UInt32.le_iff_toNat_le.1 (Char.le_def.1 hz)) (by decide))
  rw [asciiUpper, if_neg hz]

/-- What capitals do not change of the ASCII characters, they do not change of any. -/
theorem asciiUpper_keeps {β : Type} {p : Char → β}
    (h : ∀ n : Fin 128, p (asciiUpper (Char.ofNat n)) = p (Char.ofNat n)) (c : Char) :
    p (asciiUpper c) = p c := by
  by_cases hc : c.toNat < 128
  · exact of_ascii (P := fun c => p (asciiUpper c) = p c) h hc
  · rw [asciiUpper_of_not_lt hc]

theorem asciiUpper_of_not_letter {c : Char} (h : isAsciiLetter c = false) : asciiUpper c = c := by
  by_cases hc : c.toNat < 128
  · exact of_ascii (P := fun c => isAsciiLetter c = false → asciiUpper c = c) (by decide +kernel)
      hc h
  · exact asciiUpper_of_not_lt hc

theorem asciiUpper_lt {c : Char} (hc : c.toNat < 128) : (asciiUpper c).toNat < 128 :=
  of_ascii (P := fun c => (asciiUpper c).toNat < 128) (by decide +kernel) hc

/-- The capitals of an ASCII text, letter by letter. -/
theorem toList_upper {s : String} (h : ∀ c ∈ s.toList, c.toNat < 128) :
    (upper s).toList = s.toList.map asciiUpper := by
  rw [upper, String.toList_ofList, upperList_of_ascii h]

end Text

namespace Token

open Text (asciiUpper)

variable {t : Token} {ts : List Token} {c : Char} {cs rest follow lay : List Char}

/-- What the scanner tells characters apart by, besides the marks with a meaning of their own. -/
structure CharClass where
  blank : Bool
  letter : Bool
  digit : Bool
  startsWord : Bool
  inTag : Bool
  inWord : Bool
  mark : Bool
  operator : Bool
  exponent : Bool
deriving DecidableEq

def CharClass.of (c : Char) : CharClass where
  blank := Text.isBlank c
  letter := Text.isAsciiLetter c
  digit := Text.isDigit c
  startsWord := Token.startsWord c
  inTag := Token.inTag c
  inWord := Token.inWord c
  mark := isMark c
  operator := isOperatorChar c
  exponent := c = 'e' ∨ c = 'E'

/-- Capitals are of the class of their letters. -/
theorem charClass_asciiUpper (c : Char) : CharClass.of (asciiUpper c) = CharClass.of c :=
  Text.asciiUpper_keeps (by decide +kernel) c

@[simp] theorem isBlank_asciiUpper (c : Char) : Text.isBlank (asciiUpper c) = Text.isBlank c :=
  congrArg CharClass.blank (charClass_asciiUpper c)

@[simp] theorem isDigit_asciiUpper (c : Char) : Text.isDigit (asciiUpper c) = Text.isDigit c :=
  congrArg CharClass.digit (charClass_asciiUpper c)

@[simp] theorem startsWord_asciiUpper (c : Char) : startsWord (asciiUpper c) = startsWord c :=
  congrArg CharClass.startsWord (charClass_asciiUpper c)

@[simp] theorem inTag_asciiUpper (c : Char) : inTag (asciiUpper c) = inTag c :=
  congrArg CharClass.inTag (charClass_asciiUpper c)

@[simp] theorem inWord_asciiUpper (c : Char) : inWord (asciiUpper c) = inWord c :=
  congrArg CharClass.inWord (charClass_asciiUpper c)

@[simp] theorem isMark_asciiUpper (c : Char) : isMark (asciiUpper c) = isMark c :=
  congrArg CharClass.mark (charClass_asciiUpper c)

@[simp] theorem isOperatorChar_asciiUpper (c : Char) :
    isOperatorChar (asciiUpper c) = isOperatorChar c :=
  congrArg CharClass.operator (charClass_asciiUpper c)

/-- The mark of an exponent in both cases. -/
theorem exponentMark_asciiUpper (c : Char) :
    (asciiUpper c = 'e' ∨ asciiUpper c = 'E') ↔ (c = 'e' ∨ c = 'E') :=
  decide_eq_decide.1 (congrArg CharClass.exponent (charClass_asciiUpper c))

/-- Characters other than letters are capitals of themselves only. -/
theorem asciiUpper_eq_iff {c d : Char} (hd : Text.isAsciiLetter d = false) :
    asciiUpper c = d ↔ c = d := by
  constructor
  · intro h
    have hletter : Text.isAsciiLetter (asciiUpper c) = Text.isAsciiLetter c :=
      congrArg CharClass.letter (charClass_asciiUpper c)
    rw [h, hd] at hletter
    rwa [Text.asciiUpper_of_not_letter hletter.symm] at h
  · rintro rfl
    exact Text.asciiUpper_of_not_letter hd

/-! ## Spans -/

/-- The capitals of both parts of a text. -/
def upperParts (r : List Char × List Char) : List Char × List Char :=
  (r.1.map asciiUpper, r.2.map asciiUpper)

theorem takeWhile_upper {p : Char → Bool} (hp : ∀ c, p (asciiUpper c) = p c) (cs : List Char) :
    (cs.map asciiUpper).takeWhile p = (cs.takeWhile p).map asciiUpper := by
  rw [List.takeWhile_map, show p ∘ asciiUpper = p from funext hp]

theorem dropWhile_upper {p : Char → Bool} (hp : ∀ c, p (asciiUpper c) = p c) (cs : List Char) :
    (cs.map asciiUpper).dropWhile p = (cs.dropWhile p).map asciiUpper := by
  rw [List.dropWhile_map, show p ∘ asciiUpper = p from funext hp]

theorem head?_any_upper {p : Char → Bool} (hp : ∀ c, p (asciiUpper c) = p c) (cs : List Char) :
    (cs.map asciiUpper).head?.any p = cs.head?.any p := by
  cases cs with
  | nil => rfl
  | cons c cs => exact hp c

theorem spanDigits_upper (cs : List Char) :
    spanDigits (cs.map asciiUpper) = upperParts (spanDigits cs) := by
  rw [spanDigits, takeWhile_upper isDigit_asciiUpper, dropWhile_upper isDigit_asciiUpper]
  rfl

theorem spanFraction_upper (cs : List Char) :
    spanFraction (cs.map asciiUpper) = upperParts (spanFraction cs) := by
  cases cs with
  | nil => rfl
  | cons c cs =>
    by_cases hc : c = '.'
    · subst hc
      have hpoint : asciiUpper '.' = '.' := by decide
      rw [List.map_cons, hpoint]
      simp [spanFraction, spanDigits_upper, upperParts, hpoint]
    · have hup : asciiUpper c ≠ '.' := fun h => hc ((asciiUpper_eq_iff (by decide)).1 h)
      simp [spanFraction, hc, hup, upperParts]

theorem spanExponent_upper (cs : List Char) :
    spanExponent (cs.map asciiUpper) = upperParts (spanExponent cs) := by
  rcases cs with _ | ⟨e, _ | ⟨s, cs⟩⟩
  · rfl
  · simp [spanExponent, upperParts]
  · have hsign : (asciiUpper s = '+' ∨ asciiUpper s = '-') ↔ (s = '+' ∨ s = '-') :=
      or_congr (asciiUpper_eq_iff (by decide)) (asciiUpper_eq_iff (by decide))
    have hdigits := spanDigits_upper (s :: cs)
    rw [List.map_cons] at hdigits
    simp only [List.map_cons, spanExponent, exponentMark_asciiUpper, hsign, spanDigits_upper,
      hdigits]
    split
    · split
      · simp only [upperParts, List.isEmpty_map]
        split <;> rfl
      · simp only [upperParts, List.isEmpty_map]
        split <;> rfl
    · rfl

theorem spanNumber_upper (cs : List Char) :
    spanNumber (cs.map asciiUpper) = upperParts (spanNumber cs) := by
  simp [spanNumber, spanDigits_upper, spanFraction_upper, spanExponent_upper, upperParts]

theorem spanPlaces_upper (cs : List Char) :
    spanPlaces (cs.map asciiUpper) = upperParts (spanPlaces cs) := by
  simp [spanPlaces, spanDigits_upper, spanExponent_upper, upperParts]

theorem closeQuote?_upper {q : Char} (hq : Text.isAsciiLetter q = false) (cs : List Char) :
    closeQuote? q (cs.map asciiUpper) = (closeQuote? q cs).map upperParts := by
  fun_induction closeQuote? q cs with
  | case1 => rfl
  | case2 => simp [closeQuote?, upperParts, asciiUpper_eq_iff hq]
  | case3 c hc => simp [closeQuote?, asciiUpper_eq_iff hq, hc]
  | case4 cs ih => simp [closeQuote?, asciiUpper_eq_iff hq, ih, Function.comp_def, upperParts]
  | case5 d cs hd => simp [closeQuote?, asciiUpper_eq_iff hq, hd, upperParts]
  | case6 c d cs hc ih =>
    rw [List.map_cons] at ih
    simp [closeQuote?, asciiUpper_eq_iff hq, hc, ih, Function.comp_def, upperParts]

theorem spanTag?_upper (cs : List Char) :
    spanTag? (cs.map asciiUpper) = (spanTag? cs).map upperParts := by
  rw [spanTag?, takeWhile_upper inTag_asciiUpper, dropWhile_upper inTag_asciiUpper, spanTag?,
    head?_any_upper startsWord_asciiUpper]
  cases hd : cs.dropWhile inTag with
  | nil => rfl
  | cons c more =>
    by_cases hc : c = '$'
    · subst hc
      have hdollar : asciiUpper '$' = '$' := by decide
      simp only [List.map_cons, hdollar, List.isEmpty_map]
      split <;> simp [upperParts, hdollar]
    · have hup : asciiUpper c ≠ '$' := fun h => hc ((asciiUpper_eq_iff (by decide)).1 h)
      simp [hc, hup]

theorem startsComment_upper (cs : List Char) :
    startsComment (cs.map asciiUpper) = startsComment cs := by
  have hsign {d : Char} (hd : Text.isAsciiLetter d = false) (c : Char) :
      (asciiUpper c == d) = (c == d) := by
    rw [Bool.eq_iff_iff, beq_iff_eq, beq_iff_eq, asciiUpper_eq_iff hd]
  rcases cs with _ | ⟨c, _ | ⟨d, cs⟩⟩
  · rfl
  · simp [startsComment]
  · simp only [List.map_cons, startsComment_cons_cons, hsign (d := '-') rfl, hsign (d := '/') rfl,
      hsign (d := '*') rfl]

theorem spanOperator_upper (cs : List Char) :
    spanOperator (cs.map asciiUpper) = upperParts (spanOperator cs) := by
  induction cs with
  | nil => rfl
  | cons c cs ih =>
    have hcomment := startsComment_upper (c :: cs)
    rw [List.map_cons] at hcomment
    rw [List.map_cons, spanOperator, spanOperator, isOperatorChar_asciiUpper, hcomment, ih]
    split <;> rfl

/-! ## Lexemes and layouts -/

theorem Unquoted.upper (h : Unquoted c) : Unquoted (asciiUpper c) where
  quote he := h.quote ((asciiUpper_eq_iff rfl).1 he)
  doubleQuote he := h.doubleQuote ((asciiUpper_eq_iff rfl).1 he)
  dollar he := h.dollar ((asciiUpper_eq_iff rfl).1 he)

theorem Sign.upper (h : Sign c) : Sign (asciiUpper c) where
  toUnquoted := h.toUnquoted.upper
  word := (startsWord_asciiUpper c).trans h.word
  digit := (isDigit_asciiUpper c).trans h.digit

/-- The capitals of a lexeme are a lexeme, unless it is a dollar quote. -/
theorem Lexed.upper {kind : TokenKind} {tail : List Char} (h : Lexed c cs kind tail rest)
    (hd : kind = .string → c ≠ '$') :
    Lexed (asciiUpper c) (cs.map asciiUpper) kind (tail.map asciiUpper) (rest.map asciiUpper) := by
  cases h with
  | literal hc h =>
    subst hc
    exact .literal rfl (by rw [show asciiUpper '\'' = '\'' from rfl, closeQuote?_upper rfl, h]; rfl)
  | name hc h =>
    subst hc
    exact .name rfl (by rw [show asciiUpper '"' = '"' from rfl, closeQuote?_upper rfl, h]; rfl)
  | dollarQuote hc => exact absurd hc (hd rfl)
  | dollar hc htag =>
    subst hc
    exact .dollar rfl (by rw [spanTag?_upper, htag]; rfl)
  | word hb hw h =>
    cases h
    refine .word hb.upper (by rw [startsWord_asciiUpper, hw]) ?_
    rw [takeWhile_upper inWord_asciiUpper, dropWhile_upper inWord_asciiUpper]
  | number hb hw hdigit h =>
    refine .number hb.upper (by rw [startsWord_asciiUpper, hw])
      (by rw [isDigit_asciiUpper, hdigit]) ?_
    rw [spanNumber_upper, h]
    rfl
  | places hc hdigit h =>
    subst hc
    refine .places rfl (by rw [head?_any_upper isDigit_asciiUpper, hdigit]) ?_
    rw [spanPlaces_upper, h]
    rfl
  | mark hs hp hm =>
    refine .mark hs.upper (fun hc => ?_) (by rw [isMark_asciiUpper, hm])
    rw [head?_any_upper isDigit_asciiUpper, hp ((asciiUpper_eq_iff rfl).1 hc)]
  | operator hs hm ho h =>
    refine .operator hs.upper (by rw [isMark_asciiUpper, hm])
      (by rw [isOperatorChar_asciiUpper, ho]) ?_
    rw [spanOperator_upper, h]
    rfl
  | other hs hm ho =>
    exact .other hs.upper (by rw [isMark_asciiUpper, hm]) (by rw [isOperatorChar_asciiUpper, ho])

/-- The capitals of a layout are a layout. -/
theorem LayoutBefore.upper {place : LayoutPlace} (h : LayoutBefore place lay rest) :
    LayoutBefore place (lay.map asciiUpper) (rest.map asciiUpper) := by
  induction h with
  | finish hp => exact .finish hp
  | @stop c cs hc hb =>
    have hcomment := startsComment_upper (c :: cs)
    exact .stop (hcomment.trans hc) (by rw [isBlank_asciiUpper, hb])
  | blank hb _ ih => exact .blank (by rw [isBlank_asciiUpper, hb]) ih
  | dashes _ ih => exact .dashes ih
  | line hc _ ih => exact .line (fun he => hc ((asciiUpper_eq_iff rfl).1 he)) ih
  | newline _ ih => exact .newline ih
  | opened _ ih => exact .opened ih
  | @inside n c lay rest hc _ ih =>
    refine .inside (fun he hslash => ?_) ih
    rw [List.head?_map, Option.map_eq_some_iff] at hslash
    obtain ⟨d, hd, hslash⟩ := hslash
    have hslash : d = '/' := (asciiUpper_eq_iff rfl).1 hslash
    exact hc ((asciiUpper_eq_iff rfl).1 he) (hd.trans (congrArg some hslash))
  | closed _ ih => exact .closed ih

/-! ## Tokens -/

/-- The capitals of a token. -/
def upper (t : Token) : Token := ⟨t.kind, t.text.map asciiUpper, t.layout.map asciiUpper⟩

theorem isDollarQuoted_upper (t : Token) : t.upper.isDollarQuoted = t.isDollarQuoted := by
  have hhead : ((t.text.map asciiUpper).head? == some '$') = (t.text.head? == some '$') := by
    rw [Bool.eq_iff_iff, beq_iff_eq, beq_iff_eq, List.head?_map, Option.map_eq_some_iff]
    constructor
    · rintro ⟨c, hc, he⟩
      rw [hc, (asciiUpper_eq_iff (by decide)).1 he]
    · exact fun h => ⟨'$', h, rfl⟩
  rw [isDollarQuoted, isDollarQuoted, ← hhead]
  rfl

theorem fullText_upper (ts : List Token) :
    fullText (ts.map upper) = (fullText ts).map asciiUpper := by
  induction ts with
  | nil => rfl
  | cons t ts ih =>
    rw [List.map_cons, fullText_cons, fullText_cons, ih, List.map_append, List.map_append]
    rfl

theorem Stands.upper (h : t.Stands follow) (hd : t.isDollarQuoted = false) :
    t.upper.Stands (follow.map asciiUpper) := by
  obtain ⟨hl, c, tail, ht, hx⟩ := h
  have hlayout := (LayoutBefore.of_span hl).upper.span
  rw [List.map_append] at hlayout
  refine ⟨hlayout, asciiUpper c, tail.map asciiUpper, congrArg (List.map asciiUpper) ht, ?_⟩
  rw [ht] at hx
  have hlexed := (lexeme_eq_ok_iff.1 hx).upper fun hkind hc => by
    simp [isDollarQuoted, hkind, ht, hc] at hd
  rw [List.map_append] at hlexed
  have := lexeme_eq_ok_iff.2 hlexed
  rwa [Token.upper, ht]

theorem Rescans.upper (h : Rescans ts rest) (hd : ∀ t ∈ ts, t.isDollarQuoted = false) :
    Rescans (ts.map upper) (rest.map asciiUpper) := by
  induction ts with
  | nil => trivial
  | cons t ts ih =>
    refine ⟨?_, ih h.2 fun u hu => hd u (List.mem_cons_of_mem t hu)⟩
    have := h.1.upper (hd t List.mem_cons_self)
    rwa [List.map_append, ← fullText_upper] at this

/-- **The tokens of capitals.** Without dollar quotes, the capitals of a text that ends with a token
    scan into the capitals of its tokens. -/
theorem scanList_upper (h : scanList cs = .ok (ts, [])) (hd : ∀ t ∈ ts, t.isDollarQuoted = false) :
    scanList (cs.map asciiUpper) = .ok (ts.map upper, []) := by
  have hr := (rescans_of_scanList h).1.upper hd
  have htext := fullText_append_of_scanList h
  have hscan := scanList_append hr
  have hnil : scanList [] = .ok ([], []) := by
    rw [scanList]
    rfl
  rw [List.append_nil] at htext
  rw [List.map_nil, List.append_nil, fullText_upper, htext, hnil] at hscan
  simpa [prepend, Except.map] using hscan

theorem isPunct_upper (hc : Text.isAsciiLetter c = false) (t : Token) :
    t.upper.isPunct c = t.isPunct c := by
  have htext : (t.text.map asciiUpper == [c]) = (t.text == [c]) := by
    rw [Bool.eq_iff_iff, beq_iff_eq, beq_iff_eq]
    rcases t.text with _ | ⟨d, _ | ⟨e, cs⟩⟩
    · simp
    · simp [asciiUpper_eq_iff hc]
    · simp
  rw [isPunct, isPunct, ← htext]
  rfl

/-- Capitals open and close the same parentheses. -/
theorem level_upper (hc : Text.isAsciiLetter c = false) (d : Nat) (ts : List Token) :
    level (isPunct c) d (ts.map upper) = level (isPunct c) d ts := by
  induction ts generalizing d with
  | nil => rfl
  | cons t ts ih =>
    have hopen := isPunct_upper (c := '(') rfl t
    have hclose := isPunct_upper (c := ')') rfl t
    simp only [List.map_cons, level, hopen, hclose, isPunct_upper hc, ih]

end Token

end Schemata
