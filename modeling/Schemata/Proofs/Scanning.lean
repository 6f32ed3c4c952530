/-
  Scanning token by token.

  * A token stands before a text if the scanner finds it there first; `Rescans ts rest` says so of
    each token of a list, before the tokens after it and a rest;
  * `scanList_append`: tokens that rescan are found again, and the rest is scanned by itself;
    `rescans_of_scanList`: the tokens of a text rescan;
  * `Lexed` gives the rules of lexemes, one for each kind of first character, and `LayoutBefore` those
    of layouts; what holds of either is proved rule by rule;
  * no token runs over a hard character (a blank, a parenthesis, a bracket, a comma or a semicolon),
    so tokens that fill a text also rescan before such a character (`Rescans.hard`).
-/
import Schemata.Token.Scanner

namespace Schemata.Token

variable {t : Token} {ts us : List Token} {cs rest follow lay : List Char}

/-! ## Lexemes by their first character -/

/-- The character starts no literal, no quoted name and no dollar quote. -/
structure Unquoted (c : Char) : Prop where
  quote : c ≠ '\''
  doubleQuote : c ≠ '"'
  dollar : c ≠ '$'

/-- The character starts none of these, no word and, by itself, no number. -/
structure Sign (c : Char) : Prop extends Unquoted c where
  word : startsWord c = false
  digit : Text.isDigit c = false

/-- What `lexeme` finds from a character on: the kind of the token, its other characters, and what
    follows it. -/
inductive Lexed (c : Char) (cs : List Char) : TokenKind → List Char → List Char → Prop
  | literal {body rest : List Char} (hc : c = '\'') (h : closeQuote? c cs = some (body, rest)) :
      Lexed c cs .string body rest
  | name {body rest : List Char} (hc : c = '"') (h : closeQuote? c cs = some (body, rest)) :
      Lexed c cs .quoted body rest
  | dollarQuote {tag more body rest : List Char} (hc : c = '$')
      (htag : spanTag? cs = some (tag, more)) (h : Text.cut? (c :: tag) more = some (body, rest)) :
      Lexed c cs .string (tag ++ body ++ c :: tag) rest
  | dollar (hc : c = '$') (htag : spanTag? cs = none) : Lexed c cs .operator [] cs
  | word {tail rest : List Char} (hb : Unquoted c) (hw : startsWord c = true)
      (h : (cs.takeWhile inWord, cs.dropWhile inWord) = (tail, rest)) : Lexed c cs .word tail rest
  | number {tail rest : List Char} (hb : Unquoted c) (hw : startsWord c = false)
      (hd : Text.isDigit c = true) (h : spanNumber cs = (tail, rest)) : Lexed c cs .number tail rest
  | places {tail rest : List Char} (hc : c = '.') (hd : cs.head?.any Text.isDigit = true)
      (h : spanPlaces cs = (tail, rest)) : Lexed c cs .number tail rest
  | mark (hs : Sign c) (hp : c = '.' → cs.head?.any Text.isDigit = false) (hm : isMark c = true) :
      Lexed c cs .punct [] cs
  | operator {tail rest : List Char} (hs : Sign c) (hm : isMark c = false)
      (ho : isOperatorChar c = true) (h : spanOperator cs = (tail, rest)) :
      Lexed c cs .operator tail rest
  | other (hs : Sign c) (hm : isMark c = false) (ho : isOperatorChar c = false) :
      Lexed c cs .operator [] cs

theorem sign_point : Sign '.' := ⟨⟨by decide, by decide, by decide⟩, by decide, by decide⟩

theorem ne_point {c : Char} (h : isMark c = false) : c ≠ '.' := by
  rintro rfl
  cases h

/-- The rules are the branches of `lexeme`. -/
theorem lexeme_eq_ok_iff {c : Char} {kind : TokenKind} {tail : List Char} :
    lexeme c cs = .ok (kind, c :: tail, rest) ↔ Lexed c cs kind tail rest := by
  constructor
  · intro h
    unfold lexeme at h
    split at h
    · next hc =>
      split at h <;> cases h
      next hq => exact .literal hc hq
    next hquote =>
    split at h
    · next hc =>
      split at h <;> cases h
      next hq => exact .name hc hq
    next hdouble =>
    split at h
    · next hc =>
      split at h
      · next htag =>
        split at h <;> cases h
        next hcut => exact .dollarQuote hc htag hcut
      · next htag =>
        cases h
        exact .dollar hc htag
    next hdollar =>
    have hb : Unquoted c := ⟨hquote, hdouble, hdollar⟩
    split at h
    · next hw =>
      cases h
      exact .word hb hw rfl
    next hw =>
    rw [Bool.not_eq_true] at hw
    split at h
    · next hd =>
      cases h
      exact .number hb hw hd rfl
    next hd =>
    have hs : Sign c := ⟨hb, hw, Bool.not_eq_true _ ▸ hd⟩
    split at h
    · next hp =>
      cases h
      exact .places hp.1 hp.2 rfl
    next hp =>
    split at h
    · next hm =>
      cases h
      exact .mark hs (fun hc => Bool.not_eq_true _ ▸ fun hd => hp ⟨hc, hd⟩) hm
    next hm =>
    rw [Bool.not_eq_true] at hm
    split at h
    · next ho =>
      cases h
      exact .operator hs hm ho rfl
    · next ho =>
      cases h
      exact .other hs hm (Bool.not_eq_true _ ▸ ho)
  · intro h
    unfold lexeme
    cases h with
    | literal hc h =>
      subst hc
      simp [h]
    | name hc h =>
      subst hc
      simp [h]
    | dollarQuote hc htag h =>
      subst hc
      simp [htag, h]
    | dollar hc htag =>
      subst hc
      simp [htag]
    | word hb hw h =>
      cases h
      simp [hb.quote, hb.doubleQuote, hb.dollar, hw]
    | number hb hw hd h => simp [hb.quote, hb.doubleQuote, hb.dollar, hw, hd, h]
    | places hc hd h =>
      subst hc
      have hs := sign_point
      simp [hs.word, hs.digit, hd, h]
    | mark hs hp hm =>
      have hp : ¬(c = '.' ∧ cs.head?.any Text.isDigit = true) := fun h => by simp [hp h.1] at h
      simp [hs.quote, hs.doubleQuote, hs.dollar, hs.word, hs.digit, -not_and, hp, hm]
    | operator hs hm ho h =>
      simp [hs.quote, hs.doubleQuote, hs.dollar, hs.word, hs.digit, ne_point hm, hm, ho, h]
    | other hs hm ho =>
      simp [hs.quote, hs.doubleQuote, hs.dollar, hs.word, hs.digit, ne_point hm, hm, ho]

/-! ## Tokens in front of a text -/

/-- The scanner finds the token, with its layout, in front of a text. -/
structure Stands (t : Token) (follow : List Char) : Prop where
  layout : spanLayout (t.layout ++ (t.text ++ follow)) = .ok (t.layout, t.text ++ follow)
  lexeme : ∃ c tail, t.text = c :: tail ∧
    lexeme c (tail ++ follow) = .ok (t.kind, t.text, follow)

theorem Stands.text_ne_nil (h : t.Stands follow) : t.text ≠ [] := by
  obtain ⟨c, tail, ht, -⟩ := h.lexeme
  rw [ht]
  exact List.cons_ne_nil c tail

/-- The token is a literal between dollar tags. -/
def isDollarQuoted (t : Token) : Bool := t.kind == .string && t.text.head? == some '$'

/-- Every token of a list stands before those after it, the last one before `rest`. -/
def Rescans : List Token → List Char → Prop
  | [], _ => True
  | t :: ts, rest => t.Stands (fullText ts ++ rest) ∧ Rescans ts rest

/-- Tokens put in front of what was scanned. -/
def prepend (ts : List Token) (r : List Token × List Char) : List Token × List Char :=
  (ts ++ r.1, r.2)

@[simp] theorem fullText_nil : fullText [] = [] := rfl

@[simp] theorem fullText_cons (t : Token) (ts : List Token) :
    fullText (t :: ts) = t.layout ++ (t.text ++ fullText ts) := by simp [fullText]

@[simp] theorem fullText_append (ts us : List Token) :
    fullText (ts ++ us) = fullText ts ++ fullText us := by simp [fullText]

theorem rescans_append :
    Rescans (ts ++ us) rest ↔ Rescans ts (fullText us ++ rest) ∧ Rescans us rest := by
  induction ts with
  | nil => simp [Rescans]
  | cons t ts ih => simp only [List.cons_append, Rescans, ih, fullText_append,
      List.append_assoc, and_assoc]

theorem scanList_of_stands (h : t.Stands follow) :
    scanList (t.layout ++ (t.text ++ follow)) = (scanList follow).map (prepend [t]) := by
  obtain ⟨hl, c, tail, ht, hx⟩ := h
  rw [scanList]
  split
  · next he => rw [hl] at he; cases he
  · next he => rw [hl, ht] at he; cases he
  · next he =>
    rw [hl, ht, List.cons_append] at he
    cases he
    split
    · next hx' => rw [hx] at hx'; cases hx'
    · next hx' =>
      rw [hx] at hx'
      cases hx'
      rfl

/-- **Scanning tokens again.** Tokens that rescan are found, and the rest is scanned by itself. -/
theorem scanList_append (h : Rescans ts rest) :
    scanList (fullText ts ++ rest) = (scanList rest).map (prepend ts) := by
  induction ts with
  | nil =>
    rw [fullText_nil, List.nil_append]
    cases scanList rest <;> rfl
  | cons t ts ih =>
    rw [fullText_cons, List.append_assoc, List.append_assoc, scanList_of_stands h.1, ih h.2]
    cases scanList rest <;> rfl

/-- The tokens of a text rescan before its closing layout. -/
theorem rescans_of_scanList {closing : List Char} (h : scanList cs = .ok (ts, closing)) :
    Rescans ts closing ∧ scanList closing = .ok ([], closing) := by
  fun_induction scanList cs generalizing ts with
  | case1 => cases h
  | case2 cs layout hl =>
    cases h
    refine ⟨trivial, ?_⟩
    have := eq_append_of_spanLayout hl
    rw [List.append_nil] at this
    subst this
    rw [scanList]
    split
    · next he => rw [hl] at he; cases he
    · next he => rw [hl] at he; cases he; rfl
    · next he => rw [hl] at he; cases he
  | case3 => cases h
  | case4 cs layout c cs' hl kind text follow hx ih =>
    cases hs : scanList follow with
    | error e => rw [hs] at h; cases h
    | ok r =>
      obtain ⟨ts', closing'⟩ := r
      rw [hs] at h
      cases h
      obtain ⟨hr, hc⟩ := ih hs
      obtain ⟨tail, rfl, htail⟩ := eq_append_of_lexeme hx
      have hfull := fullText_append_of_scanList hs
      have hcs := eq_append_of_spanLayout hl
      refine ⟨⟨⟨?_, c, tail, rfl, ?_⟩, hr⟩, hc⟩
      · rw [hfull]
        show spanLayout (layout ++ (c :: (tail ++ follow))) = .ok (layout, c :: (tail ++ follow))
        rw [← htail, ← hcs, hl]
      · rw [hfull, ← htail]; exact hx

/-! ## Hard characters -/

/-- A character that no token runs over. -/
def isHard (c : Char) : Bool := Text.isBlank c || ['(', ')', ',', ';', '[', ']'].contains c

/-- The text is empty or starts with a hard character. -/
def Hard (cs : List Char) : Prop := ∀ c, cs.head? = some c → isHard c = true

/-- The code points of the hard characters. -/
def hardCodes : List Nat :=
  [9, 10, 11, 12, 13, 28, 29, 30, 31, 32, 40, 41, 44, 59, 91, 93, 133, 160, 5760, 8192, 8193, 8194,
    8195, 8196, 8197, 8198, 8199, 8200, 8201, 8202, 8232, 8233, 8239, 8287, 12288]

theorem mem_hardCodes {c : Char} (h : isHard c = true) : c.toNat ∈ hardCodes := by
  simp only [isHard, Bool.or_eq_true, List.contains_eq_mem, List.mem_cons, List.not_mem_nil,
    or_false, decide_eq_true_eq] at h
  rcases h with h | rfl | rfl | rfl | rfl | rfl | rfl
  · simp only [Text.isBlank, Text.isSpace, Bool.or_eq_true, Bool.and_eq_true, decide_eq_true_eq,
      beq_iff_eq] at h
    simp only [hardCodes, List.mem_cons, List.not_mem_nil, or_false]
    omega
  all_goals decide

/-- What a token may go on with. -/
def mayFollow (c : Char) : Bool :=
  inWord c || Text.isDigit c || isOperatorChar c || ['.', '$', '\'', '"', '-', '*', '+'].contains c

theorem mayFollow_hard {c : Char} (h : isHard c = true) : mayFollow c = false := by
  have hall : ∀ n ∈ hardCodes, mayFollow (Char.ofNat n) = false := by decide +kernel
  have := hall c.toNat (mem_hardCodes h)
  rwa [Char.ofNat_toNat] at this

section
variable (hr : Hard rest)
include hr

theorem Hard.head_ne {c d : Char} (hd : mayFollow d = true) (hc : rest.head? = some c) :
    c ≠ d := by
  rintro rfl
  rw [mayFollow_hard (hr c hc)] at hd
  cases hd

theorem Hard.not_of {p : Char → Bool} (hp : ∀ c, p c = true → mayFollow c = true) {c : Char}
    (hc : rest.head? = some c) : p c = false := by
  rw [Bool.eq_false_iff]
  intro h
  exact hr.head_ne (hp c h) hc rfl

end

theorem takeWhile_append_of_head (cs : List Char) {p : Char → Bool}
    (h : ∀ c, rest.head? = some c → p c = false) :
    (cs ++ rest).takeWhile p = cs.takeWhile p ∧
      (cs ++ rest).dropWhile p = cs.dropWhile p ++ rest := by
  induction cs with
  | nil =>
    cases rest with
    | nil => exact ⟨rfl, rfl⟩
    | cons c rest => simp [h c rfl]
  | cons c cs ih =>
    by_cases hc : p c = true
    · simp [hc, ih]
    · simp [hc]

theorem head?_any_append {p : Char → Bool} (rest : List Char) (h : cs.head?.any p = true) :
    (cs ++ rest).head?.any p = true := by
  cases cs with
  | nil => cases h
  | cons c cs => exact h

theorem closeQuote?_append {q : Char} {body more : List Char}
    (h : closeQuote? q cs = some (body, more)) (hq : more = [] → ∀ c, rest.head? = some c → c ≠ q) :
    closeQuote? q (cs ++ rest) = some (body, more ++ rest) := by
  fun_induction closeQuote? q cs generalizing body with
  | case1 => cases h
  | case2 =>
    cases h
    cases rest with
    | nil => simp [closeQuote?]
    | cons c rest => simp [closeQuote?, hq rfl c rfl]
  | case3 => cases h
  | case4 cs ih =>
    obtain ⟨⟨b, m⟩, hb, he⟩ := Option.map_eq_some_iff.1 h
    cases he
    simp [closeQuote?, ih hb]
  | case5 d cs hd =>
    cases h
    simp [closeQuote?, hd]
  | case6 c d cs hc ih =>
    obtain ⟨⟨b, m⟩, hb, he⟩ := Option.map_eq_some_iff.1 h
    cases he
    have := ih hb
    rw [List.cons_append] at this
    simp [closeQuote?, hc, this]

theorem after?_append_of_le {pat : List Char} (hl : pat.length ≤ cs.length) :
    Text.after? pat (cs ++ rest) = (Text.after? pat cs).map (· ++ rest) := by
  induction pat generalizing cs with
  | nil => rfl
  | cons p pat ih =>
    cases cs with
    | nil => cases hl
    | cons c cs =>
      by_cases hp : p = c
      · simp only [List.length_cons, Nat.add_le_add_iff_right] at hl
        simp [Text.after?, hp, ih hl]
      · simp [Text.after?, hp]

theorem cut?_append {pat before more : List Char} (h : Text.cut? pat cs = some (before, more)) :
    Text.cut? pat (cs ++ rest) = some (before, more ++ rest) := by
  induction cs generalizing before with
  | nil =>
    simp only [Text.cut?, Option.map_eq_some_iff, Prod.mk.injEq] at h
    obtain ⟨r, hr, rfl, rfl⟩ := h
    cases pat with
    | nil => cases hr; cases rest <;> simp [Text.cut?, Text.after?]
    | cons => cases hr
  | cons c cs ih =>
    have hlen : pat.length ≤ (c :: cs).length := by
      have := congrArg List.length (Text.eq_append_of_cut? h)
      simp only [List.length_append] at this
      omega
    have ha : Text.after? pat (c :: (cs ++ rest)) = (Text.after? pat (c :: cs)).map (· ++ rest) :=
      after?_append_of_le hlen
    rw [Text.cut?] at h
    rw [List.cons_append, Text.cut?, ha]
    cases hc : Text.after? pat (c :: cs) with
    | some r => rw [hc] at h; cases h; rfl
    | none =>
      rw [hc] at h
      obtain ⟨⟨b, m⟩, hb, he⟩ := Option.map_eq_some_iff.1 h
      cases he
      simp [ih hb]

section
variable (hr : Hard rest)
include hr

theorem Hard.isDigit {c : Char} (hc : rest.head? = some c) : Text.isDigit c = false :=
  hr.not_of (fun c h => by simp [mayFollow, h]) hc

theorem spanDigits_hard (cs : List Char) : spanDigits (cs ++ rest) = ((spanDigits cs).1, (spanDigits cs).2 ++ rest) := by
  obtain ⟨h₁, h₂⟩ := takeWhile_append_of_head cs (p := Text.isDigit) fun c => hr.isDigit
  rw [spanDigits, h₁, h₂, spanDigits]

theorem spanFraction_hard :
    spanFraction (cs ++ rest) = ((spanFraction cs).1, (spanFraction cs).2 ++ rest) := by
  cases cs with
  | nil =>
    cases rest with
    | nil => rfl
    | cons c rest =>
      have hc : c ≠ '.' := hr.head_ne (by decide) rfl
      unfold spanFraction
      split
      · next h => cases h; exact absurd rfl hc
      · next h => rfl
  | cons c cs =>
    by_cases hc : c = '.'
    · subst hc
      simp only [spanFraction, List.cons_append, spanDigits_hard hr]
    · unfold spanFraction
      split
      · next h => cases h; exact absurd rfl hc
      · next h =>
        split
        · next h' => cases h'; exact absurd rfl hc
        · rfl

theorem spanDigits_nil_hard : (spanDigits rest).1 = [] := by
  have := congrArg Prod.fst (spanDigits_hard hr [])
  exact this

theorem spanExponent_hard :
    spanExponent (cs ++ rest) = ((spanExponent cs).1, (spanExponent cs).2 ++ rest) := by
  rcases cs with _ | ⟨e, _ | ⟨s, cs⟩⟩
  · cases rest with
    | nil => rfl
    | cons c rest =>
      have he : ¬(c = 'e' ∨ c = 'E') :=
        not_or.2 ⟨hr.head_ne (by decide) rfl, hr.head_ne (by decide) rfl⟩
      simp [spanExponent, he]
  · by_cases he : e = 'e' ∨ e = 'E'
    · cases rest with
      | nil => simp [spanExponent, he]
      | cons c rest =>
        have hc : ¬(c = '+' ∨ c = '-') :=
          not_or.2 ⟨hr.head_ne (by decide) rfl, hr.head_ne (by decide) rfl⟩
        simp [spanExponent, he, hc, spanDigits_nil_hard hr]
    · simp [spanExponent, he]
  · by_cases he : e = 'e' ∨ e = 'E'
    · by_cases hs : s = '+' ∨ s = '-'
      · simp only [spanExponent, List.cons_append, he, hs, if_true, spanDigits_hard hr]
        split <;> rfl
      · have hd := spanDigits_hard hr (s :: cs)
        rw [List.cons_append] at hd
        simp only [spanExponent, List.cons_append, he, hs, if_true, if_false, hd]
        split <;> rfl
    · simp [spanExponent, he]

theorem spanNumber_hard :
    spanNumber (cs ++ rest) = ((spanNumber cs).1, (spanNumber cs).2 ++ rest) := by
  simp only [spanNumber, spanDigits_hard hr, spanFraction_hard hr, spanExponent_hard hr]

theorem spanPlaces_hard :
    spanPlaces (cs ++ rest) = ((spanPlaces cs).1, (spanPlaces cs).2 ++ rest) := by
  simp only [spanPlaces, spanDigits_hard hr, spanExponent_hard hr]

theorem spanTag?_hard :
    spanTag? (cs ++ rest) = (spanTag? cs).map fun r => (r.1, r.2 ++ rest) := by
  have hin : ∀ c, inTag c = true → mayFollow c = true := fun c h => by simp [mayFollow, inWord, h]
  obtain ⟨h₁, h₂⟩ := takeWhile_append_of_head cs (p := inTag) fun c => hr.not_of hin
  rw [spanTag?, h₁, h₂, spanTag?]
  cases hd : cs.dropWhile inTag with
  | nil =>
    cases rest with
    | nil => rfl
    | cons c rest =>
      have hc : c ≠ '$' := hr.head_ne (by decide) rfl
      simp [hc]
  | cons c more =>
    by_cases hc : c = '$'
    · subst hc
      simp only [List.cons_append]
      split <;> rfl
    · simp [hc]

theorem startsComment_hard (hne : cs ≠ []) : startsComment (cs ++ rest) = startsComment cs := by
  rcases cs with _ | ⟨c, _ | ⟨d, cs⟩⟩
  · exact absurd rfl hne
  · cases rest with
    | nil => rfl
    | cons d rest =>
      have h₁ : d ≠ '-' := hr.head_ne (by decide) rfl
      have h₂ : d ≠ '*' := hr.head_ne (by decide) rfl
      simp [startsComment, h₁, h₂]
  · simp only [List.cons_append]
    unfold startsComment
    split <;> simp_all

theorem spanOperator_hard :
    spanOperator (cs ++ rest) = ((spanOperator cs).1, (spanOperator cs).2 ++ rest) := by
  induction cs with
  | nil =>
    cases rest with
    | nil => rfl
    | cons c rest =>
      have hc : isOperatorChar c = false :=
        hr.not_of (fun c h => by simp [mayFollow, h]) rfl
      simp [spanOperator, hc]
  | cons c cs ih =>
    have hs := startsComment_hard hr (List.cons_ne_nil c cs)
    rw [List.cons_append] at hs
    rw [List.cons_append, spanOperator, hs, ih, spanOperator]
    split <;> rfl

/-- A lexeme is also found if the text goes on with a hard character after its end. -/
theorem lexeme_hard {c : Char} {kind : TokenKind} {text more : List Char}
    (h : lexeme c cs = .ok (kind, text, more)) :
    lexeme c (cs ++ rest) = .ok (kind, text, more ++ rest) := by
  obtain ⟨tail, rfl, -⟩ := eq_append_of_lexeme h
  rw [lexeme_eq_ok_iff] at h ⊢
  cases h with
  | literal hc hq =>
    exact .literal hc (closeQuote?_append hq fun _ d hd => hr.head_ne (by subst hc; decide) hd)
  | name hc hq =>
    exact .name hc (closeQuote?_append hq fun _ d hd => hr.head_ne (by subst hc; decide) hd)
  | dollarQuote hc htag hcut =>
    exact .dollarQuote hc (by rw [spanTag?_hard hr, htag, Option.map_some]) (cut?_append hcut)
  | dollar hc htag => exact .dollar hc (by rw [spanTag?_hard hr, htag, Option.map_none])
  | word hb hw h =>
    cases h
    have hspan := takeWhile_append_of_head cs (p := inWord) fun d hd =>
      hr.not_of (fun d h => by simp [mayFollow, h]) hd
    exact .word hb hw (Prod.ext hspan.1 hspan.2)
  | number hb hw hd h => exact .number hb hw hd (by rw [spanNumber_hard hr, h])
  | places hc hd h => exact .places hc (head?_any_append rest hd) (by rw [spanPlaces_hard hr, h])
  | mark hs hp hm =>
    refine .mark hs (fun hc => ?_) hm
    cases cs with
    | cons d cs => exact hp hc
    | nil =>
      cases rest with
      | nil => rfl
      | cons d rest => exact hr.isDigit rfl
  | operator hs hm ho h => exact .operator hs hm ho (by rw [spanOperator_hard hr, h])
  | other hs hm ho => exact .other hs hm ho

end

/-! ## Layout in front of a token -/

theorem spanLayoutFrom_other {c : Char} (h : startsComment (c :: cs) = false) :
    spanLayoutFrom .between (c :: cs) =
      if Text.isBlank c then prependLayout [c] (spanLayoutFrom .between cs)
      else .ok ([], c :: cs) := by
  rw [spanLayoutFrom.eq_def]
  split <;> try contradiction
  · next he => cases he; cases h
  · next he => cases he; cases h
  · next he => cases he; rfl

theorem spanLayoutFrom_inside {c : Char} (n : Nat) (h : c = '*' → cs.head? ≠ some '/') :
    spanLayoutFrom (.block n) (c :: cs) = prependLayout [c] (spanLayoutFrom (.block n) cs) := by
  rw [spanLayoutFrom.eq_def]
  split <;> try contradiction
  · next he => cases he; exact absurd rfl (h rfl)
  · next hp _ he => cases he; cases ‹LayoutPlace.block n = _›; rfl

theorem spanLayoutFrom_close (n : Nat) : spanLayoutFrom (.block n) ('*' :: '/' :: cs) =
    prependLayout ['*', '/'] (spanLayoutFrom .between cs) := by
  rw [spanLayoutFrom.eq_def]
  rfl

theorem spanLayoutFrom_line {c : Char} : spanLayoutFrom .line (c :: cs) =
    prependLayout [c] (spanLayoutFrom (if c = '\n' then .between else .line) cs) := by
  rw [spanLayoutFrom.eq_def]

theorem spanLayoutFrom_dashes : spanLayoutFrom .between ('-' :: '-' :: cs) =
    prependLayout ['-', '-'] (spanLayoutFrom .line cs) := by
  rw [spanLayoutFrom.eq_def]
  rfl

theorem spanLayoutFrom_open : spanLayoutFrom .between ('/' :: '*' :: cs) =
    prependLayout ['/', '*'] (spanLayoutFrom (.block (cs.length + 2)) cs) := by
  rw [spanLayoutFrom.eq_def]
  rfl

/-- Where a comment started only matters if it stays open. -/
theorem spanLayoutFrom_block {n : Nat} (m : Nat) {r : List Char × List Char}
    (h : spanLayoutFrom (.block n) cs = .ok r) : spanLayoutFrom (.block m) cs = .ok r := by
  induction cs generalizing r with
  | nil => cases h
  | cons c cs ih =>
    by_cases hc : c = '*' ∧ cs.head? = some '/'
    · obtain ⟨rfl, hd⟩ := hc
      obtain ⟨cs', rfl⟩ : ∃ cs', cs = '/' :: cs' := by
        cases cs with
        | nil => cases hd
        | cons d cs => cases hd; exact ⟨cs, rfl⟩
      rw [spanLayoutFrom_close] at h ⊢
      exact h
    · rw [spanLayoutFrom_inside _ fun h₁ h₂ => hc ⟨h₁, h₂⟩] at h ⊢
      obtain ⟨l, hl, he⟩ := prependLayout_eq_ok h
      rw [ih hl, ← h, hl]

theorem startsComment_eq_false {c : Char} (h₁ : ∀ cs', c = '-' → cs = '-' :: cs' → False)
    (h₂ : ∀ cs', c = '/' → cs = '*' :: cs' → False) : startsComment (c :: cs) = false := by
  unfold startsComment
  split
  · next he => cases he; exact (h₁ _ rfl rfl).elim
  · next he => cases he; exact (h₂ _ rfl rfl).elim
  · rfl

theorem startsComment_cons_cons (c d : Char) (cs : List Char) : startsComment (c :: d :: cs) =
    (c == '-' && d == '-' || c == '/' && d == '*') := by
  unfold startsComment
  split
  · next he => cases he; rfl
  · next he => cases he; rfl
  · next h₁ h₂ =>
    rw [eq_comm, Bool.eq_false_iff]
    intro h
    simp only [Bool.or_eq_true, Bool.and_eq_true, beq_iff_eq] at h
    rcases h with ⟨rfl, rfl⟩ | ⟨rfl, rfl⟩
    · exact h₁ _ rfl
    · exact h₂ _ rfl

/-- From a place on, the layout stands in front of a text that has none at its start. Where a block
    comment started does not matter, as it is closed. -/
inductive LayoutBefore : LayoutPlace → List Char → List Char → Prop
  | finish {place : LayoutPlace} (hp : ∀ n, place ≠ .block n) : LayoutBefore place [] []
  | stop {c : Char} {cs : List Char} (hc : startsComment (c :: cs) = false)
      (hb : Text.isBlank c = false) : LayoutBefore .between [] (c :: cs)
  | blank {c : Char} {lay rest : List Char} (hb : Text.isBlank c = true)
      (h : LayoutBefore .between lay rest) : LayoutBefore .between (c :: lay) rest
  | dashes {lay rest : List Char} (h : LayoutBefore .line lay rest) :
      LayoutBefore .between ('-' :: '-' :: lay) rest
  | line {c : Char} {lay rest : List Char} (hc : c ≠ '\n') (h : LayoutBefore .line lay rest) :
      LayoutBefore .line (c :: lay) rest
  | newline {lay rest : List Char} (h : LayoutBefore .between lay rest) :
      LayoutBefore .line ('\n' :: lay) rest
  | opened {n : Nat} {lay rest : List Char} (h : LayoutBefore (.block n) lay rest) :
      LayoutBefore .between ('/' :: '*' :: lay) rest
  | inside {n : Nat} {c : Char} {lay rest : List Char} (hc : c = '*' → lay.head? ≠ some '/')
      (h : LayoutBefore (.block n) lay rest) : LayoutBefore (.block n) (c :: lay) rest
  | closed {n : Nat} {lay rest : List Char} (h : LayoutBefore .between lay rest) :
      LayoutBefore (.block n) ('*' :: '/' :: lay) rest

/-- A block comment takes at least a character. -/
theorem LayoutBefore.ne_nil {n : Nat} (h : LayoutBefore (.block n) lay rest) : lay ≠ [] := by
  cases h with
  | finish hp => exact absurd rfl (hp n)
  | inside | closed => exact List.cons_ne_nil _ _

theorem LayoutBefore.head?_append {n : Nat} (h : LayoutBefore (.block n) lay rest)
    (cs : List Char) : (lay ++ cs).head? = lay.head? := by
  obtain ⟨c, lay, rfl⟩ := List.exists_cons_of_ne_nil h.ne_nil
  rfl

theorem startsComment_blank {c : Char} (hc : Text.isBlank c = true) (cs : List Char) :
    startsComment (c :: cs) = false := by
  have hf := mayFollow_hard (c := c) (by simp [isHard, hc])
  refine startsComment_eq_false ?_ ?_
  · rintro _ rfl -
    cases hf
  · rintro _ rfl -
    cases hf

theorem LayoutBefore.of_span {place : LayoutPlace}
    (h : spanLayoutFrom place cs = .ok (lay, rest)) : LayoutBefore place lay rest := by
  fun_induction spanLayoutFrom place cs generalizing lay with
  | case1 => cases h
  | case2 place hp =>
    cases h
    exact .finish hp
  | case3 cs ih =>
    obtain ⟨l, hl, rfl⟩ := prependLayout_eq_ok h
    exact .dashes (ih hl)
  | case4 cs ih =>
    obtain ⟨l, hl, rfl⟩ := prependLayout_eq_ok h
    exact .opened (ih hl)
  | case5 c cs h₁ h₂ hb ih =>
    obtain ⟨l, hl, rfl⟩ := prependLayout_eq_ok h
    exact .blank hb (ih hl)
  | case6 c cs h₁ h₂ hb =>
    cases h
    exact .stop (startsComment_eq_false h₁ h₂) (Bool.eq_false_iff.2 hb)
  | case7 c cs ih =>
    obtain ⟨l, hl, rfl⟩ := prependLayout_eq_ok h
    have hrest := ih hl
    split at hrest
    · next hc => exact hc ▸ .newline hrest
    · next hc => exact .line hc hrest
  | case8 n cs ih =>
    obtain ⟨l, hl, rfl⟩ := prependLayout_eq_ok h
    exact .closed (ih hl)
  | case9 n c cs hne ih =>
    obtain ⟨l, hl, rfl⟩ := prependLayout_eq_ok h
    have hrest := ih hl
    refine .inside (fun hc hd => ?_) hrest
    have hd : l.head? = some '/' := hd
    rw [← hrest.head?_append rest, ← eq_append_of_spanLayoutFrom hl] at hd
    cases cs with
    | nil => cases hd
    | cons d cs => cases hd; exact hne _ hc rfl

theorem LayoutBefore.span {place : LayoutPlace} (h : LayoutBefore place lay rest) :
    spanLayoutFrom place (lay ++ rest) = .ok (lay, rest) := by
  induction h with
  | @finish place hp =>
    cases place with
    | between | line => rfl
    | block n => exact absurd rfl (hp n)
  | stop hc hb => rw [List.nil_append, spanLayoutFrom_other hc, if_neg (Bool.eq_false_iff.1 hb)]
  | blank hb _ ih =>
    rw [List.cons_append, spanLayoutFrom_other (startsComment_blank hb _), if_pos hb, ih]
    rfl
  | dashes _ ih =>
    rw [List.cons_append, List.cons_append, spanLayoutFrom_dashes, ih]
    rfl
  | line hc _ ih =>
    rw [List.cons_append, spanLayoutFrom_line, if_neg hc, ih]
    rfl
  | newline _ ih =>
    rw [List.cons_append, spanLayoutFrom_line, if_pos rfl, ih]
    rfl
  | opened _ ih =>
    rw [List.cons_append, List.cons_append, spanLayoutFrom_open, spanLayoutFrom_block _ ih]
    rfl
  | inside hc h ih =>
    rw [List.cons_append, spanLayoutFrom_inside _ (by rwa [h.head?_append]), ih]
    rfl
  | closed _ ih =>
    rw [List.cons_append, List.cons_append, spanLayoutFrom_close, ih]
    rfl

/-- The layout in front of a token does not depend on what comes after the token. -/
theorem LayoutBefore.hard (hr : Hard rest) {place : LayoutPlace} {d : Char} {more : List Char}
    (h : LayoutBefore place lay (d :: more)) : LayoutBefore place lay (d :: (more ++ rest)) := by
  generalize hfollow : d :: more = follow at h
  induction h with
  | finish => cases hfollow
  | stop hc hb =>
    cases hfollow
    have hs := startsComment_hard hr (List.cons_ne_nil d more)
    rw [hc] at hs
    exact .stop hs hb
  | blank hb _ ih => exact .blank hb (ih hfollow)
  | dashes _ ih => exact .dashes (ih hfollow)
  | line hc _ ih => exact .line hc (ih hfollow)
  | newline _ ih => exact .newline (ih hfollow)
  | opened _ ih => exact .opened (ih hfollow)
  | inside hc _ ih => exact .inside hc (ih hfollow)
  | closed _ ih => exact .closed (ih hfollow)

/-- What follows a layout has none of its own. -/
theorem LayoutBefore.after {place : LayoutPlace} (h : LayoutBefore place lay rest) :
    LayoutBefore .between [] rest := by
  induction h with
  | finish => exact .finish nofun
  | stop hc hb => exact .stop hc hb
  | _ => assumption

/-! ## Tokens before a hard character -/

theorem Stands.hard (hr : Hard rest) (h : t.Stands follow) : t.Stands (follow ++ rest) := by
  obtain ⟨hl, c, tail, ht, hx⟩ := h
  refine ⟨?_, c, tail, ht, ?_⟩
  · rw [ht, List.cons_append] at hl ⊢
    have hbefore := (LayoutBefore.of_span hl).hard hr
    rw [List.append_assoc] at hbefore
    exact hbefore.span
  · have := lexeme_hard hr hx
    rwa [List.append_assoc] at this

/-- Tokens that rescan at the end of a text also do so before a hard character. -/
theorem Rescans.hard (hr : Hard rest) (h : Rescans ts []) : Rescans ts rest := by
  induction ts with
  | nil => trivial
  | cons t ts ih =>
    refine ⟨?_, ih h.2⟩
    have := h.1.hard hr
    rwa [List.append_nil] at this

/-! ## Changing the layout -/

/-- A layout that is split off as a whole in front of every text. -/
def IsLayout (lay : List Char) : Prop :=
  ∀ cs, spanLayout (lay ++ cs) = prependLayout lay (spanLayout cs)

theorem prependLayout_append (a b : List Char) (r : Except OpenEnd (List Char × List Char)) :
    prependLayout (a ++ b) r = prependLayout a (prependLayout b r) := by
  cases r with
  | error e => rfl
  | ok r => simp [prependLayout, Except.map]

theorem isLayout_nil : IsLayout [] := by
  intro cs
  rw [List.nil_append]
  cases spanLayout cs <;> rfl

theorem IsLayout.append {a b : List Char} (ha : IsLayout a) (hb : IsLayout b) :
    IsLayout (a ++ b) := by
  intro cs
  rw [List.append_assoc, ha, hb, prependLayout_append]

theorem isLayout_blank {c : Char} (hc : Text.isBlank c = true) : IsLayout [c] := by
  intro cs
  rw [List.singleton_append, spanLayout, spanLayoutFrom_other (startsComment_blank hc cs), if_pos hc]
  rfl

/-- Blanks are layout. -/
theorem isLayout_blanks (h : ∀ c ∈ lay, Text.isBlank c = true) : IsLayout lay := by
  induction lay with
  | nil => exact isLayout_nil
  | cons c lay ih =>
    exact (isLayout_blank (h c List.mem_cons_self)).append
      (ih fun d hd => h d (List.mem_cons_of_mem c hd))

theorem spanLayoutFrom_line_append {body : List Char} (h : '\n' ∉ body) :
    spanLayoutFrom .line (body ++ '\n' :: cs) = prependLayout (body ++ ['\n']) (spanLayout cs) := by
  induction body with
  | nil => rw [List.nil_append, spanLayoutFrom_line, if_pos rfl]; rfl
  | cons c body ih =>
    rw [List.mem_cons, not_or] at h
    rw [List.cons_append, spanLayoutFrom_line, if_neg (Ne.symm h.1), ih h.2, ← prependLayout_append]
    rfl

/-- A comment line is layout. -/
theorem isLayout_comment {body : List Char} (h : '\n' ∉ body) :
    IsLayout ('-' :: '-' :: (body ++ ['\n'])) := by
  intro cs
  simp only [List.cons_append, List.append_assoc, List.nil_append, spanLayout]
  rw [spanLayoutFrom_dashes, spanLayoutFrom_line_append h, ← prependLayout_append]
  rfl

/-- The tokens with more layout in front of the first one. -/
def indent (lay : List Char) : List Token → List Token
  | [] => []
  | t :: ts => { t with layout := lay ++ t.layout } :: ts

theorem fullText_indent (hne : ts ≠ []) : fullText (indent lay ts) = lay ++ fullText ts := by
  cases ts with
  | nil => exact absurd rfl hne
  | cons t ts => simp [indent]

theorem Stands.indent (hl : IsLayout lay) (h : t.Stands follow) :
    Stands { t with layout := lay ++ t.layout } follow := by
  refine ⟨?_, h.lexeme⟩
  show spanLayout (lay ++ t.layout ++ (t.text ++ follow)) = _
  rw [List.append_assoc, hl, h.layout]
  rfl

theorem Rescans.indent (hl : IsLayout lay) (h : Rescans ts rest) :
    Rescans (indent lay ts) rest := by
  cases ts with
  | nil => trivial
  | cons t ts => exact ⟨h.1.indent hl, h.2⟩

/-! ## Single tokens -/

/-- A lexeme whose first character starts no layout stands behind every layout. -/
theorem stands_of_lexed {c : Char} {tail : List Char} {kind : TokenKind} (hl : IsLayout lay)
    (hb : Text.isBlank c = false) (hd : c ≠ '-') (hs : c ≠ '/')
    (hx : Lexed c (tail ++ follow) kind tail follow) : Stands ⟨kind, c :: tail, lay⟩ follow := by
  refine ⟨?_, c, tail, rfl, lexeme_eq_ok_iff.2 hx⟩
  have hc : startsComment (c :: (tail ++ follow)) = false :=
    startsComment_eq_false (fun _ h _ => hd h) (fun _ h _ => hs h)
  have : spanLayout (c :: (tail ++ follow)) = .ok ([], c :: (tail ++ follow)) := by
    rw [spanLayout, spanLayoutFrom_other hc, hb]
    rfl
  show spanLayout (lay ++ (c :: (tail ++ follow))) = .ok (lay, c :: (tail ++ follow))
  rw [hl, this]
  simp [prependLayout, Except.map]

/-- Words stand before every character that is not part of a word. -/
theorem stands_word {c : Char} {tail : List Char} (hl : IsLayout lay) (hc : startsWord c = true)
    (ht : ∀ d ∈ tail, inWord d = true) (hf : ∀ d, follow.head? = some d → inWord d = false) :
    Stands ⟨.word, c :: tail, lay⟩ follow := by
  have hw : inWord c = true := by simp [inWord, inTag, hc]
  have hne : ∀ d, inWord d = false → c ≠ d := by
    rintro _ hd rfl
    rw [hw] at hd
    cases hd
  have hq : ∀ d, startsWord d = false → c ≠ d := by
    rintro _ hd rfl
    rw [hc] at hd
    cases hd
  have hb : Text.isBlank c = false := by
    rw [Bool.eq_false_iff]
    intro hb
    have := mayFollow_hard (c := c) (by simp [isHard, hb])
    simp [mayFollow, hw] at this
  have hsplit := takeWhile_append_of_head [] (p := inWord) hf
  simp only [List.nil_append, List.takeWhile_nil, List.dropWhile_nil] at hsplit
  refine stands_of_lexed hl hb (hne _ (by decide)) (hne _ (by decide)) (.word ?_ hc ?_)
  · exact ⟨hq _ (by decide), hq _ (by decide), hq _ (by decide)⟩
  · rw [List.takeWhile_append_of_pos ht, List.dropWhile_append_of_pos ht, hsplit.1, hsplit.2,
      List.append_nil]

theorem closeQuote?_double {q : Char} (cs : List Char)
    (hf : ∀ c, follow.head? = some c → c ≠ q) :
    closeQuote? q (Text.double q cs ++ q :: follow) = some (Text.double q cs ++ [q], follow) := by
  induction cs with
  | nil =>
    cases follow with
    | nil => simp [Text.double, closeQuote?]
    | cons c follow => simp [Text.double, closeQuote?, hf c rfl]
  | cons c cs ih =>
    by_cases hc : c = q
    · subst hc
      simp [Text.double, closeQuote?, ih]
    · have hne : Text.double q cs ++ q :: follow ≠ [] := by simp
      obtain ⟨d, ds, hd⟩ := List.exists_cons_of_ne_nil hne
      rw [hd] at ih
      simp [Text.double, hc, hd, closeQuote?, ih]

/-- A quoted name stands before everything but another quote. -/
theorem stands_quoted (hl : IsLayout lay) (name : List Char)
    (hf : ∀ c, follow.head? = some c → c ≠ '"') :
    Stands ⟨.quoted, Quote.encloseName name, lay⟩ follow := by
  refine stands_of_lexed hl (by decide) (by decide) (by decide) (.name rfl ?_)
  rw [List.append_assoc, List.singleton_append, closeQuote?_double name hf]

/-- A literal stands before everything but another quote. -/
theorem stands_literal (hl : IsLayout lay) (text : List Char)
    (hf : ∀ c, follow.head? = some c → c ≠ '\'') :
    Stands ⟨.string, Quote.literalList text, lay⟩ follow := by
  refine stands_of_lexed hl (by decide) (by decide) (by decide) (.literal rfl ?_)
  rw [List.append_assoc, List.singleton_append, closeQuote?_double text hf]

/-- A mark stands before everything; a point only before what does not continue a number. -/
theorem stands_mark {c : Char} (hl : IsLayout lay) (hc : isMark c = true)
    (hf : c = '.' → ∀ d, follow.head? = some d → Text.isDigit d = false) :
    Stands ⟨.punct, [c], lay⟩ follow := by
  have hmem : c ∈ ['(', ')', ',', ';', '.', '[', ']'] := by simpa [isMark] using hc
  obtain ⟨hb, hd, hs, hsign⟩ : Text.isBlank c = false ∧ c ≠ '-' ∧ c ≠ '/' ∧ Sign c := by
    simp only [List.mem_cons, List.not_mem_nil, or_false] at hmem
    rcases hmem with rfl | rfl | rfl | rfl | rfl | rfl | rfl
    all_goals exact ⟨by decide, by decide, by decide, ⟨by decide, by decide, by decide⟩,
      by decide, by decide⟩
  refine stands_of_lexed hl hb hd hs (.mark hsign (fun hpoint => ?_) hc)
  cases follow with
  | nil => rfl
  | cons d follow => exact hf hpoint d rfl

end Schemata.Token
