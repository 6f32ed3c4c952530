/-
  Scanning a document without its comments.

  * Stripping goes through a document token by token: what stands in front of a token is stripped by
    itself (`strip_append`) and the text of a token is kept (`stripFrom_text`), a literal between
    dollar tags apart;
  * what is left of a layout is blank, and there is something left of it if there was a layout
    (`LayoutBefore.isBlank`, `strip_ne_nil`): the tokens rescan (`Rescans.stripped`);
  * `scanList_strip`, `scan_strip`: without such literals, a document without its comments has the
    same tokens, each with what is left of its layout.
-/
import Schemata.Comment
import Schemata.Proofs.Cutting
import Schemata.Proofs.Seams

namespace Schemata.Token

open Comment (stripFrom Place)

variable {t : Token} {ts : List Token} {c : Char} {cs lay text follow rest : List Char}

/-! ## Layout without comments -/

/-- The place in the layout as a place in a text. -/
def LayoutPlace.inText : LayoutPlace → Place
  | between => .text
  | line => .line
  | block _ => .block

theorem stripFrom_cons (h : startsComment (c :: cs) = false) : stripFrom .text (c :: cs) =
    c :: stripFrom (if c = '\'' ∨ c = '"' then .quoted c else .text) cs := by
  rw [Comment.stripFrom.eq_def]
  split <;> try contradiction
  · next he => cases he; cases h
  · next he => cases he; cases h
  · next he => cases he; rfl

theorem startsComment_of_ne (hd : c ≠ '-') (hs : c ≠ '/') (cs : List Char) :
    startsComment (c :: cs) = false :=
  startsComment_eq_false (fun _ h _ => hd h) fun _ h _ => hs h

theorem stripFrom_blank (hc : Text.isBlank c = true) (cs : List Char) :
    stripFrom .text (c :: cs) = c :: stripFrom .text cs := by
  have hf := mayFollow_hard (c := c) (by simp [isHard, hc])
  have hne {d : Char} (hd : mayFollow d = true) : c ≠ d := by
    rintro rfl
    rw [hf] at hd
    cases hd
  rw [stripFrom_cons (startsComment_of_ne (hne rfl) (hne rfl) cs),
    if_neg (not_or.2 ⟨hne rfl, hne rfl⟩)]

theorem stripFrom_line (c : Char) (cs : List Char) : stripFrom .line (c :: cs) =
    if c = '\n' then c :: stripFrom .text cs else stripFrom .line cs := by
  rw [stripFrom]

theorem stripFrom_inside (h : c = '*' → cs.head? ≠ some '/') :
    stripFrom .block (c :: cs) = stripFrom .block cs := by
  rw [Comment.stripFrom.eq_def]
  split <;> try contradiction
  · next he => cases he; exact absurd rfl (h rfl)
  · next he => cases he; rfl

theorem stripFrom_nil (place : Place) : stripFrom place [] = [] := by
  rw [stripFrom]

/-- The layout in front of a token is stripped by itself. -/
theorem LayoutBefore.strip_append {place : LayoutPlace} {d : Char} {more : List Char}
    (h : LayoutBefore place lay (d :: more)) : stripFrom place.inText (lay ++ d :: more) =
      stripFrom place.inText lay ++ stripFrom .text (d :: more) := by
  generalize hrest : d :: more = rest at h
  induction h with
  | finish => cases hrest
  | stop => rfl
  | blank hb _ ih =>
    show stripFrom .text _ = stripFrom .text _ ++ _
    rw [List.cons_append, stripFrom_blank hb, stripFrom_blank hb, List.cons_append]
    exact congrArg (_ :: ·) (ih hrest)
  | dashes _ ih => exact ih hrest
  | line hc _ ih =>
    show stripFrom .line _ = stripFrom .line _ ++ _
    rw [List.cons_append, stripFrom_line, stripFrom_line, if_neg hc, if_neg hc]
    exact ih hrest
  | newline _ ih =>
    show stripFrom .line _ = stripFrom .line _ ++ _
    rw [List.cons_append, stripFrom_line, stripFrom_line, if_pos rfl, if_pos rfl]
    exact congrArg ('\n' :: ·) (ih hrest)
  | opened _ ih => exact congrArg (' ' :: ·) (ih hrest)
  | inside hc h ih =>
    show stripFrom .block _ = stripFrom .block _ ++ _
    rw [List.cons_append, stripFrom_inside hc, stripFrom_inside (by rwa [h.head?_append])]
    exact ih hrest
  | closed _ ih => exact ih hrest

/-- Only blanks are left of a layout. -/
theorem LayoutBefore.isBlank {place : LayoutPlace} (h : LayoutBefore place lay rest) :
    ∀ c ∈ stripFrom place.inText lay, Text.isBlank c = true := by
  induction h with
  | finish =>
    rw [stripFrom_nil]
    exact List.forall_mem_nil _
  | stop => exact List.forall_mem_nil _
  | @blank c lay _ hb _ ih =>
    show ∀ d ∈ stripFrom .text (c :: lay), _
    rw [stripFrom_blank hb]
    exact List.forall_mem_cons.2 ⟨hb, ih⟩
  | dashes _ ih => exact ih
  | @line c lay _ hc _ ih =>
    show ∀ d ∈ stripFrom .line (c :: lay), _
    rw [stripFrom_line, if_neg hc]
    exact ih
  | @newline lay _ _ ih =>
    show ∀ d ∈ stripFrom .line ('\n' :: lay), _
    rw [stripFrom_line, if_pos rfl]
    exact List.forall_mem_cons.2 ⟨by decide, ih⟩
  | opened _ ih => exact List.forall_mem_cons.2 ⟨by decide, ih⟩
  | @inside _ c lay _ hc _ ih =>
    show ∀ d ∈ stripFrom .block (c :: lay), _
    rw [stripFrom_inside hc]
    exact ih
  | closed _ ih => exact ih

/-- Something is left of a line comment in front of a token. -/
theorem LayoutBefore.strip_line {d : Char} {more : List Char}
    (h : LayoutBefore .line lay (d :: more)) : stripFrom .line lay ≠ [] := by
  generalize hplace : LayoutPlace.line = place at h
  generalize hrest : d :: more = rest at h
  induction h with
  | finish => cases hrest
  | line hc _ ih =>
    rw [stripFrom_line, if_neg hc]
    exact ih hplace hrest
  | newline =>
    rw [stripFrom_line, if_pos rfl]
    exact List.cons_ne_nil _ _
  | _ => cases hplace

/-- Something is left of a layout in front of a token. -/
theorem LayoutBefore.strip_ne_nil {d : Char} {more : List Char}
    (h : LayoutBefore .between lay (d :: more)) (hne : lay ≠ []) : stripFrom .text lay ≠ [] := by
  cases h with
  | stop => exact absurd rfl hne
  | blank hb =>
    rw [stripFrom_blank hb]
    exact List.cons_ne_nil _ _
  | dashes h => exact h.strip_line
  | opened => exact List.cons_ne_nil _ _

/-! ## Tokens without comments -/

/-- The token with its layout without comments. -/
def stripped (t : Token) : Token := { t with layout := stripFrom .text t.layout }

@[simp] theorem stripped_isKeyword (w : String) : t.stripped.isKeyword w = t.isKeyword w := rfl

@[simp] theorem stripped_isPunct (c : Char) : t.stripped.isPunct c = t.isPunct c := rfl

@[simp] theorem stripped_isIdentifier : t.stripped.isIdentifier = t.isIdentifier := rfl

@[simp] theorem stripped_identifier : t.stripped.identifier = t.identifier := rfl

/-- What is left of the layout in front of a token is layout. -/
theorem isLayout_stripped (h : t.Stands follow) : IsLayout t.stripped.layout :=
  isLayout_blanks (LayoutBefore.of_span h.layout).isBlank

/-- What is left of a layout starts with a blank. -/
theorem hard_stripped (h : t.Stands follow) (hne : t.layout ≠ []) (cs : List Char) :
    Hard (t.stripped.layout ++ cs) := by
  obtain ⟨c, tail, htext, -⟩ := h.lexeme
  have hlayout := h.layout
  rw [htext, List.cons_append] at hlayout
  have hleft : t.stripped.layout ≠ [] := (LayoutBefore.of_span hlayout).strip_ne_nil hne
  obtain ⟨d, left, hd⟩ := List.exists_cons_of_ne_nil hleft
  intro e he
  rw [hd, List.cons_append, List.head?_cons, Option.some.injEq] at he
  have hmem : d ∈ t.stripped.layout := hd ▸ List.mem_cons_self
  have hblank := (LayoutBefore.of_span h.layout).isBlank d hmem
  rw [← he, isHard, hblank, Bool.true_or]

/-- A token also stands behind what is left of its layout. -/
theorem Stands.stripped {follow' : List Char} (h : t.Stands follow) (h' : t.Stands follow') :
    t.stripped.Stands follow' := by
  have hbare : Stands { t with layout := [] } follow' := ⟨h'.layout_text, h'.lexeme⟩
  have hindent := hbare.indent (isLayout_stripped h)
  rwa [List.append_nil] at hindent

/-- What follows a token is the same with and without comments, up to a layout. -/
theorem exists_common {rest' : List Char} (h : Rescans ts rest) (hr : Hard rest') :
    ∃ p r r', fullText ts ++ rest = p ++ r ∧ fullText (ts.map stripped) ++ rest' = p ++ r' ∧
      Hard r' ∧ (p = [] ∨ startsComment (p ++ r) = startsComment p) := by
  induction ts with
  | nil => exact ⟨[], rest, rest', rfl, rfl, hr, .inl rfl⟩
  | cons u us ih =>
    by_cases hl : u.layout = []
    · obtain ⟨p, r, r', hrest, hrest', hhard, -⟩ := ih h.2
      have hleft : u.stripped.layout = [] := by rw [Token.stripped, hl, stripFrom_nil]
      refine ⟨u.text ++ p, r, r', ?_, ?_, hhard, .inr ?_⟩
      · rw [fullText_cons, hl, List.nil_append, List.append_assoc, hrest, List.append_assoc]
      · rw [List.map_cons, fullText_cons, hleft, List.nil_append, List.append_assoc, hrest',
          List.append_assoc]
        rfl
      · have hstands := h.1
        rw [hrest] at hstands
        have hcomment := hstands.startsComment_append
        rwa [hl, List.nil_append] at hcomment
    · refine ⟨[], fullText (u :: us) ++ rest, fullText ((u :: us).map Token.stripped) ++ rest', rfl,
        rfl, ?_, .inl rfl⟩
      have happend : fullText ((u :: us).map Token.stripped) ++ rest' =
          u.stripped.layout ++ (u.text ++ fullText (us.map Token.stripped) ++ rest') := by
        rw [List.map_cons, fullText_cons, List.append_assoc]
        rfl
      rw [happend]
      exact hard_stripped h.1 hl _

/-- **Tokens without comments.** Tokens that rescan do so without their comments. -/
theorem Rescans.stripped {rest' : List Char} (h : Rescans ts rest) (hr : Hard rest') :
    Rescans (ts.map stripped) rest' := by
  induction ts with
  | nil => trivial
  | cons t ts ih =>
    refine ⟨?_, ih h.2⟩
    obtain ⟨p, r, r', hrest, hrest', hhard, hcomment⟩ := exists_common h.2 hr
    have hstands := h.1
    rw [hrest] at hstands
    rw [hrest']
    exact hstands.stripped ((hstands.cut hcomment).hard hhard)

/-! ## Texts of tokens -/

/-- A character that neither opens a quote nor starts a comment. -/
def isSafe (c : Char) : Bool := !(['-', '/', '\'', '"'].contains c)

theorem stripFrom_safe (hc : isSafe c = true) (cs : List Char) :
    stripFrom .text (c :: cs) = c :: stripFrom .text cs := by
  simp only [isSafe, Bool.not_eq_true', List.contains_eq_mem, List.mem_cons, List.not_mem_nil,
    or_false, decide_eq_false_iff_not, not_or] at hc
  rw [stripFrom_cons (startsComment_of_ne hc.1 hc.2.1 cs), if_neg (not_or.2 ⟨hc.2.2.1, hc.2.2.2⟩)]

theorem stripFrom_safes (h : ∀ c ∈ text, isSafe c = true) (cs : List Char) :
    stripFrom .text (text ++ cs) = text ++ stripFrom .text cs := by
  induction text with
  | nil => rfl
  | cons c text ih =>
    rw [List.forall_mem_cons] at h
    rw [List.cons_append, stripFrom_safe h.1, ih h.2, List.cons_append]

theorem isSafe_of {p : Char → Bool} (hp : ['-', '/', '\'', '"'].any p = false)
    (h : p c = true) : isSafe c = true := by
  rw [isSafe, Bool.not_eq_true', Bool.eq_false_iff]
  intro hc
  have hany := List.any_eq_true.2 ⟨c, List.contains_iff_mem.1 hc, h⟩
  rw [hp] at hany
  cases hany

theorem stripFrom_spanDigits (cs : List Char) :
    stripFrom .text cs = (spanDigits cs).1 ++ stripFrom .text (spanDigits cs).2 := by
  have h : ∀ c ∈ (spanDigits cs).1, isSafe c = true := fun c hc =>
    isSafe_of (by decide) (List.mem_takeWhile_imp hc)
  rw [← stripFrom_safes h, spanDigits_append]

theorem stripFrom_spanFraction (cs : List Char) :
    stripFrom .text cs = (spanFraction cs).1 ++ stripFrom .text (spanFraction cs).2 := by
  unfold spanFraction
  split
  · next rest =>
    rw [stripFrom_safe (by decide), stripFrom_spanDigits rest]
    rfl
  · rfl

/-- A sign before a digit starts no comment. -/
theorem stripFrom_sign {s : Char} (hs : s = '+' ∨ s = '-') (hne : (spanDigits cs).1 ≠ []) :
    stripFrom .text (s :: cs) = s :: stripFrom .text cs := by
  have hcomment : startsComment (s :: cs) = false := by
    refine startsComment_eq_false ?_ ?_
    · rintro cs' - rfl
      exact hne rfl
    · rintro _ rfl -
      rcases hs with hs | hs <;> cases hs
  have hquote : ¬(s = '\'' ∨ s = '"') := by
    rcases hs with rfl | rfl <;> decide
  rw [stripFrom_cons hcomment, if_neg hquote]

theorem stripFrom_spanExponent (cs : List Char) :
    stripFrom .text cs = (spanExponent cs).1 ++ stripFrom .text (spanExponent cs).2 := by
  unfold spanExponent
  split
  · next e rest =>
    split
    · next he =>
      have hsafe : isSafe e = true := by
        rcases he with rfl | rfl <;> decide
      split
      · next s rest' =>
        split
        · next hs =>
          dsimp only
          split
          · rfl
          · next hne =>
            rw [List.isEmpty_iff] at hne
            rw [stripFrom_safe hsafe, stripFrom_sign hs hne, stripFrom_spanDigits rest']
            rfl
        · dsimp only
          split
          · rfl
          · rw [stripFrom_safe hsafe, stripFrom_spanDigits]
            rfl
      · rfl
    · rfl
  · rfl

theorem stripFrom_spanPlaces (cs : List Char) :
    stripFrom .text cs = (spanPlaces cs).1 ++ stripFrom .text (spanPlaces cs).2 := by
  rw [stripFrom_spanDigits, stripFrom_spanExponent, spanPlaces, List.append_assoc]

theorem stripFrom_spanNumber (cs : List Char) :
    stripFrom .text cs = (spanNumber cs).1 ++ stripFrom .text (spanNumber cs).2 := by
  rw [stripFrom_spanDigits, stripFrom_spanFraction, stripFrom_spanExponent, spanNumber,
    List.append_assoc, List.append_assoc]

/-- Quotes are kept up to the closing one. -/
theorem stripFrom_closeQuote? {q : Char} (hq : q = '\'' ∨ q = '"')
    (h : closeQuote? q cs = some (text, rest)) :
    stripFrom (.quoted q) cs = text ++ stripFrom .text rest := by
  have hquoted (c : Char) (cs : List Char) : stripFrom (.quoted q) (c :: cs) =
      c :: stripFrom (if c = q then .text else .quoted q) cs := by rw [stripFrom]
  have hopen (cs : List Char) : stripFrom .text (q :: cs) = q :: stripFrom (.quoted q) cs := by
    have hne {d : Char} (hd : isSafe d = false) (hd' : d ≠ '\'' ∧ d ≠ '"') : q ≠ d := by
      rintro rfl
      exact hq.elim hd'.1 hd'.2
    rw [stripFrom_cons (startsComment_of_ne (hne (by decide) (by decide))
      (hne (by decide) (by decide)) cs), if_pos hq]
  fun_induction closeQuote? q cs generalizing text with
  | case1 => cases h
  | case2 =>
    cases h
    rw [hquoted, if_pos rfl]
    rfl
  | case3 => cases h
  | case4 cs ih =>
    obtain ⟨⟨b, r⟩, hb, he⟩ := Option.map_eq_some_iff.1 h
    cases he
    rw [hquoted, if_pos rfl, hopen, ih hb]
    rfl
  | case5 =>
    cases h
    rw [hquoted, if_pos rfl]
    rfl
  | case6 c d cs hc ih =>
    obtain ⟨⟨b, r⟩, hb, he⟩ := Option.map_eq_some_iff.1 h
    cases he
    rw [hquoted, if_neg hc, ih hb]
    rfl

theorem stripFrom_spanOperator (cs : List Char) :
    stripFrom .text cs = (spanOperator cs).1 ++ stripFrom .text (spanOperator cs).2 := by
  induction cs with
  | nil => rfl
  | cons c cs ih =>
    rw [spanOperator]
    split
    · next hc =>
      simp only [Bool.and_eq_true, Bool.not_eq_true'] at hc
      have hquote : ¬(c = '\'' ∨ c = '"') := by
        rintro (rfl | rfl) <;> cases hc.1
      rw [stripFrom_cons hc.2, if_neg hquote, ih]
      rfl
    · rfl

theorem stripFrom_lexeme {kind : TokenKind} {tail : List Char}
    (h : lexeme c cs = .ok (kind, c :: tail, rest)) (hcomment : startsComment (c :: cs) = false)
    (hdollar : kind = .string → c ≠ '$') :
    stripFrom .text (c :: cs) = c :: tail ++ stripFrom .text rest := by
  have hbare (hne : ¬(c = '\'' ∨ c = '"')) : stripFrom .text (c :: cs) = c :: stripFrom .text cs := by
    rw [stripFrom_cons hcomment, if_neg hne]
  rw [List.cons_append]
  cases lexeme_eq_ok_iff.1 h with
  | literal hc hq =>
    subst hc
    rw [stripFrom_cons hcomment, if_pos (.inl rfl), stripFrom_closeQuote? (.inl rfl) hq]
  | name hc hq =>
    subst hc
    rw [stripFrom_cons hcomment, if_pos (.inr rfl), stripFrom_closeQuote? (.inr rfl) hq]
  | dollarQuote hc => exact absurd hc (hdollar rfl)
  | dollar hc => exact hbare (by subst hc; decide)
  | word hb hw h =>
    cases h
    have hword : ∀ d ∈ cs.takeWhile inWord, isSafe d = true := fun d hd =>
      isSafe_of (by decide) (List.mem_takeWhile_imp hd)
    rw [hbare (not_or.2 ⟨hb.quote, hb.doubleQuote⟩), ← stripFrom_safes hword,
      List.takeWhile_append_dropWhile]
  | number hb hw hd h =>
    rw [hbare (not_or.2 ⟨hb.quote, hb.doubleQuote⟩), stripFrom_spanNumber cs, h]
  | places hc hd h =>
    rw [hbare (by subst hc; decide), stripFrom_spanPlaces cs, h]
  | mark hs => exact hbare (not_or.2 ⟨hs.quote, hs.doubleQuote⟩)
  | operator hs hm ho h =>
    rw [hbare (not_or.2 ⟨hs.quote, hs.doubleQuote⟩), stripFrom_spanOperator cs, h]
  | other hs => exact hbare (not_or.2 ⟨hs.quote, hs.doubleQuote⟩)

/-- The text of a token is no comment. -/
theorem stripFrom_text (h : t.Stands follow) (hd : t.isDollarQuoted = false) :
    stripFrom .text (t.text ++ follow) = t.text ++ stripFrom .text follow := by
  have hcomment := h.startsComment
  obtain ⟨-, c, tail, htext, hx⟩ := h
  rw [htext] at hcomment hx ⊢
  refine stripFrom_lexeme hx hcomment ?_
  rintro hkind rfl
  rw [isDollarQuoted, htext, hkind] at hd
  cases hd

/-! ## Documents without comments -/

variable {closing : List Char}

/-- Stripping a run of tokens strips their layouts. -/
theorem stripFrom_fullText (h : Rescans ts closing) (hd : ∀ t ∈ ts, t.isDollarQuoted = false) :
    stripFrom .text (fullText ts ++ closing) =
      fullText (ts.map stripped) ++ stripFrom .text closing := by
  induction ts with
  | nil => rfl
  | cons t ts ih =>
    rw [List.forall_mem_cons] at hd
    obtain ⟨c, tail, htext, -⟩ := h.1.lexeme
    have hlayout := h.1.layout
    rw [htext, List.cons_append] at hlayout
    have hstrip : stripFrom .text (t.layout ++ (t.text ++ (fullText ts ++ closing))) =
        stripFrom .text t.layout ++ stripFrom .text (t.text ++ (fullText ts ++ closing)) := by
      rw [htext, List.cons_append]
      exact (LayoutBefore.of_span hlayout).strip_append
    rw [fullText_cons, List.append_assoc, List.append_assoc, hstrip, stripFrom_text h.1 hd.1,
      ih h.2 hd.2, List.map_cons, fullText_cons, List.append_assoc, List.append_assoc]
    rfl

/-- What is left of the layout at the end of a document is blank. -/
theorem isBlank_of_closing (h : scanList closing = .ok ([], closing)) :
    ∀ c ∈ stripFrom .text closing, Text.isBlank c = true := by
  rw [scanList] at h
  split at h
  · cases h
  · next hlayout =>
    cases h
    exact (LayoutBefore.of_span hlayout).isBlank
  · split at h
    · cases h
    · obtain ⟨x, -, hx⟩ := except_map_eq_ok h
      cases hx

theorem hard_of_blanks (h : ∀ c ∈ lay, Text.isBlank c = true) : Hard lay := by
  intro c hc
  rw [isHard, h c (List.mem_of_mem_head? hc), Bool.true_or]

theorem scanList_blanks (h : ∀ c ∈ lay, Text.isBlank c = true) : scanList lay = .ok ([], lay) := by
  have hspan : spanLayout lay = .ok (lay, []) := by
    have hlayout := isLayout_blanks h []
    rw [List.append_nil] at hlayout
    rw [hlayout]
    exact congrArg (fun l => Except.ok (l, [])) (List.append_nil lay)
  rw [scanList_eq, hspan]
  rfl

/-- Without dollar-quoted literals, what is left of a text has the tokens of the text, each with what
    is left of its layout. -/
theorem scanList_strip (h : scanList cs = .ok (ts, closing))
    (hd : ∀ t ∈ ts, t.isDollarQuoted = false) :
    scanList (stripFrom .text cs) = .ok (ts.map stripped, stripFrom .text closing) := by
  obtain ⟨hrescans, hclosing⟩ := rescans_of_scanList h
  have hblanks := isBlank_of_closing hclosing
  have hstrip : stripFrom .text cs = fullText (ts.map stripped) ++ stripFrom .text closing := by
    rw [← stripFrom_fullText hrescans hd, fullText_append_of_scanList h]
  rw [hstrip, scanList_append (hrescans.stripped (hard_of_blanks hblanks)), scanList_blanks hblanks]
  simp [Except.map, prepend]

/-- **Documents without comments.** Without dollar-quoted literals, a document without its
    comments has the tokens it has with them, each without the comments before it. -/
theorem scan_strip {s : String} (h : scan s = .ok ts) (hd : ∀ t ∈ ts, t.isDollarQuoted = false) :
    scan (Comment.strip s) = .ok (ts.map stripped) := by
  rw [scan] at h
  obtain ⟨⟨ts', closing⟩, hlist, rfl⟩ := except_map_eq_ok h
  rw [scan, Comment.strip, String.toList_ofList, scanList_strip hlist hd]
  rfl

end Schemata.Token
