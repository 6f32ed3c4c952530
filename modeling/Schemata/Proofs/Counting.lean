/-
  What counts in a scanned document.

  * a text is `Quiet` if it starts and ends outside quotes and no parenthesis, comma or semicolon
    counts in it; splitting it and searching in it for the end of a group pass over it;
  * a token is a text between quotes, a single character or a run of such characters as tokens run
    over (`Stands.text_cases`), a literal between dollar tags apart; so it is one of those marks, or it
    is quiet (`Stands.quiet`);
  * tokens are `Clear` if only blanks stand around them and none is between dollar tags.  Then the
    text is split, and the end of a group is found, only at a token that is that mark
    (`Clear.piecesFrom_pass`, `Clear.piecesFrom_stop`, `Clear.closing?_pass`, `Clear.closing?_stop`);
  * `clear_of_scan`: so are the tokens of a document that stripping leaves alone.
-/
import Schemata.Proofs.CommentFree
import Schemata.Proofs.Joining
import Schemata.Proofs.Quoting

namespace Schemata

namespace Nesting

variable {isSeparator : Char → Bool} {q : Quotes} {d : Int} {c : Char} {cs rest : List Char}

/-! ## Searching the end of a group -/

theorem closing?_cons (q : Quotes) (d : Int) (c : Char) (cs : List Char) :
    closing? q d (c :: cs) = if q.counts c && c == ')' && d == 1 then some 0
      else (closing? (q.next c) (d + depth q [c]) cs).map (· + 1) := by
  rw [closing?, add_depth_singleton]

/-- Where no parenthesis closes the outermost group, the search goes on behind the text. -/
theorem closing?_append (h : Whole (· == ')') q (d - 1) cs) (rest : List Char) :
    closing? q d (cs ++ rest) =
      (closing? (q.after cs) (d + depth q cs) rest).map (cs.length + ·) := by
  induction cs generalizing q d with
  | nil => simp
  | cons c cs ih =>
    have hc : ¬(q.counts c && c == ')' && d == 1) = true := by
      simp only [Bool.and_eq_true, beq_iff_eq]
      rintro ⟨⟨hcounts, rfl⟩, rfl⟩
      exact h [] _ cs rfl hcounts rfl rfl
    have htail := h.tail
    rw [show d - 1 + depth q [c] = d + depth q [c] - 1 by omega] at htail
    rw [List.cons_append, closing?_cons, if_neg hc, ih htail, after_cons, depth_cons q c cs,
      ← Int.add_assoc, Option.map_map]
    congr 1
    funext n
    simp only [Function.comp_apply, List.length_cons]
    omega

/-! ## Quiet texts -/

/-- No quote, no parenthesis and no separator of lists or statements. -/
def isCalm (c : Char) : Bool := !(['\'', '"', '(', ')', ',', ';'].contains c)

theorem isCalm_of {p : Char → Bool} (hp : ['\'', '"', '(', ')', ',', ';'].any p = false)
    (h : p c = true) : isCalm c = true := by
  rw [isCalm, Bool.not_eq_true', Bool.eq_false_iff]
  intro hc
  have hany := List.any_eq_true.2 ⟨c, List.contains_iff_mem.1 hc, h⟩
  rw [hp] at hany
  cases hany

theorem isCalm_iff : isCalm c = true ↔ c ∉ ['\'', '"', '(', ')', ',', ';'] := by
  simp [isCalm]

/-- The text starts and ends outside quotes, and only calm characters count in it. -/
structure Quiet (cs : List Char) : Prop where
  after : Quotes.after .outside cs = .outside
  calm : ∀ c ∈ counted .outside cs, isCalm c = true

namespace Quiet

/-- Calm characters are quiet. -/
theorem of_calm (h : ∀ c ∈ cs, isCalm c = true) : Quiet cs := by
  induction cs with
  | nil => exact ⟨rfl, List.forall_mem_nil _⟩
  | cons c cs ih =>
    rw [List.forall_mem_cons] at h
    obtain ⟨hafter, hcalm⟩ := ih h.2
    have hc := isCalm_iff.1 h.1
    simp only [List.mem_cons, List.not_mem_nil, or_false, not_or] at hc
    have hnext : Quotes.outside.next c = .outside := by
      rw [Quotes.next, if_neg hc.1, if_neg hc.2.1]
    refine ⟨by rw [after_cons, hnext, hafter], ?_⟩
    rw [counted, hnext]
    split
    · exact List.forall_mem_cons.2 ⟨h.1, hcalm⟩
    · exact hcalm

theorem of_blank (h : ∀ c ∈ cs, Text.isBlank c = true) : Quiet cs :=
  of_calm fun c hc => isCalm_of (by decide) (h c hc)

theorem not_mem (h : Quiet cs) (hc : isCalm c = false) : c ∉ counted .outside cs := by
  intro hmem
  rw [h.calm c hmem] at hc
  cases hc

theorem depth (h : Quiet cs) : depth .outside cs = 0 := by
  rw [Nesting.depth, List.count_eq_zero.2 (h.not_mem rfl), List.count_eq_zero.2 (h.not_mem rfl)]
  rfl

theorem whole (h : Quiet cs) (hs : ∀ c, isSeparator c = true → isCalm c = false) :
    Whole isSeparator .outside d cs := by
  rintro p c r rfl hcounts hsep
  have hmem : c ∈ counted .outside (p ++ c :: r) := by
    rw [counted_append, counted, if_pos hcounts]
    exact List.mem_append_right _ List.mem_cons_self
  exact absurd hmem (h.not_mem (hs c hsep))

theorem piecesFrom (h : Quiet cs) (hs : ∀ c, isSeparator c = true → isCalm c = false)
    (rest : List Char) : piecesFrom isSeparator .outside d (cs ++ rest) =
      cs.foldr Text.consFirst (piecesFrom isSeparator .outside d rest) := by
  rw [piecesFrom_append (h.whole hs), h.after, h.depth, Int.add_zero]

theorem closing? (h : Quiet cs) (rest : List Char) :
    closing? .outside d (cs ++ rest) = (closing? .outside d rest).map (cs.length + ·) := by
  have hs : ∀ c, (c == ')') = true → isCalm c = false := fun c hc => by
    rw [beq_iff_eq.1 hc]
    rfl
  rw [closing?_append (h.whole hs), h.after, h.depth, Int.add_zero]

/-- A text between quotes is quiet, whatever is in it. -/
theorem enclosed {e : Char} (he : e = '\'' ∨ e = '"') (content : List Char) :
    Quiet (e :: (Text.double e content ++ [e])) := by
  obtain ⟨inside, hopen, hinside⟩ : ∃ inside, Quotes.outside.next e = inside ∧
      ∀ c, inside.next c = (if c = e then .outside else inside) ∧ inside.counts c = false := by
    rcases he with rfl | rfl
    · exact ⟨.single, rfl, fun _ => ⟨rfl, rfl⟩⟩
    · exact ⟨.double, rfl, fun _ => ⟨rfl, rfl⟩⟩
  have hquote : Quotes.outside.counts e = false := by
    rcases he with rfl | rfl <;> rfl
  have hclose : inside.next e = .outside := by rw [(hinside e).1, if_pos rfl]
  have hdouble : inside.after (Text.double e content) = inside ∧
      counted inside (Text.double e content) = [] := by
    induction content with
    | nil => exact ⟨rfl, rfl⟩
    | cons c content ih =>
      rw [Text.double]
      split
      · simp [counted, hclose, hopen, hquote, (hinside e).2, ih]
      · next hc => simp [counted, (hinside c).1, (hinside c).2, hc, ih]
  have hnothing : counted .outside (e :: (Text.double e content ++ [e])) = [] := by
    simp [counted, hquote, hopen, counted_append, hdouble, (hinside e).2]
  refine ⟨?_, by rw [hnothing]; exact List.forall_mem_nil _⟩
  rw [after_cons, hopen, after_append, hdouble.1, after_cons, hclose, after_nil]

end Quiet

end Nesting

namespace Token

open Nesting

variable {t : Token} {ts us : List Token} {c : Char} {cs follow closing : List Char}

/-! ## Tokens by their characters -/

/-- A character that tokens run over outside quotes. -/
def isRunning (c : Char) : Bool := inWord c || Text.isDigit c || isOperatorChar c || c == '.'

theorem isRunning_spanDigits (cs : List Char) : ∀ c ∈ (spanDigits cs).1, isRunning c = true := by
  intro c hc
  have : Text.isDigit c = true := List.mem_takeWhile_imp hc
  simp [isRunning, this]

theorem isRunning_spanFraction (cs : List Char) :
    ∀ c ∈ (spanFraction cs).1, isRunning c = true := by
  unfold spanFraction
  split
  · exact List.forall_mem_cons.2 ⟨rfl, isRunning_spanDigits _⟩
  · exact List.forall_mem_nil _

theorem isRunning_spanExponent (cs : List Char) :
    ∀ c ∈ (spanExponent cs).1, isRunning c = true := by
  unfold spanExponent
  split
  · next e rest =>
    split
    · next he =>
      have he : isRunning e = true := by rcases he with rfl | rfl <;> rfl
      split
      · next s rest' =>
        split
        · next hs =>
          have hs : isRunning s = true := by rcases hs with rfl | rfl <;> rfl
          dsimp only
          split
          · exact List.forall_mem_nil _
          · exact List.forall_mem_cons.2
              ⟨he, List.forall_mem_cons.2 ⟨hs, isRunning_spanDigits rest'⟩⟩
        · dsimp only
          split
          · exact List.forall_mem_nil _
          · exact List.forall_mem_cons.2 ⟨he, isRunning_spanDigits _⟩
      · exact List.forall_mem_nil _
    · exact List.forall_mem_nil _
  · exact List.forall_mem_nil _

theorem isRunning_spanPlaces (cs : List Char) : ∀ c ∈ (spanPlaces cs).1, isRunning c = true :=
  List.forall_mem_append.2 ⟨isRunning_spanDigits _, isRunning_spanExponent _⟩

theorem isRunning_spanNumber (cs : List Char) : ∀ c ∈ (spanNumber cs).1, isRunning c = true :=
  List.forall_mem_append.2 ⟨List.forall_mem_append.2
    ⟨isRunning_spanDigits _, isRunning_spanFraction _⟩, isRunning_spanExponent _⟩

theorem isRunning_spanOperator (cs : List Char) :
    ∀ c ∈ (spanOperator cs).1, isRunning c = true := by
  induction cs with
  | nil => exact List.forall_mem_nil _
  | cons c cs ih =>
    rw [spanOperator]
    split
    · next hc =>
      rw [Bool.and_eq_true] at hc
      exact List.forall_mem_cons.2 ⟨by simp [isRunning, hc.1], ih⟩
    · exact List.forall_mem_nil _

/-- A token is a text between quotes, a single character, or a run of characters; a single mark is
    punctuation. -/
theorem Stands.text_cases (h : t.Stands follow) (hd : t.isDollarQuoted = false) :
    (∃ e content, (e = '\'' ∨ e = '"') ∧ t.text = e :: (Text.double e content ++ [e])) ∨
    (∃ c, t.text = [c] ∧ c ≠ '\'' ∧ c ≠ '"' ∧ (isMark c = true → t.kind = .punct)) ∨
    ∀ c ∈ t.text, isRunning c = true := by
  obtain ⟨-, c, tail, htext, hx⟩ := h
  rw [htext] at hx ⊢
  generalize hkind : t.kind = kind at hx ⊢
  cases lexeme_eq_ok_iff.1 hx with
  | literal hc hq | name hc hq =>
    obtain ⟨content, rfl⟩ := double_of_closeQuote? hq
    exact .inl ⟨c, content, by simp [hc], rfl⟩
  | dollarQuote hc =>
    rw [isDollarQuoted, hkind, htext, hc] at hd
    cases hd
  | dollar hc => exact .inr (.inl ⟨c, rfl, by subst hc; decide⟩)
  | word hb hw h =>
    have htail : (tail ++ follow).takeWhile inWord = tail := congrArg Prod.fst h
    refine .inr (.inr (List.forall_mem_cons.2 ⟨by simp [isRunning, inWord, inTag, hw], ?_⟩))
    intro d hmem
    rw [← htail] at hmem
    have : inWord d = true := List.mem_takeWhile_imp hmem
    simp [isRunning, this]
  | number hb hw hd h =>
    have htail : (spanNumber (tail ++ follow)).1 = tail := congrArg Prod.fst h
    have hrun := isRunning_spanNumber (tail ++ follow)
    rw [htail] at hrun
    exact .inr (.inr (List.forall_mem_cons.2 ⟨by simp [isRunning, hd], hrun⟩))
  | places hc hd h =>
    have htail : (spanPlaces (tail ++ follow)).1 = tail := congrArg Prod.fst h
    have hrun := isRunning_spanPlaces (tail ++ follow)
    rw [htail] at hrun
    exact .inr (.inr (List.forall_mem_cons.2 ⟨by simp [isRunning, hc], hrun⟩))
  | mark hs => exact .inr (.inl ⟨c, rfl, hs.quote, hs.doubleQuote, fun _ => rfl⟩)
  | operator hs hm ho h =>
    have htail : (spanOperator (tail ++ follow)).1 = tail := congrArg Prod.fst h
    have hrun := isRunning_spanOperator (tail ++ follow)
    rw [htail] at hrun
    exact .inr (.inr (List.forall_mem_cons.2 ⟨by simp [isRunning, ho], hrun⟩))
  | other hs hm =>
    refine .inr (.inl ⟨c, rfl, hs.quote, hs.doubleQuote, fun hmark => ?_⟩)
    rw [hm] at hmark
    cases hmark

/-- A token that is no parenthesis, comma or semicolon is quiet. -/
theorem Stands.quiet (h : t.Stands follow) (hd : t.isDollarQuoted = false)
    (hm : ∀ c ∈ ['(', ')', ',', ';'], t.isPunct c = false) : Quiet t.text := by
  rcases h.text_cases hd with ⟨e, content, he, htext⟩ | ⟨c, htext, hquote, hdouble, hmark⟩ | hrun
  · rw [htext]
    exact .enclosed he content
  · rw [htext]
    refine .of_calm fun d hd => isCalm_iff.2 fun hcalm => ?_
    obtain rfl := List.mem_singleton.1 hd
    have hmem : d ∈ ['(', ')', ',', ';'] := by simpa [hquote, hdouble] using hcalm
    have hkind : t.kind = .punct := by
      refine hmark ?_
      simp only [List.mem_cons, List.not_mem_nil, or_false] at hmem
      rcases hmem with rfl | rfl | rfl | rfl <;> rfl
    have := hm d hmem
    rw [isPunct, hkind, htext] at this
    simp at this
  · exact .of_calm fun c hc => isCalm_of (by decide) (hrun c hc)

/-! ## Parentheses that tokens open and close -/

theorem text_of_isPunct (h : t.isPunct c = true) : t.text = [c] := by
  rw [isPunct, Bool.and_eq_true, beq_iff_eq, beq_iff_eq] at h
  exact h.2

/-- How many more parentheses a token opens than it closes. -/
def opens (t : Token) : Int := if t.isPunct '(' then 1 else if t.isPunct ')' then -1 else 0

theorem opens_of_mark (h : t.isPunct c = true) : t.opens = depth .outside [c] := by
  by_cases ho : c = '('
  · subst ho
    rw [opens, if_pos h]
    rfl
  · rw [opens, if_neg (Bool.eq_false_iff.1 (isPunct_ne h ho))]
    by_cases hc : c = ')'
    · subst hc
      rw [if_pos h]
      rfl
    · rw [if_neg (Bool.eq_false_iff.1 (isPunct_ne h hc))]
      have := add_depth_singleton .outside 0 c
      rw [if_neg ho, if_neg hc, Int.zero_add, ite_self] at this
      exact this.symm

/-! ## Clear documents -/

/-- Scanned tokens with nothing but blanks around them, and none of them between dollar tags. -/
structure Clear (ts : List Token) (closing : List Char) : Prop where
  rescans : Rescans ts closing
  noDollar : ∀ t ∈ ts, t.isDollarQuoted = false
  blank : ∀ t ∈ ts, ∀ c ∈ t.layout, Text.isBlank c = true
  blankClosing : ∀ c ∈ closing, Text.isBlank c = true

namespace Clear

theorem tail (h : Clear (t :: ts) closing) : Clear ts closing where
  rescans := h.rescans.2
  noDollar := fun u hu => h.noDollar u (List.mem_cons_of_mem t hu)
  blank := fun u hu => h.blank u (List.mem_cons_of_mem t hu)
  blankClosing := h.blankClosing

theorem of_run (h : Clear ts closing) (hu : us <:+: ts) : Clear us [] where
  rescans := h.rescans.of_run hu
  noDollar := fun t ht => h.noDollar t (hu.subset ht)
  blank := fun t ht => h.blank t (hu.subset ht)
  blankClosing := List.forall_mem_nil _

theorem of_append (h : Clear (us ++ ts) closing) : Clear ts closing where
  rescans := (rescans_append.1 h.rescans).2
  noDollar := fun t ht => h.noDollar t (List.mem_append_right us ht)
  blank := fun t ht => h.blank t (List.mem_append_right us ht)
  blankClosing := h.blankClosing

section
variable (h : Clear (t :: ts) closing)
include h

theorem quiet_layout : Quiet t.layout := .of_blank (h.blank t List.mem_cons_self)

/-- A token is one of the marks, or quiet. -/
theorem text_cases : (∃ c ∈ ['(', ')', ',', ';'], t.isPunct c = true) ∨
    (∀ c ∈ ['(', ')', ',', ';'], t.isPunct c = false) ∧ Quiet t.text := by
  by_cases hm : ∃ c ∈ ['(', ')', ',', ';'], t.isPunct c = true
  · exact .inl hm
  · have hm : ∀ c ∈ ['(', ')', ',', ';'], t.isPunct c = false := fun c hc =>
      Bool.eq_false_iff.2 fun ht => hm ⟨c, hc, ht⟩
    exact .inr ⟨hm, h.rescans.1.quiet (h.noDollar t List.mem_cons_self) hm⟩

/-- Behind a token a place is outside quotes again. -/
theorem after_text : Quotes.after .outside t.text = .outside := by
  rcases h.text_cases with ⟨c, hc, ht⟩ | ⟨-, hquiet⟩
  · rw [text_of_isPunct ht]
    simp only [List.mem_cons, List.not_mem_nil, or_false] at hc
    rcases hc with rfl | rfl | rfl | rfl <;> rfl
  · exact hquiet.after

theorem depth_text : depth .outside t.text = t.opens := by
  rcases h.text_cases with ⟨c, -, ht⟩ | ⟨hm, hquiet⟩
  · rw [text_of_isPunct ht, opens_of_mark ht]
  · rw [hquiet.depth, opens, hm _ (by decide), hm _ (by decide)]
    rfl

/-- A mark is found in a token only if the token is that mark. -/
theorem whole_text {mark : Char} {d : Int} (hm : isCalm mark = false)
    (hd : t.isPunct mark = true → d ≠ 0) : Whole (· == mark) .outside d t.text := by
  rcases h.text_cases with ⟨c, hc, ht⟩ | ⟨-, hquiet⟩
  · intro p e r htext hcounts hsep
    rw [text_of_isPunct ht] at htext
    obtain ⟨rfl, he⟩ : p = [] ∧ c = e := by
      cases p with
      | nil => exact ⟨rfl, (List.cons.inj htext).1⟩
      | cons x p => simp at htext
    obtain rfl := beq_iff_eq.1 hsep
    rw [depth_nil, Int.add_zero]
    exact hd (he ▸ ht)
  · exact hquiet.whole fun c hc => by rw [beq_iff_eq.1 hc, hm]

/-- A token that is not the separator, or stands inside parentheses, is passed over. -/
theorem piecesFrom_pass {mark : Char} {d : Int} (hm : isCalm mark = false)
    (hd : t.isPunct mark = true → d ≠ 0) (rest : List Char) :
    piecesFrom (· == mark) .outside d (t.layout ++ (t.text ++ rest)) =
      (t.layout ++ t.text).foldr Text.consFirst
        (piecesFrom (· == mark) .outside (d + t.opens) rest) := by
  have hs : ∀ c, (c == mark) = true → isCalm c = false := fun c hc => by rw [beq_iff_eq.1 hc, hm]
  rw [h.quiet_layout.piecesFrom hs, piecesFrom_append (h.whole_text hm hd), h.after_text,
    h.depth_text, List.foldr_append]

/-- A separator outside parentheses ends a piece. -/
theorem piecesFrom_stop {mark : Char} (hm : mark = ',' ∨ mark = ';') (ht : t.isPunct mark = true)
    (rest : List Char) : piecesFrom (· == mark) .outside 0 (t.layout ++ (t.text ++ rest)) =
      t.layout :: piecesFrom (· == mark) .outside 0 rest := by
  have hs : ∀ c, (c == mark) = true → isCalm c = false := fun c hc => by
    rw [beq_iff_eq.1 hc]
    rcases hm with rfl | rfl <;> rfl
  have hcut : piecesFrom (· == mark) .outside 0 (mark :: rest) =
      [] :: piecesFrom (· == mark) .outside 0 rest := by
    rw [piecesFrom_cons, if_pos]
    rcases hm with rfl | rfl <;> rfl
  rw [h.quiet_layout.piecesFrom hs, text_of_isPunct ht, List.singleton_append, hcut,
    Text.foldr_consFirst, List.append_nil]

/-- A token that does not close the outermost group is passed over. -/
theorem closing?_pass {d : Int} (hd : t.isPunct ')' = true → d ≠ 1) (rest : List Char) :
    closing? .outside d (t.layout ++ (t.text ++ rest)) =
      (closing? .outside (d + t.opens) rest).map (t.layout.length + t.text.length + ·) := by
  have hwhole : Whole (· == ')') .outside (d - 1) t.text :=
    h.whole_text rfl fun ht => by have := hd ht; omega
  rw [h.quiet_layout.closing?, closing?_append hwhole, h.after_text, h.depth_text, Option.map_map]
  congr 1
  funext n
  exact (Nat.add_assoc ..).symm

/-- The parenthesis that closes the outermost group is found behind its layout. -/
theorem closing?_stop (ht : t.isPunct ')' = true) (rest : List Char) :
    closing? .outside 1 (t.layout ++ (t.text ++ rest)) = some t.layout.length := by
  rw [h.quiet_layout.closing?, text_of_isPunct ht]
  rfl

end

/-- Behind clear tokens a place is outside quotes. -/
theorem after_fullText (h : Clear ts closing) : Quotes.after .outside (fullText ts) = .outside := by
  induction ts with
  | nil => rfl
  | cons t ts ih =>
    rw [fullText_cons, after_append, h.quiet_layout.after, after_append, h.after_text, ih h.tail]

end Clear

/-- The tokens of a document that stripping leaves alone are clear. -/
theorem clear_of_scan {s : String} (h : scan s = .ok ts) (hs : Comment.strip s = s)
    (hd : ∀ t ∈ ts, t.isDollarQuoted = false) :
    ∃ closing, Clear ts closing ∧ fullText ts ++ closing = s.toList := by
  obtain ⟨closing, hscan⟩ := exists_closing h
  have hstrip : Comment.stripFrom .text s.toList = s.toList := by
    have := congrArg String.toList hs
    rwa [Comment.strip, String.toList_ofList] at this
  obtain ⟨hblank, hclosing⟩ := (strip_eq_self_iff hscan hd).1 hstrip
  exact ⟨closing, ⟨(rescans_of_scanList hscan).1, hd, hblank, hclosing⟩,
    fullText_append_of_scanList hscan⟩

end Token

end Schemata
