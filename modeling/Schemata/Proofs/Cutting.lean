/-
  Tokens cut out of a text.

  * A split is `Local` if what it takes off a text stays the same when the text is cut somewhere
    behind it; numbers, tags and quotes are split so;
  * `Stands.cut`: a token in front of a text is still found when the text is cut behind another
    token, and so `Rescans.cut`: tokens that rescan do so by themselves;
  * `isRaw_source`: the text that a run of scanned tokens spans scans to these tokens.
-/
import Mathlib.Data.List.TakeWhile
import Mathlib.Tactic.ByContra
import Schemata.Proofs.Written

namespace Schemata.Token

variable {t : Token} {ts us : List Token} {cs tail follow rest lay : List Char}

/-! ## Local splits -/

/-- Cutting the text behind what is split off changes nothing. -/
def Local (split : List Char → List Char × List Char) : Prop :=
  ∀ tail follow rest, split (tail ++ (follow ++ rest)) = (tail, follow ++ rest) →
    split (tail ++ follow) = (tail, follow)

theorem span_local (p : Char → Bool) : Local fun cs => (cs.takeWhile p, cs.dropWhile p) := by
  intro tail follow rest h
  simp only [Prod.mk.injEq] at h ⊢
  induction tail with
  | nil =>
    cases follow with
    | nil => exact ⟨rfl, rfl⟩
    | cons c follow =>
      have hc : p c = false := by
        rw [Bool.eq_false_iff]
        intro hc
        simp [hc] at h
      simp [hc]
  | cons c tail ih =>
    by_cases hc : p c = true
    · simp only [List.cons_append, hc, List.takeWhile_cons_of_pos, List.dropWhile_cons_of_pos,
        List.cons.injEq, true_and] at h ⊢
      exact ih h
    · simp [hc] at h

theorem spanDigits_local : Local spanDigits := span_local Text.isDigit

theorem spanFraction_local : Local spanFraction := by
  intro tail follow rest h
  cases tail with
  | nil =>
    cases follow with
    | nil => rfl
    | cons c follow =>
      by_cases hc : c = '.'
      · subst hc
        simp [spanFraction] at h
      · simp [spanFraction, hc]
  | cons c tail =>
    by_cases hc : c = '.'
    · subst hc
      simp only [List.cons_append, spanFraction, Prod.mk.injEq, List.cons.injEq, true_and] at h ⊢
      have := spanDigits_local tail follow rest (Prod.ext h.1 h.2)
      rw [this]
      exact ⟨rfl, rfl⟩
    · simp [spanFraction, hc] at h

theorem spanExponent_cons_cons (e s : Char) (cs : List Char) : spanExponent (e :: s :: cs) =
    if e = 'e' ∨ e = 'E' then
      if s = '+' ∨ s = '-' then
        if (spanDigits cs).1 = [] then ([], e :: s :: cs)
        else (e :: s :: (spanDigits cs).1, (spanDigits cs).2)
      else if (spanDigits (s :: cs)).1 = [] then ([], e :: s :: cs)
      else (e :: (spanDigits (s :: cs)).1, (spanDigits (s :: cs)).2)
    else ([], e :: s :: cs) := by
  simp only [spanExponent, List.isEmpty_iff]

theorem spanDigits_nil_of_append (h : (spanDigits (cs ++ rest)).1 = []) : (spanDigits cs).1 = [] := by
  have hrest := spanDigits_append (cs ++ rest)
  rw [h, List.nil_append] at hrest
  exact congrArg Prod.fst (spanDigits_local [] cs rest (Prod.ext h hrest))

theorem spanExponent_local : Local spanExponent := by
  intro tail follow rest h
  rcases tail with _ | ⟨e, _ | ⟨s, tail⟩⟩
  · rcases follow with _ | ⟨e, _ | ⟨s, follow⟩⟩
    · rfl
    · simp [spanExponent]
    · simp only [List.nil_append, List.cons_append, spanExponent_cons_cons] at h ⊢
      split
      · next he =>
        rw [if_pos he] at h
        split
        · next hs =>
          rw [if_pos hs] at h
          have hnil : (spanDigits (follow ++ rest)).1 = [] := by
            by_contra hne
            rw [if_neg hne] at h
            cases h
          rw [if_pos (spanDigits_nil_of_append hnil)]
        · next hs =>
          rw [if_neg hs] at h
          have hnil : (spanDigits (s :: follow ++ rest)).1 = [] := by
            by_contra hne
            rw [List.cons_append] at hne
            rw [if_neg hne] at h
            cases h
          rw [if_pos (spanDigits_nil_of_append hnil)]
      · rfl
  · exfalso
    generalize follow ++ rest = more at h
    cases more with
    | nil => simp [spanExponent] at h
    | cons s more =>
      rw [List.cons_append, List.nil_append, spanExponent_cons_cons] at h
      split at h
      · split at h
        · split at h <;> cases h
        · split at h
          · cases h
          · next hne => exact hne (List.cons.inj (congrArg Prod.fst h)).2
      · cases h
  · simp only [List.cons_append, spanExponent_cons_cons] at h ⊢
    split at h
    · next he =>
      rw [if_pos he]
      split at h
      · next hs =>
        rw [if_pos hs]
        split at h
        · cases h
        · next hne =>
          simp only [Prod.mk.injEq, List.cons.injEq, true_and] at h
          have hdigits := spanDigits_local tail follow rest (Prod.ext h.1 h.2)
          rw [h.1] at hne
          rw [hdigits, if_neg hne]
      · next hs =>
        rw [if_neg hs]
        split at h
        · cases h
        · next hne =>
          simp only [Prod.mk.injEq, List.cons.injEq, true_and] at h
          have hdigits := spanDigits_local (s :: tail) follow rest (Prod.ext h.1 h.2)
          rw [List.cons_append] at hdigits
          rw [hdigits, if_neg (List.cons_ne_nil s tail)]
    · cases h

/-- Two local splits one after the other. -/
theorem Local.comp {f g : List Char → List Char × List Char} (hf : Local f) (hg : Local g)
    (hfa : ∀ cs, (f cs).1 ++ (f cs).2 = cs) (hga : ∀ cs, (g cs).1 ++ (g cs).2 = cs) :
    Local fun cs => ((f cs).1 ++ (g (f cs).2).1, (g (f cs).2).2) := by
  intro tail follow rest h
  simp only [Prod.mk.injEq] at h
  have hfirst := hfa (tail ++ (follow ++ rest))
  have hsecond := hga (f (tail ++ (follow ++ rest))).2
  generalize hx : f (tail ++ (follow ++ rest)) = x at h hfirst hsecond
  generalize hy : g x.2 = y at h hsecond
  obtain ⟨a, more⟩ := x
  obtain ⟨b, last⟩ := y
  obtain ⟨rfl, rfl⟩ := h
  simp only at hsecond hfirst hy
  subst hsecond
  have h₁ : f (a ++ (b ++ follow)) = (a, b ++ follow) := by
    refine hf a (b ++ follow) rest ?_
    simpa only [List.append_assoc] using hx
  have h₂ : g (b ++ follow) = (b, follow) := hg b follow rest hy
  simp only [List.append_assoc, h₁, h₂]

theorem spanPlaces_local : Local spanPlaces :=
  spanDigits_local.comp spanExponent_local spanDigits_append spanExponent_append

theorem spanNumber_local : Local spanNumber := by
  have hfirst : Local fun cs => ((spanDigits cs).1 ++ (spanFraction (spanDigits cs).2).1,
      (spanFraction (spanDigits cs).2).2) :=
    spanDigits_local.comp spanFraction_local spanDigits_append spanFraction_append
  refine hfirst.comp spanExponent_local (fun cs => ?_) spanExponent_append
  simp

/-! ## Quotes, tags and operators -/

theorem closeQuote?_cut {q : Char} {body : List Char}
    (h : closeQuote? q (body ++ (follow ++ rest)) = some (body, follow ++ rest)) :
    closeQuote? q (body ++ follow) = some (body, follow) := by
  generalize hcs : body ++ (follow ++ rest) = cs at h
  fun_induction closeQuote? q cs generalizing body with
  | case1 => cases h
  | case2 =>
    simp only [Option.some.injEq, Prod.mk.injEq] at h
    obtain ⟨rfl, hmore⟩ := h
    obtain ⟨rfl, -⟩ := List.append_eq_nil_iff.1 hmore.symm
    simp [closeQuote?]
  | case3 => cases h
  | case4 cs ih =>
    obtain ⟨⟨b, m⟩, hb, he⟩ := Option.map_eq_some_iff.1 h
    simp only [Prod.mk.injEq] at he
    obtain ⟨rfl, rfl⟩ := he
    simp only [List.cons_append, List.cons.injEq, true_and] at hcs
    simp [closeQuote?, ih hcs hb]
  | case5 d cs hd =>
    simp only [Option.some.injEq, Prod.mk.injEq] at h
    obtain ⟨rfl, hmore⟩ := h
    cases follow with
    | nil => simp [closeQuote?]
    | cons c follow =>
      obtain ⟨rfl, -⟩ := List.cons.inj hmore
      simp [closeQuote?, hd]
  | case6 c d cs hc ih =>
    obtain ⟨⟨b, m⟩, hb, he⟩ := Option.map_eq_some_iff.1 h
    simp only [Prod.mk.injEq] at he
    obtain ⟨rfl, rfl⟩ := he
    simp only [List.cons_append, List.cons.injEq, true_and] at hcs
    have hcut := ih hcs hb
    cases hbf : b ++ follow with
    | nil => rw [hbf] at hcut; cases hcut
    | cons e more =>
      rw [hbf] at hcut
      simp [closeQuote?, hc, hbf, hcut]

theorem exists_cut? (pat before more : List Char) :
    ∃ r, Text.cut? pat (before ++ pat ++ more) = some r := by
  induction before with
  | nil =>
    rw [List.nil_append]
    cases hcs : pat ++ more with
    | nil =>
      obtain ⟨rfl, rfl⟩ := List.append_eq_nil_iff.1 hcs
      exact ⟨([], []), rfl⟩
    | cons c cs =>
      have := Text.after?_append pat more
      rw [hcs] at this
      exact ⟨([], more), by simp [Text.cut?, this]⟩
  | cons c before ih =>
    obtain ⟨⟨b, m⟩, hr⟩ := ih
    rw [List.cons_append, List.cons_append, Text.cut?]
    cases Text.after? pat (c :: (before ++ pat ++ more)) with
    | some r => exact ⟨([], r), rfl⟩
    | none => exact ⟨(c :: b, m), by rw [hr]; rfl⟩

theorem cut?_cut {pat before : List Char}
    (h : Text.cut? pat (before ++ pat ++ (follow ++ rest)) = some (before, follow ++ rest)) :
    Text.cut? pat (before ++ pat ++ follow) = some (before, follow) := by
  obtain ⟨⟨b, m⟩, hr⟩ := exists_cut? pat before follow
  have hlong := @cut?_append _ rest pat b m hr
  rw [List.append_assoc (before ++ pat), h] at hlong
  simp only [Option.some.injEq, Prod.mk.injEq, List.append_cancel_right_eq] at hlong
  rw [hr, hlong.1, hlong.2]

/-- A tag ends with its own dollar, whatever comes after it. -/
theorem spanTag?_eq_some_iff {tag more : List Char} : spanTag? cs = some (tag, more) ↔
    ∃ name, tag = name ++ ['$'] ∧ cs = tag ++ more ∧ (∀ c ∈ name, inTag c = true) ∧
      (name.head?.any startsWord || name.isEmpty) = true := by
  have hdollar : inTag '$' = false := rfl
  constructor
  · intro h
    have happend := eq_append_of_spanTag? h
    unfold spanTag? at h
    dsimp only at h
    split at h
    · split at h
      · next htag =>
        cases h
        exact ⟨_, rfl, happend, fun c hc => List.mem_takeWhile_imp hc, htag⟩
      · cases h
    · cases h
  · rintro ⟨name, rfl, rfl, hname, htag⟩
    have htake : (name ++ '$' :: more).takeWhile inTag = name := by
      rw [List.takeWhile_append_of_pos hname, List.takeWhile_cons_of_neg (by simp [hdollar]),
        List.append_nil]
    have hdrop : (name ++ '$' :: more).dropWhile inTag = '$' :: more := by
      rw [List.dropWhile_append_of_pos hname, List.dropWhile_cons_of_neg (by simp [hdollar])]
    rw [spanTag?, List.append_assoc, List.singleton_append, htake, hdrop]
    simp only [htag, if_true]

theorem startsComment_append (h : startsComment cs = true) : startsComment (cs ++ rest) = true := by
  unfold startsComment at h
  split at h
  · rfl
  · rfl
  · cases h

theorem startsComment_of_append (rest : List Char) (h : startsComment (cs ++ rest) = false) :
    startsComment cs = false := by
  rw [Bool.eq_false_iff] at h ⊢
  exact fun hc => h (startsComment_append hc)

theorem spanOperator_cut
    (hs : follow = [] ∨ startsComment (follow ++ rest) = startsComment follow)
    (h : spanOperator (lay ++ (follow ++ rest)) = (lay, follow ++ rest)) :
    spanOperator (lay ++ follow) = (lay, follow) := by
  induction lay with
  | nil =>
    rcases hs with rfl | hs
    · rfl
    · cases follow with
      | nil => rfl
      | cons c follow =>
        rw [List.nil_append, List.cons_append, spanOperator] at h
        rw [List.nil_append, spanOperator]
        rw [List.cons_append] at hs
        rw [hs] at h
        split at h
        · cases h
        · next hc => rw [if_neg hc]
  | cons c lay ih =>
    rw [List.cons_append, spanOperator] at h
    rw [List.cons_append, spanOperator]
    split at h
    · next hc =>
      simp only [Prod.mk.injEq, List.cons.injEq, true_and] at h
      have hshort : (isOperatorChar c && !startsComment (c :: (lay ++ follow))) = true := by
        simp only [Bool.and_eq_true, Bool.not_eq_true'] at hc ⊢
        refine ⟨hc.1, startsComment_of_append rest ?_⟩
        simpa using hc.2
      rw [if_pos hshort, ih (Prod.ext h.1 h.2)]
    · cases h

/-! ## Tokens -/

/-- A tag that begins in front of a text is also found if the text goes on. -/
theorem spanTag?_append {tag more : List Char} (h : spanTag? cs = some (tag, more)) :
    spanTag? (cs ++ rest) = some (tag, more ++ rest) := by
  obtain ⟨name, hname, rfl, hall⟩ := spanTag?_eq_some_iff.1 h
  exact spanTag?_eq_some_iff.2 ⟨name, hname, List.append_assoc _ _ _, hall⟩

/-- The places of a number start with a digit, wherever the text ends after them. -/
theorem head?_any_of_spanPlaces {tail : List Char}
    (hd : (tail ++ (follow ++ rest)).head?.any Text.isDigit = true)
    (h : spanPlaces (tail ++ (follow ++ rest)) = (tail, follow ++ rest)) :
    (tail ++ follow).head?.any Text.isDigit = true := by
  cases tail with
  | cons d tail => exact hd
  | nil =>
    have hnone : (spanDigits (follow ++ rest)).1 = [] :=
      (List.append_eq_nil_iff.1 (congrArg Prod.fst h)).1
    cases hx : follow ++ rest with
    | nil =>
      rw [hx] at hd
      cases hd
    | cons d more =>
      rw [hx] at hd hnone
      have hdigit : Text.isDigit d = true := hd
      rw [spanDigits, List.takeWhile_cons_of_pos hdigit] at hnone
      cases hnone

/-- A token does not depend on what comes after the tokens that follow it. -/
theorem lexeme_cut {c : Char} {kind : TokenKind} {tail : List Char}
    (hs : follow = [] ∨ startsComment (follow ++ rest) = startsComment follow)
    (h : lexeme c (tail ++ (follow ++ rest)) = .ok (kind, c :: tail, follow ++ rest)) :
    lexeme c (tail ++ follow) = .ok (kind, c :: tail, follow) := by
  rw [lexeme_eq_ok_iff] at h ⊢
  cases h with
  | literal hc hq => exact .literal hc (closeQuote?_cut hq)
  | name hc hq => exact .name hc (closeQuote?_cut hq)
  | @dollarQuote tag more body _ hc htag hcut =>
    have hmore := Text.eq_append_of_cut? hcut
    subst hmore
    obtain ⟨name, hname, -, hall⟩ := spanTag?_eq_some_iff.1 htag
    exact .dollarQuote hc (spanTag?_eq_some_iff.2 ⟨name, hname, by simp, hall⟩) (cut?_cut hcut)
  | dollar hc htag =>
    refine .dollar hc ?_
    cases hfollow : spanTag? follow with
    | none => exact hfollow
    | some r => cases (spanTag?_append hfollow).symm.trans htag
  | word hb hw h => exact .word hb hw (span_local inWord tail follow rest h)
  | number hb hw hd h => exact .number hb hw hd (spanNumber_local tail follow rest h)
  | places hc hd h =>
    exact .places hc (head?_any_of_spanPlaces hd h) (spanPlaces_local tail follow rest h)
  | mark hsign hp hm =>
    refine .mark hsign (fun hc => Bool.eq_false_iff.2 fun hd => ?_) hm
    exact Bool.eq_false_iff.1 (hp hc) (head?_any_append rest hd)
  | operator hsign hm ho h => exact .operator hsign hm ho (spanOperator_cut hs h)
  | other hsign hm ho => exact .other hsign hm ho

/-! ## Layout -/

/-- The layout in front of a token does not depend on where the text is cut behind it. -/
theorem LayoutBefore.cut {place : LayoutPlace} {d : Char} {more : List Char}
    (h : LayoutBefore place lay (d :: (more ++ rest))) : LayoutBefore place lay (d :: more) := by
  generalize hfollow : d :: (more ++ rest) = follow at h
  induction h with
  | finish => cases hfollow
  | stop hc hb =>
    cases hfollow
    exact .stop (startsComment_of_append rest hc) hb
  | blank hb _ ih => exact .blank hb (ih hfollow)
  | dashes _ ih => exact .dashes (ih hfollow)
  | line hc _ ih => exact .line hc (ih hfollow)
  | newline _ ih => exact .newline (ih hfollow)
  | opened _ ih => exact .opened (ih hfollow)
  | inside hc _ ih => exact .inside hc (ih hfollow)
  | closed _ ih => exact .closed (ih hfollow)

/-- A token that the scanner finds is found again when the text is cut behind other tokens. -/
theorem Stands.cut (hs : follow = [] ∨ startsComment (follow ++ rest) = startsComment follow)
    (h : t.Stands (follow ++ rest)) : t.Stands follow := by
  obtain ⟨hl, c, tail, ht, hx⟩ := h
  refine ⟨?_, c, tail, ht, ?_⟩
  · rw [ht] at hl ⊢
    rw [List.cons_append, ← List.append_assoc] at hl
    exact (LayoutBefore.of_span hl).cut.span
  · rw [ht] at hx ⊢
    exact lexeme_cut hs hx

theorem Stands.layout_text (h : t.Stands follow) :
    spanLayout (t.text ++ follow) = .ok ([], t.text ++ follow) :=
  (LayoutBefore.of_span h.layout).after.span

theorem Stands.startsComment (h : t.Stands follow) : startsComment (t.text ++ follow) = false := by
  have hl := h.layout_text
  rw [Bool.eq_false_iff]
  intro hs
  unfold Token.startsComment at hs
  split at hs
  · next he =>
    rw [he, spanLayout, spanLayoutFrom_dashes] at hl
    obtain ⟨l, -, hl⟩ := prependLayout_eq_ok hl
    cases hl
  · next he =>
    rw [he, spanLayout, spanLayoutFrom_open] at hl
    obtain ⟨l, -, hl⟩ := prependLayout_eq_ok hl
    cases hl
  · cases hs

/-- Whether a comment starts with a token and its layout shows before the token ends. -/
theorem Stands.startsComment_append (h : t.Stands (follow ++ rest)) :
    Token.startsComment (t.layout ++ (t.text ++ follow) ++ rest) =
      Token.startsComment (t.layout ++ (t.text ++ follow)) := by
  rcases hcs : t.layout ++ (t.text ++ follow) with _ | ⟨c, _ | ⟨d, cs⟩⟩
  · exact absurd (List.append_eq_nil_iff.1 (List.append_eq_nil_iff.1 hcs).2).1 h.text_ne_nil
  · have hlayout : t.layout = [] := by
      cases hl : t.layout with
      | nil => rfl
      | cons e l =>
        rw [hl, List.cons_append, List.cons.injEq] at hcs
        have := (List.append_eq_nil_iff.1 (List.append_eq_nil_iff.1 hcs.2).2).1
        exact absurd this h.text_ne_nil
    rw [hlayout, List.nil_append] at hcs
    have hs := h.startsComment
    rw [← List.append_assoc, hcs] at hs
    rw [hs, startsComment_of_append rest hs]
  · rw [List.cons_append, List.cons_append, startsComment_cons_cons, startsComment_cons_cons]

/-! ## Runs of tokens -/

/-- Tokens that rescan before a text do so at its end. -/
theorem Rescans.cut (h : Rescans ts rest) : Rescans ts [] := by
  induction ts with
  | nil => trivial
  | cons t ts ih =>
    refine ⟨?_, ih h.2⟩
    rw [List.append_nil]
    refine Stands.cut ?_ h.1
    cases ts with
    | nil => exact .inl rfl
    | cons u us =>
      refine .inr ?_
      rw [fullText_cons]
      exact h.2.1.startsComment_append

theorem Rescans.of_run (h : Rescans ts rest) (hu : us <:+: ts) : Rescans us [] := by
  obtain ⟨before, after, rfl⟩ := hu
  rw [List.append_assoc, rescans_append, rescans_append] at h
  exact h.2.1.cut

/-- The tokens without the layout in front of the first one. -/
def bare : List Token → List Token
  | [] => []
  | t :: ts => { t with layout := [] } :: ts

theorem Rescans.bare (h : Rescans ts rest) : Rescans (bare ts) rest := by
  cases ts with
  | nil => trivial
  | cons t ts => exact ⟨⟨h.1.layout_text, h.1.lexeme⟩, h.2⟩

theorem toList_source (ts : List Token) : (source ts).toList = fullText (bare ts) := by
  cases ts with
  | nil => rfl
  | cons t ts => rw [source, String.toList_ofList, bare, fullText_cons, List.nil_append]

theorem source_bare (ts : List Token) : source (bare ts) = source ts := by
  cases ts <;> rfl

theorem exists_indent_bare (ts : List Token) : ∃ lay, indent lay (bare ts) = ts := by
  cases ts with
  | nil => exact ⟨[], rfl⟩
  | cons t ts => exact ⟨t.layout, by rw [bare, indent, List.append_nil]⟩

theorem bare_ne_nil (hne : ts ≠ []) : bare ts ≠ [] := by
  cases ts with
  | nil => exact hne
  | cons t ts => exact List.cons_ne_nil _ _

/-- The text of a part is not that of the whole. -/
theorem source_append_ne {m : Token} {c : Char} {back : List Token} (hne : ts ≠ [])
    (hm : m.isPunct c = true) : source (ts ++ m :: back) ≠ source ts := by
  obtain ⟨t, ts, rfl⟩ := List.exists_cons_of_ne_nil hne
  intro h
  have hlength := congrArg List.length (String.ofList_injective h)
  simp only [isPunct, Bool.and_eq_true, beq_iff_eq] at hm
  simp [hm.2] at hlength

end Schemata.Token

namespace Schemata.Written

open Token

/-- The text that a run of tokens spans scans to these tokens. -/
theorem isRaw_source {ts : List Token} (h : Rescans ts []) (hne : ts ≠ []) :
    IsRaw (source ts) ∧ rawTokens (source ts) = bare ts :=
  isRaw_of_firm (bare_ne_nil hne) ⟨fun _ hr => h.bare.hard hr⟩ (toList_source ts).symm

end Schemata.Written
