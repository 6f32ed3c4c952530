/-
  The tokens of a text cover it.

  * `part` is the text between two offsets, and `gapSpans` the offsets between which no token stands;
  * a `Gap` is a run of blanks and complete comments; at the end of the text its last line comment may
    stay open;
  * `LayoutBefore.gapFrom`: from every place on, a layout is what is left of a gap;
  * `covers_scan`: the tokens that the scanner finds are the parts between their offsets, in order, the
    text between them is gaps, and every character is in just one of these parts;
  * `source_eq_part`: the source of a run of tokens is the part between its first and its last offset.
-/
import Mathlib.Logic.ExistsUnique
import Schemata.Proofs.Scanning

namespace Schemata.Token

variable {atEnd : Prop} {lay rest cs closing : List Char} {ts : List Token}

/-! ## Gaps -/

/-- The inside of a block comment: its end mark first occurs right behind it. -/
def InsideBlock (body : List Char) : Prop := ¬ ['*', '/'] <:+: body ++ ['*']

/-- Blanks and comments. Only at the end of the text may the last line comment have no newline. -/
inductive Gap (atEnd : Prop) : List Char → Prop
  | nil : Gap atEnd []
  | blank {c : Char} {cs : List Char} (hc : Text.isBlank c = true) (h : Gap atEnd cs) :
      Gap atEnd (c :: cs)
  | block {body cs : List Char} (hb : InsideBlock body) (h : Gap atEnd cs) :
      Gap atEnd ('/' :: '*' :: (body ++ '*' :: '/' :: cs))
  | line {body cs : List Char} (hb : '\n' ∉ body) (h : Gap atEnd cs) :
      Gap atEnd ('-' :: '-' :: (body ++ '\n' :: cs))
  | lastLine {body : List Char} (he : atEnd) (hb : '\n' ∉ body) : Gap atEnd ('-' :: '-' :: body)

/-- What is left of a gap from a place in it on. -/
def GapFrom (atEnd : Prop) (lay : List Char) : LayoutPlace → Prop
  | .between => Gap atEnd lay
  | .line => (∃ body cs, '\n' ∉ body ∧ Gap atEnd cs ∧ lay = body ++ '\n' :: cs) ∨
      (atEnd ∧ '\n' ∉ lay)
  | .block _ => ∃ body cs, InsideBlock body ∧ Gap atEnd cs ∧ lay = body ++ '*' :: '/' :: cs

theorem insideBlock_nil : InsideBlock [] := by
  intro h
  have := h.length_le
  simp at this

theorem InsideBlock.cons {c : Char} {body : List Char} (hb : InsideBlock body)
    (hc : c = '*' → (body ++ '*' :: cs).head? ≠ some '/') : InsideBlock (c :: body) := by
  intro h
  rw [List.cons_append, List.infix_cons_iff] at h
  rcases h with h | h
  · obtain ⟨rfl, hd⟩ := List.cons_prefix_cons.1 h
    refine hc rfl ?_
    cases body with
    | nil => simp at hd
    | cons d body =>
      obtain ⟨rfl, -⟩ := List.cons_prefix_cons.1 hd
      rfl
  · exact hb h

/-- A layout is a gap; where it stands before a token, all its comments are complete. -/
theorem LayoutBefore.gapFrom {place : LayoutPlace} (h : LayoutBefore place lay rest) :
    GapFrom (rest = []) lay place := by
  induction h with
  | @finish place hp =>
    cases place with
    | between => exact .nil
    | line => exact .inr ⟨rfl, List.not_mem_nil⟩
    | block n => exact absurd rfl (hp n)
  | stop => exact .nil
  | blank hb _ ih => exact .blank hb ih
  | dashes _ ih =>
    rcases ih with ⟨body, cs, hb, hg, rfl⟩ | ⟨he, hb⟩
    · exact .line hb hg
    · exact .lastLine he hb
  | line hc _ ih =>
    have hmem : ∀ {body : List Char}, '\n' ∉ body → '\n' ∉ _ :: body := fun hb h =>
      (List.mem_cons.1 h).elim (fun e => hc e.symm) hb
    rcases ih with ⟨body, cs, hb, hg, rfl⟩ | ⟨he, hb⟩
    · exact .inl ⟨_, cs, hmem hb, hg, rfl⟩
    · exact .inr ⟨he, hmem hb⟩
  | newline _ ih => exact .inl ⟨[], _, List.not_mem_nil, ih, rfl⟩
  | opened _ ih =>
    obtain ⟨body, cs, hb, hg, rfl⟩ := ih
    exact .block hb hg
  | inside hc _ ih =>
    obtain ⟨body, cs, hb, hg, rfl⟩ := ih
    exact ⟨_, cs, hb.cons hc, hg, rfl⟩
  | closed _ ih => exact ⟨[], _, insideBlock_nil, ih, rfl⟩

/-! ## Parts between offsets -/

/-- The part of a text between two offsets. -/
def part (cs : List Char) (p : Nat × Nat) : List Char := (cs.take p.2).drop p.1

/-- From an offset on, the offsets between which none of the given parts stands; the last one ends
    with the text. -/
def gapSpans (length : Nat) (offset : Nat) : List (Nat × Nat) → List (Nat × Nat)
  | [] => [(offset, length)]
  | p :: ps => (offset, p.1) :: gapSpans length p.2 ps

theorem part_append {a b c : List Char} :
    part (a ++ (b ++ c)) (a.length, a.length + b.length) = b := by
  have : a ++ (b ++ c) = (a ++ b) ++ c := (List.append_assoc a b c).symm
  rw [part, this, ← List.length_append, List.take_left, List.drop_left]

/-- Parts in order from an offset on: none is empty, and each starts after the one before it. -/
def Ordered (length : Nat) (offset : Nat) : List (Nat × Nat) → Prop
  | [] => offset ≤ length
  | p :: ps => offset ≤ p.1 ∧ p.1 < p.2 ∧ Ordered length p.2 ps

section
variable {length offset : Nat} {ps : List (Nat × Nat)}

theorem Ordered.le (h : Ordered length offset ps) : offset ≤ length := by
  induction ps generalizing offset with
  | nil => exact h
  | cons p ps ih =>
    obtain ⟨h₁, h₂, h₃⟩ := h
    have := ih h₃
    omega

theorem Ordered.bounds (h : Ordered length offset ps) :
    ∀ p ∈ ps, offset ≤ p.1 ∧ p.1 < p.2 ∧ p.2 ≤ length := by
  induction ps generalizing offset with
  | nil => exact fun p hp => absurd hp List.not_mem_nil
  | cons q ps ih =>
    obtain ⟨h₁, h₂, h₃⟩ := h
    intro p hp
    rcases List.mem_cons.1 hp with rfl | hp
    · exact ⟨h₁, h₂, h₃.le⟩
    · have := ih h₃ p hp
      omega

theorem Ordered.pairwise (h : Ordered length offset ps) : ps.Pairwise fun p q => p.2 ≤ q.1 := by
  induction ps generalizing offset with
  | nil => exact .nil
  | cons p ps ih => exact .cons (fun q hq => (h.2.2.bounds q hq).1) (ih h.2.2)

theorem Ordered.le_of_mem_gapSpans (h : Ordered length offset ps) :
    ∀ p ∈ gapSpans length offset ps, offset ≤ p.1 := by
  induction ps generalizing offset with
  | nil =>
    intro p hp
    cases List.mem_singleton.1 hp
    exact Nat.le_refl _
  | cons q ps ih =>
    obtain ⟨h₁, h₂, h₃⟩ := h
    intro p hp
    rcases List.mem_cons.1 hp with rfl | hp
    · exact Nat.le_refl _
    · have := ih h₃ p hp
      omega

/-- Parts in order and the gaps between them share out the offsets up to the end. -/
theorem Ordered.existsUnique (h : Ordered length offset ps) {i : Nat} (hi : offset ≤ i)
    (hl : i < length) : ∃! p, p ∈ gapSpans length offset ps ++ ps ∧ p.1 ≤ i ∧ i < p.2 := by
  induction ps generalizing offset with
  | nil =>
    refine ⟨(offset, length), ⟨List.mem_singleton_self _, hi, hl⟩, ?_⟩
    rintro p ⟨hp, -, -⟩
    exact List.mem_singleton.1 hp
  | cons q ps ih =>
    obtain ⟨h₁, h₂, h₃⟩ := h
    have hlater : ∀ p ∈ gapSpans length q.2 ps ++ ps, q.2 ≤ p.1 := by
      intro p hp
      rcases List.mem_append.1 hp with hp | hp
      · exact h₃.le_of_mem_gapSpans p hp
      · exact (h₃.bounds p hp).1
    have hmem : ∀ p, p ∈ gapSpans length offset (q :: ps) ++ q :: ps ↔
        p = (offset, q.1) ∨ p = q ∨ p ∈ gapSpans length q.2 ps ++ ps := by
      intro p
      simp only [gapSpans, List.cons_append, List.mem_cons, List.mem_append]
      grind
    simp only [hmem]
    by_cases hgap : i < q.1
    · refine ⟨(offset, q.1), ⟨.inl rfl, hi, hgap⟩, ?_⟩
      rintro p ⟨rfl | rfl | hp, hle, -⟩
      · rfl
      · omega
      · have := hlater p hp
        omega
    · by_cases hpart : i < q.2
      · refine ⟨q, ⟨.inr (.inl rfl), by omega, hpart⟩, ?_⟩
        rintro p ⟨rfl | rfl | hp, hle, hlt⟩
        · exact absurd hlt hgap
        · rfl
        · have := hlater p hp
          omega
      · obtain ⟨p, ⟨hp, hle, hlt⟩, hunique⟩ := ih h₃ (by omega)
        refine ⟨p, ⟨.inr (.inr hp), hle, hlt⟩, ?_⟩
        rintro p' ⟨rfl | rfl | hp', hle', hlt'⟩
        · exact absurd hlt' hgap
        · exact absurd hlt' hpart
        · exact hunique p' ⟨hp', hle', hlt'⟩

end

/-! ## Tokens at their offsets -/

theorem Stands.gap {t : Token} {follow : List Char} (h : t.Stands follow) : Gap False t.layout := by
  have := (LayoutBefore.of_span h.layout).gapFrom
  simpa [GapFrom, h.text_ne_nil] using this

theorem gap_closing (h : scanList closing = .ok ([], closing)) : Gap True closing := by
  rw [scanList] at h
  split at h
  · cases h
  · next hl =>
    cases h
    simpa [GapFrom] using (LayoutBefore.of_span hl).gapFrom
  · next hx =>
    split at h
    · cases h
    · next follow _ =>
      cases hs : scanList follow with
      | error e => rw [hs] at h; cases h
      | ok r => rw [hs] at h; cases h

theorem exists_closing {s : String} (h : scan s = .ok ts) :
    ∃ closing, scanList s.toList = .ok (ts, closing) := by
  rw [scan] at h
  cases hs : scanList s.toList with
  | error e =>
    rw [hs] at h
    cases h
  | ok r =>
    rw [hs] at h
    cases h
    exact ⟨r.2, rfl⟩

theorem Rescans.exists_stands {t : Token} (h : Rescans ts closing) (ht : t ∈ ts) :
    ∃ follow, t.Stands follow := by
  obtain ⟨before, after, rfl⟩ := List.append_of_mem ht
  exact ⟨_, (rescans_append.1 h).2.1⟩

theorem Rescans.text_ne_nil (h : Rescans ts closing) : ∀ t ∈ ts, t.text ≠ [] := by
  intro t ht
  obtain ⟨follow, hstands⟩ := h.exists_stands ht
  exact hstands.text_ne_nil

theorem ordered_spans (h : ∀ t ∈ ts, t.text ≠ []) (offset n : Nat) :
    Ordered (offset + (fullText ts).length + n) offset (spans offset ts) := by
  induction ts generalizing offset with
  | nil => simp [spans, Ordered]
  | cons t ts ih =>
    have ht := List.length_pos_iff.2 (h t List.mem_cons_self)
    have := ih (fun u hu => h u (List.mem_cons_of_mem t hu))
      (offset + t.layout.length + t.text.length)
    have hlen : offset + (fullText (t :: ts)).length + n =
        offset + t.layout.length + t.text.length + (fullText ts).length + n := by
      simp only [fullText_cons, List.length_append]
      omega
    rw [hlen]
    exact ⟨Nat.le_add_right _ _, by omega, this⟩

theorem spans_append (offset : Nat) (ts us : List Token) : spans offset (ts ++ us) =
    spans offset ts ++ spans (offset + (fullText ts).length) us := by
  induction ts generalizing offset with
  | nil => rfl
  | cons t ts ih =>
    simp only [List.cons_append, spans, ih, fullText_cons, List.length_append, Nat.add_assoc]

@[simp] theorem length_spans (offset : Nat) (ts : List Token) :
    (spans offset ts).length = ts.length := by
  induction ts generalizing offset with
  | nil => rfl
  | cons t ts ih => rw [spans, List.length_cons, ih, List.length_cons]

/-- Between its offsets, the text has the token. -/
theorem map_part_spans (before : List Char) (ts : List Token) (closing : List Char) :
    (spans before.length ts).map (part (before ++ (fullText ts ++ closing))) = ts.map text := by
  induction ts generalizing before with
  | nil => rfl
  | cons t ts ih =>
    have := ih (before ++ t.layout ++ t.text)
    have hpart := part_append (a := before ++ t.layout) (b := t.text) (c := fullText ts ++ closing)
    simp only [List.length_append, List.append_assoc, ← Nat.add_assoc] at this hpart
    simp only [spans, List.map_cons, fullText_cons, List.append_assoc, this, hpart]

theorem getElem?_spans (offset : Nat) (before : List Token) (t : Token) (after : List Token) :
    (spans offset (before ++ t :: after))[before.length]? =
      some (offset + (fullText before ++ t.layout).length,
        offset + (fullText (before ++ [t])).length) := by
  rw [spans_append, List.getElem?_append_right (by simp), length_spans, Nat.sub_self, spans,
    List.getElem?_cons_zero]
  simp [Nat.add_assoc]

/-- The source of tokens in a row is the part of the text from the start of the first to the end of
    the last. -/
theorem source_eq_part {s : String} {before us after : List Token}
    (h : scan s = .ok (before ++ us ++ after)) (hne : us ≠ []) :
    ∃ first last, (spans 0 (before ++ us ++ after))[before.length]? = some first ∧
      (spans 0 (before ++ us ++ after))[before.length + us.length - 1]? = some last ∧
      (source us).toList = part s.toList (first.1, last.2) := by
  obtain ⟨closing, hscan⟩ := exists_closing h
  obtain ⟨init, u, hus⟩ : ∃ init u, us = init ++ [u] :=
    ⟨us.dropLast, us.getLast hne, (List.dropLast_concat_getLast hne).symm⟩
  obtain ⟨t, rest, rfl⟩ := List.exists_cons_of_ne_nil hne
  have hfirst := getElem?_spans 0 before t (rest ++ after)
  have hlast := getElem?_spans 0 (before ++ init) u after
  have hstart : before ++ t :: (rest ++ after) = before ++ t :: rest ++ after := by simp
  have hend : before ++ init ++ u :: after = before ++ t :: rest ++ after := by simp [hus]
  have hindex : (before ++ init).length = before.length + (t :: rest).length - 1 := by
    rw [hus]
    simp
  have hstop : before ++ init ++ [u] = before ++ t :: rest := by rw [hus, List.append_assoc]
  rw [hstart] at hfirst
  rw [hend, hindex, hstop] at hlast
  refine ⟨_, _, hfirst, hlast, ?_⟩
  have hpart := part_append (a := fullText before ++ t.layout) (b := t.text ++ fullText rest)
    (c := fullText after ++ closing)
  rw [← fullText_append_of_scanList hscan, source, String.toList_ofList]
  simp only [fullText_append, fullText_cons, List.append_assoc, List.length_append, Nat.zero_add,
    Nat.add_assoc] at hpart ⊢
  exact hpart.symm

/-- Between the tokens, the text has gaps. -/
theorem gap_of_mem_gapSpans (before : List Char) {length : Nat} (h : Rescans ts closing)
    (hc : Gap True closing) (hl : length = (before ++ (fullText ts ++ closing)).length) :
    ∀ p ∈ gapSpans length before.length (spans before.length ts),
      Gap (p.2 = length) (part (before ++ (fullText ts ++ closing)) p) := by
  induction ts generalizing before with
  | nil =>
    intro p hp
    cases List.mem_singleton.1 hp
    have hpart := part_append (a := before) (b := closing) (c := [])
    rw [List.append_nil, ← List.length_append] at hpart
    rw [fullText_nil, List.nil_append] at hl ⊢
    rw [hl, hpart]
    simpa using hc
  | cons t ts ih =>
    have hrest := ih (before ++ t.layout ++ t.text) h.2
    have hpart := part_append (a := before) (b := t.layout)
      (c := t.text ++ (fullText ts ++ closing))
    simp only [fullText_cons, List.length_append, List.append_assoc, ← Nat.add_assoc]
      at hl hrest hpart ⊢
    intro p hp
    rcases List.mem_cons.1 hp with rfl | hp
    · have ht := List.length_pos_iff.2 h.1.text_ne_nil
      have : before.length + t.layout.length ≠ length := by omega
      simpa [hpart, this] using h.1.gap
    · exact hrest hl p hp

/-- The tokens are the parts of the text between their offsets, in order and none of them empty;
    what is between them is gaps; and every character is in just one of these parts. -/
structure Covers (ts : List Token) (cs : List Char) : Prop where
  nonempty : ∀ t ∈ ts, t.text ≠ []
  values : ts.map text = (spans 0 ts).map (part cs)
  bounds : ∀ p ∈ spans 0 ts, p.1 < p.2 ∧ p.2 ≤ cs.length
  ordered : (spans 0 ts).Pairwise fun p q => p.2 ≤ q.1
  gaps : ∀ p ∈ gapSpans cs.length 0 (spans 0 ts), Gap (p.2 = cs.length) (part cs p)
  once : ∀ i < cs.length, ∃! p, p ∈ gapSpans cs.length 0 (spans 0 ts) ++ spans 0 ts ∧
    p.1 ≤ i ∧ i < p.2

/-- **Tokens cover the text.** No character of a text is lost or read twice: it is in one token, or in
    one of the runs of blanks and complete comments around the tokens. -/
theorem covers_scan {s : String} (h : scan s = .ok ts) : Covers ts s.toList := by
  obtain ⟨closing, hscan⟩ := exists_closing h
  obtain ⟨hr, hc⟩ := rescans_of_scanList hscan
  have hfull := fullText_append_of_scanList hscan
  have hne := hr.text_ne_nil
  have hord := ordered_spans hne 0 closing.length
  rw [Nat.zero_add, ← List.length_append, hfull] at hord
  have hvalues := map_part_spans [] ts closing
  have hgaps := gap_of_mem_gapSpans [] hr (gap_closing hc) rfl
  simp only [List.nil_append, List.length_nil, hfull] at hvalues hgaps
  exact {
    nonempty := hne
    values := hvalues.symm
    bounds := fun p hp => (hord.bounds p hp).2
    ordered := hord.pairwise
    gaps := hgaps
    once := fun i hi => hord.existsUnique (Nat.zero_le i) hi }

/-- A comment before the first token, one between two tokens, and one left open at the end. -/
theorem covers_scan_commented :
    let text := "/* ; */ a.'it''s'-- ' \n+ $q$ -- $q$ --"
    ∃ ts, ts.length = 5 ∧ scan text = .ok ts ∧ Covers ts text.toList := by
  intro text
  have hok : (scan text).toOption.any (fun ts => ts.length == 5) = true := by decide +kernel
  cases hscan : scan text with
  | error e => rw [hscan] at hok; cases hok
  | ok ts =>
    rw [hscan] at hok
    exact ⟨ts, beq_iff_eq.1 hok, rfl, covers_scan hscan⟩

end Schemata.Token
