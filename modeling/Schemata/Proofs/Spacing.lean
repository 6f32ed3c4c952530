/-
  Tokens do not depend on the layout between them.

  * A `Separator` is layout that starts with a blank; `Spaced` layouts have one between any two tokens
    and also keep what follows the last token apart from it;
  * `Gap.isLayout`, `Gap.spanLayout`: gaps are layout, in front of any text and at its end;
  * `Rescans.alone`: a token that the scanner finds is also found where the text ends behind it, so it
    is found before everything that no token runs over;
  * `scan_layOut`: the texts of the tokens, laid out anew, scan to tokens of the same kinds and texts.
-/
import Schemata.Proofs.Actions
import Schemata.Proofs.Coverage
import Schemata.Proofs.Cutting

namespace Schemata.Token

variable {atEnd : Prop} {t : Token} {ts : List Token} {lay cs rest closing : List Char}
  {lays : List (List Char)}

/-! ## Gaps as layout -/

/-- A block comment ends at its first end mark. -/
theorem spanLayoutFrom_block_append (n : Nat) {body : List Char} (hb : InsideBlock body) :
    spanLayoutFrom (.block n) (body ++ '*' :: '/' :: cs) =
      prependLayout (body ++ ['*', '/']) (spanLayout cs) := by
  induction body with
  | nil => rw [List.nil_append, spanLayoutFrom_close]; rfl
  | cons c body ih =>
    have hrest : InsideBlock body := fun h => hb (h.trans (List.suffix_cons c _).isInfix)
    have hc : c = '*' → (body ++ '*' :: '/' :: cs).head? ≠ some '/' := by
      rintro rfl hd
      refine hb ?_
      cases body with
      | nil => cases hd
      | cons d body =>
        cases hd
        exact ⟨[], body ++ ['*'], rfl⟩
    rw [List.cons_append, spanLayoutFrom_inside n hc, ih hrest, ← prependLayout_append]
    rfl

theorem isLayout_block {body : List Char} (hb : InsideBlock body) :
    IsLayout ('/' :: '*' :: (body ++ ['*', '/'])) := by
  intro cs
  simp only [List.cons_append, List.append_assoc, List.nil_append, spanLayout]
  rw [spanLayoutFrom_open, spanLayoutFrom_block_append _ hb, ← prependLayout_append]
  rfl

/-- A comment line that the text ends in is layout too. -/
theorem spanLayoutFrom_lastLine {body : List Char} (hb : '\n' ∉ body) :
    spanLayoutFrom .line body = .ok (body, []) := by
  induction body with
  | nil => rfl
  | cons c body ih =>
    rw [List.mem_cons, not_or] at hb
    rw [spanLayoutFrom_line, if_neg (Ne.symm hb.1), ih hb.2]
    rfl

/-- Gaps of complete comments are layout. -/
theorem Gap.isLayout (h : Gap False lay) : IsLayout lay := by
  induction h with
  | nil => exact isLayout_nil
  | blank hc _ ih => exact (isLayout_blank hc).append ih
  | @block body cs hb _ ih =>
    have := (isLayout_block hb).append ih
    simpa using this
  | @line body cs hb _ ih =>
    have := (isLayout_comment hb).append ih
    simpa using this
  | lastLine he => exact he.elim

/-- A gap may end the text. -/
theorem Gap.weaken (h : Gap False lay) : Gap atEnd lay := by
  induction h with
  | nil => exact .nil
  | blank hc _ ih => exact .blank hc ih
  | block hb _ ih => exact .block hb ih
  | line hb _ ih => exact .line hb ih
  | lastLine he => exact he.elim

theorem IsLayout.spanLayout_append (hl : IsLayout lay) (h : spanLayout cs = .ok (cs, [])) :
    spanLayout (lay ++ cs) = .ok (lay ++ cs, []) := by
  rw [hl, h]
  rfl

/-- A gap that ends the text is layout as a whole. -/
theorem Gap.spanLayout (h : Gap atEnd lay) : spanLayout lay = .ok (lay, []) := by
  induction h with
  | nil => rfl
  | blank hc _ ih => exact (isLayout_blank hc).spanLayout_append ih
  | @block body cs hb _ ih =>
    have := (isLayout_block hb).spanLayout_append ih
    simpa using this
  | @line body cs hb _ ih =>
    have := (isLayout_comment hb).spanLayout_append ih
    simpa using this
  | lastLine _ hb =>
    rw [Token.spanLayout, spanLayoutFrom_dashes, spanLayoutFrom_lastLine hb]
    rfl

theorem Gap.scanList (h : Gap atEnd closing) : scanList closing = .ok ([], closing) := by
  rw [Token.scanList]
  split
  · next he => rw [h.spanLayout] at he; cases he
  · next he => rw [h.spanLayout] at he; cases he; rfl
  · next he => rw [h.spanLayout] at he; cases he

/-! ## Layouts of tokens -/

/-- What may stand between two tokens: blanks and complete comments, first of all a blank. -/
structure Separator (lay : List Char) : Prop where
  gap : Gap False lay
  blank : ∃ c cs, lay = c :: cs ∧ Text.isBlank c = true

/-- Layouts for the places in front of tokens, the first of them in front of all tokens, and the one
    that ends the text. This one may be empty, or end in an open line comment. -/
structure Spaced (lays : List (List Char)) (closing : List Char) : Prop where
  leading : ∀ lay ∈ lays.head?, Gap False lay
  between : ∀ lay ∈ lays.tail, Separator lay
  final : Gap True closing
  trailing : lays ≠ [] → ∀ c ∈ closing.head?, Text.isBlank c = true

/-- The text with the given layouts in front of the given texts, and one behind them. -/
def layOut (closing : List Char) : List (List Char) → List (List Char) → List Char
  | lay :: lays, text :: texts => lay ++ (text ++ layOut closing lays texts)
  | _, _ => closing

/-- The tokens with other layouts in front of them. -/
def relaid (lays : List (List Char)) (ts : List Token) : List Token :=
  List.zipWith (fun lay t => { t with layout := lay }) lays ts

/-- What is told of a token whatever its layout: its kind and its text. -/
def told (t : Token) : TokenKind × List Char := (t.kind, t.text)

theorem layOut_eq (hl : lays.length = ts.length) :
    layOut closing lays (ts.map text) = fullText (relaid lays ts) ++ closing := by
  induction ts generalizing lays with
  | nil =>
    cases lays with
    | nil => rfl
    | cons => cases hl
  | cons t ts ih =>
    cases lays with
    | nil => cases hl
    | cons lay lays => simp [layOut, relaid, ih (Nat.succ.inj hl)]

theorem map_told_relaid (hl : lays.length = ts.length) :
    (relaid lays ts).map told = ts.map told := by
  induction ts generalizing lays with
  | nil =>
    cases lays with
    | nil => rfl
    | cons => cases hl
  | cons t ts ih =>
    cases lays with
    | nil => cases hl
    | cons lay lays => simpa [relaid, told] using ih (Nat.succ.inj hl)

/-! ## Tokens by themselves -/

/-- Each token of a list is found in the text that it is by itself. -/
theorem Rescans.alone (h : Rescans ts rest) : ∀ t ∈ ts, Stands { t with layout := [] } [] := by
  intro t ht
  obtain ⟨before, after, rfl⟩ := List.append_of_mem ht
  have hrun : [t] <:+: before ++ t :: after := ⟨before, after, by simp⟩
  exact (h.of_run hrun).bare.1

/-- A token that is found by itself is found behind every layout and before all that it cannot run
    over. -/
theorem Stands.between (hl : IsLayout lay) (hr : Hard rest)
    (h : Stands { t with layout := [] } []) : Stands { t with layout := lay } rest := by
  have := (h.hard hr).indent hl
  simpa using this

theorem hard_relaid (ts : List Token) (hb : ∀ lay ∈ lays, Separator lay) (hc : Hard closing) :
    Hard (fullText (relaid lays ts) ++ closing) := by
  cases lays with
  | nil => exact hc
  | cons lay lays =>
    cases ts with
    | nil => exact hc
    | cons t ts =>
      obtain ⟨c, cs, rfl, hblank⟩ := (hb lay List.mem_cons_self).blank
      intro d hd
      simp only [relaid, List.zipWith_cons_cons, fullText_cons, List.cons_append, List.head?_cons,
        Option.some.injEq] at hd
      simp [isHard, ← hd, hblank]

theorem rescans_relaid (h : ∀ t ∈ ts, Stands { t with layout := [] } [])
    (hlead : ∀ lay ∈ lays.head?, Gap False lay) (hb : ∀ lay ∈ lays.tail, Separator lay)
    (hc : lays ≠ [] → Hard closing) : Rescans (relaid lays ts) closing := by
  induction ts generalizing lays with
  | nil => cases lays <;> trivial
  | cons t ts ih =>
    cases lays with
    | nil => trivial
    | cons lay lays =>
      have hhard := hc (List.cons_ne_nil lay lays)
      have ht := h t List.mem_cons_self
      refine ⟨ht.between (hlead lay rfl).isLayout (hard_relaid ts hb hhard), ?_⟩
      refine ih (fun u hu => h u (List.mem_cons_of_mem t hu)) (fun l hl => ?_) (fun l hl => ?_)
        fun _ => hhard
      · exact (hb l (List.mem_of_mem_head? hl)).gap
      · exact hb l (List.mem_of_mem_tail hl)

/-! ## Texts laid out anew -/

/-- **Layout does not matter.** If a text is scanned, then the texts of its tokens with any separators
    between them, and any layout in front and behind, are scanned to as many tokens, of the same kinds
    and the same texts. -/
theorem scan_layOut {s : String} (h : scan s = .ok ts) (hl : lays.length = ts.length)
    (hs : Spaced lays closing) :
    (scan (String.ofList (layOut closing lays (ts.map text)))).map (List.map told) =
      .ok (ts.map told) := by
  obtain ⟨old, hscan⟩ := exists_closing h
  have halone := (rescans_of_scanList hscan).1.alone
  have hhard : lays ≠ [] → Hard closing := by
    intro hne c hc
    simp [isHard, hs.trailing hne c hc]
  have hrescans := rescans_relaid halone hs.leading hs.between hhard
  have hnew : scanList (fullText (relaid lays ts) ++ closing) = .ok (relaid lays ts, closing) := by
    rw [scanList_append hrescans, hs.final.scanList]
    simp [prepend, Except.map]
  rw [scan, String.toList_ofList, layOut_eq hl, hnew, ← map_told_relaid hl]
  rfl

/-- A blank, a block comment around a quote and a comment line with a dollar. -/
def quotesInComments : List Char := ['\n', '/', '*', '\'', '*', '/', '-', '-', '$', '\n']

theorem separator_quotesInComments : Separator quotesInComments where
  gap := by
    have hquote : InsideBlock ['\''] := by
      unfold InsideBlock
      decide
    have hdollar : '\n' ∉ ['$'] := by decide
    exact .blank rfl (.block hquote (.line hdollar .nil))
  blank := ⟨_, _, rfl, rfl⟩

/-- One separator at all places. -/
theorem spaced_replicate (n : Nat) (h : Separator lay) : Spaced (List.replicate n lay) lay where
  leading l hl := List.eq_of_mem_replicate (List.mem_of_mem_head? hl) ▸ h.gap
  between l hl := List.eq_of_mem_replicate (List.mem_of_mem_tail hl) ▸ h
  final := h.gap.weaken
  trailing _ c hc := by
    obtain ⟨d, cs, rfl, hblank⟩ := h.blank
    cases hc
    exact hblank

/-- Tokens of all kinds, all of them touching, with the same comments around each. -/
theorem scan_layOut_touching :
    let text := "$1.+/**/-\"a\"\"\"'b''c'\"d\"$q$;$q$.5e.é--"
    let lays := List.replicate 12 quotesInComments
    ∃ ts, scan text = .ok ts ∧ lays.length = ts.length ∧ Spaced lays quotesInComments ∧
      (scan (String.ofList (layOut quotesInComments lays (ts.map Token.text)))).map
        (List.map told) = .ok (ts.map told) := by
  intro text lays
  have hspaced := spaced_replicate 12 separator_quotesInComments
  have hok : (scan text).toOption.any (fun ts => ts.length == 12) = true := by decide +kernel
  obtain ⟨ts, hscan, hlength⟩ := exists_ok_of_any hok
  have hl : lays.length = ts.length := by
    rw [List.length_replicate]
    exact (beq_iff_eq.1 hlength).symm
  exact ⟨ts, hscan, hl, hspaced, scan_layOut hscan hl hspaced⟩

end Schemata.Token
