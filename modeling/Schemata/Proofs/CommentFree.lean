/-
  Texts without comments.

  * Taking out a comment leaves a blank or a line end where it was, so no mark of a comment comes
    together anew (`startsComment_strip`): a text is stripped once and for all
    (`Comment.strip_strip`);
  * `strip_eq_self_iff`: without dollar-quoted literals, stripping leaves just those documents alone
    whose tokens have nothing but blanks around them;
  * `stripping_agrees`: stripping and scanning find the same comments and quotes.
-/
import Schemata.Proofs.Spacing
import Schemata.Proofs.Stripping

namespace Schemata

open Token
open Comment (stripFrom Place)

variable {c : Char} {cs lay closing : List Char} {ts : List Token}

/-! ## Stripping twice -/

/-- No comment starts in front of a blank. -/
theorem Token.startsComment_before_blank (h : ∀ d ∈ cs.head?, Text.isBlank d = true) :
    startsComment (c :: cs) = false := by
  cases cs with
  | nil => exact startsComment_eq_false (fun _ _ he => nomatch he) fun _ _ he => nomatch he
  | cons d cs =>
    have hd : d ≠ '-' ∧ d ≠ '*' := by
      constructor <;>
      · rintro rfl
        cases h _ rfl
    simp [startsComment_cons_cons, hd.1, hd.2]

namespace Comment

/-- A line comment leaves nothing in front of its line end. -/
theorem head?_stripFrom_line (cs : List Char) : ∀ d ∈ (stripFrom .line cs).head?, d = '\n' := by
  induction cs with
  | nil => exact fun d hd => nomatch hd
  | cons c cs ih =>
    rw [stripFrom_line]
    split
    · next hc => exact fun d hd => Option.some.inj hd ▸ hc
    · exact ih

/-- Stripping what follows a character puts no comment behind it. -/
theorem startsComment_strip (h : startsComment (c :: cs) = false) :
    startsComment (c :: stripFrom .text cs) = false := by
  cases cs with
  | nil => rwa [stripFrom_nil]
  | cons d cs =>
    cases hd : startsComment (d :: cs) with
    | false =>
      rw [stripFrom_cons hd, startsComment_cons_cons]
      rwa [startsComment_cons_cons] at h
    | true =>
      unfold Token.startsComment at hd
      split at hd
      · next he =>
        cases he
        refine startsComment_before_blank fun e hmem => ?_
        obtain rfl := head?_stripFrom_line _ e hmem
        rfl
      · next he =>
        cases he
        refine startsComment_before_blank fun e hmem => ?_
        obtain rfl := Option.some.inj hmem
        rfl
      · cases hd

/-- Where a text stands that is left from a place on: comments are gone. -/
def Place.left : Place → Place
  | .quoted q => .quoted q
  | _ => .text

theorem stripFrom_left {place : Place} (hp : ∀ q, place = .quoted q → q = '\'' ∨ q = '"')
    (cs : List Char) : stripFrom place.left (stripFrom place cs) = stripFrom place cs := by
  fun_induction stripFrom place cs with
  | case1 => rw [stripFrom_nil]
  | case2 cs ih => exact ih nofun
  | case3 cs ih =>
    show stripFrom .text (' ' :: stripFrom .block cs) = _
    rw [stripFrom_blank (by decide)]
    exact congrArg (' ' :: ·) (ih nofun)
  | case4 c cs h₁ h₂ ih =>
    have hc := startsComment_eq_false h₁ h₂
    show stripFrom .text (c :: stripFrom _ cs) = _
    by_cases hq : c = '\'' ∨ c = '"'
    · rw [if_pos hq] at ih ⊢
      have hne : c ≠ '-' ∧ c ≠ '/' := by rcases hq with rfl | rfl <;> decide
      rw [stripFrom_cons (startsComment_of_ne hne.1 hne.2 _), if_pos hq]
      exact congrArg (c :: ·) (ih fun q he => Place.quoted.inj he ▸ hq)
    · rw [if_neg hq] at ih ⊢
      rw [stripFrom_cons (startsComment_strip hc), if_neg hq]
      exact congrArg (c :: ·) (ih nofun)
  | case5 q c cs ih =>
    show stripFrom (.quoted q) (c :: stripFrom _ cs) = _
    rw [stripFrom]
    split
    · next hc =>
      rw [if_pos hc] at ih
      exact congrArg (c :: ·) (ih nofun)
    · next hc =>
      rw [if_neg hc] at ih
      exact congrArg (c :: ·) (ih hp)
  | case6 cs ih =>
    show stripFrom .text ('\n' :: stripFrom .text cs) = _
    rw [stripFrom_blank (by decide)]
    exact congrArg ('\n' :: ·) (ih nofun)
  | case7 c cs hc ih => exact ih nofun
  | case8 cs ih => exact ih nofun
  | case9 c cs hc ih => exact ih nofun

/-- A text without its comments has no comments. -/
theorem strip_strip (s : String) : strip (strip s) = strip s := by
  have hleft : stripFrom .text (stripFrom .text s.toList) = stripFrom .text s.toList :=
    @stripFrom_left .text (fun q he => by cases he) s.toList
  rw [strip, strip, String.toList_ofList, hleft]

end Comment

namespace Token

/-! ## Documents without comments -/

theorem stripFrom_blanks (h : ∀ c ∈ lay, Text.isBlank c = true) : stripFrom .text lay = lay := by
  induction lay with
  | nil => rw [stripFrom_nil]
  | cons c lay ih =>
    rw [List.forall_mem_cons] at h
    rw [stripFrom_blank h.1, ih h.2]

/-- Only blanks are left around tokens. -/
theorem isBlank_stripped (h : Rescans ts closing) :
    ∀ t ∈ ts.map stripped, ∀ c ∈ t.layout, Text.isBlank c = true := by
  intro t ht
  obtain ⟨u, hu, rfl⟩ := List.mem_map.1 ht
  obtain ⟨follow, hstands⟩ := h.exists_stands hu
  exact (LayoutBefore.of_span hstands.layout).isBlank

/-- Without dollar-quoted literals, stripping leaves a document alone just if there are only blanks
    around its tokens. -/
theorem strip_eq_self_iff (h : scanList cs = .ok (ts, closing))
    (hd : ∀ t ∈ ts, t.isDollarQuoted = false) : stripFrom .text cs = cs ↔
      (∀ t ∈ ts, ∀ c ∈ t.layout, Text.isBlank c = true) ∧ ∀ c ∈ closing, Text.isBlank c = true := by
  obtain ⟨hrescans, hclosing⟩ := rescans_of_scanList h
  constructor
  · intro hs
    have hstrip := scanList_strip h hd
    rw [hs, h, Except.ok.injEq, Prod.mk.injEq] at hstrip
    exact ⟨hstrip.1 ▸ isBlank_stripped hrescans, hstrip.2 ▸ isBlank_of_closing hclosing⟩
  · rintro ⟨hts, hc⟩
    have hmap : ts.map stripped = ts := by
      refine (List.map_congr_left fun t ht => ?_).trans (List.map_id ts)
      rw [stripped, stripFrom_blanks (hts t ht)]
      rfl
    rw [← fullText_append_of_scanList h, stripFrom_fullText hrescans hd, hmap, stripFrom_blanks hc]

/-- **Stripping and scanning find the same comments.** A text whose comments are taken out has none;
    and if a text is scanned and has no dollar-quoted literal, then without its comments it is scanned
    as the same tokens, with nothing but blanks around them. -/
theorem stripping_agrees (s : String) :
    Comment.strip (Comment.strip s) = Comment.strip s ∧
    ∀ ts, scan s = .ok ts → (∀ t ∈ ts, t.isDollarQuoted = false) →
      ∃ ts', scan (Comment.strip s) = .ok ts' ∧ ts'.map told = ts.map told ∧
        ∀ t ∈ ts', ∀ c ∈ t.layout, Text.isBlank c = true := by
  refine ⟨Comment.strip_strip s, fun ts hscan hd => ⟨ts.map stripped, scan_strip hscan hd, ?_, ?_⟩⟩
  · rw [List.map_map]
    rfl
  · obtain ⟨closing, hlist⟩ := exists_closing hscan
    exact isBlank_stripped (rescans_of_scanList hlist).1

/-- Comments that cut an operator, touch each other and hold a quote, and marks of comments between
    quotes. -/
theorem stripping_agrees_marks :
    let text := "a<-/* ' *//**/-'--''/*' \"/*\"\"--\"+-- \""
    Comment.strip (Comment.strip text) = Comment.strip text ∧
    ∃ ts, ts.length = 6 ∧ scan text = .ok ts ∧ (∀ t ∈ ts, t.isDollarQuoted = false) ∧
      ∃ ts', scan (Comment.strip text) = .ok ts' ∧ ts'.map told = ts.map told ∧
        ∀ t ∈ ts', ∀ c ∈ t.layout, Text.isBlank c = true := by
  intro text
  obtain ⟨htwice, hscan⟩ := stripping_agrees text
  have hok : (scan text).toOption.any (fun ts => ts.length == 6 &&
      ts.all fun t => !t.isDollarQuoted) = true := by decide +kernel
  obtain ⟨ts, hts, hcheck⟩ := exists_ok_of_any hok
  rw [Bool.and_eq_true, beq_iff_eq, List.all_eq_true] at hcheck
  have hd : ∀ t ∈ ts, t.isDollarQuoted = false := fun t ht => by simpa using hcheck.2 t ht
  exact ⟨htwice, ts, hcheck.1, hts, hd, hscan ts hts hd⟩

end Token

end Schemata
