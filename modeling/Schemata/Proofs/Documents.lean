/-
  Documents statement by statement.

  * `ClosedAs tells text b`: the text is one closed statement, and its tokens say `b` behind every
    layout; what it is to say something is left open;
  * `Run tells cs parts`: the text is a run of closed statements that say `parts` one after the other;
    such texts are put together by `Run.append`, and `run_sections` has headings between them;
  * `Run.statements`: the statements of a run are told apart, and each says its part;
  * `Says` and `SaysAll` are the case in which tokens are read as a statement, whatever its number:
    `readAll_of_saysAll`.
-/
import Mathlib.Data.List.Forall2
import Schemata.Ddl.Document
import Schemata.Proofs.Actions
import Schemata.Proofs.Written
import Schemata.Statement.Reader

namespace Schemata.Written

open Token Log

variable {β : Type} {tells : List Token → β → Prop} {cs cs' lay : List Char} {parts parts' : List β}
  {nodes : List Statement}

/-! ## One statement -/

/-- The tokens of a statement that says `b`, without the semicolon after them. -/
structure Spells (tells : List Token → β → Prop) (ts : List Token) (text : String) (b : β) :
    Prop where
  nonempty : ts ≠ []
  text : fullText ts ++ [';'] = text.toList
  firm : Firm ts
  /-- No semicolon outside parentheses ends the statement early. -/
  closed : clampedLevel (isPunct ';') 0 ts = some 0
  tells : ∀ lay, tells (indent lay ts) b

/-- The text is one statement, which says `b`. -/
def ClosedAs (tells : List Token → β → Prop) (text : String) (b : β) : Prop :=
  ∃ ts, Spells tells ts text b

/-! ## Runs of statements -/

/-- The tokens of closed statements, cut into pieces that say `parts`. -/
structure SpellsAll (tells : List Token → β → Prop) (ts : List Token) (parts : List β) : Prop where
  firm : Firm ts
  pieces : ∃ pieces : List (List Token),
    List.Forall₂ (fun piece b => piece ≠ [] ∧ tells piece b) pieces parts ∧
    ∀ us, statementsFrom 0 (ts ++ us) = pieces ++ statementsFrom 0 us

/-- The text is a run of closed statements; what is not empty ends with a semicolon. -/
def Run (tells : List Token → β → Prop) (cs : List Char) (parts : List β) : Prop :=
  (∀ c, cs.getLast? = some c → c = ';') ∧ ∃ ts, fullText ts = cs ∧ SpellsAll tells ts parts

theorem run_nil : Run tells [] [] :=
  ⟨nofun, [], rfl, firm_nil, [], .nil, fun _ => rfl⟩

theorem clampedLevel_indent (lay : List Char) {stop : Token → Bool} {d : Nat} {ts : List Token}
    (hs : ∀ k text lay lay', stop ⟨k, text, lay⟩ = stop ⟨k, text, lay'⟩) :
    clampedLevel stop d (indent lay ts) = clampedLevel stop d ts := by
  cases ts with
  | nil => rfl
  | cons t ts =>
    have : stop { t with layout := lay ++ t.layout } = stop t := hs _ _ _ _
    simp only [indent, clampedLevel, this, isPunct]
    rfl

/-- A closed statement is a run of statements. -/
theorem ClosedAs.run {text : String} {b : β} (h : ClosedAs tells text b) (hl : IsLayout lay) :
    Run tells (lay ++ text.toList) [b] := by
  obtain ⟨ts, hne, htext, hfirm, hclosed, htells⟩ := h
  refine ⟨?_, indent lay ts ++ [mark [] ';'], ?_, ?_, [indent lay ts], ?_, ?_⟩
  · intro c hc
    rw [← htext, ← List.append_assoc, List.getLast?_append] at hc
    cases hc
    rfl
  · rw [← htext, fullText_append, fullText_indent hne, List.append_assoc]
    rfl
  · exact (hfirm.indent hl).append (firm_mark isLayout_nil rfl (by decide) firm_nil)
      (startsHard_mark rfl)
  · refine .cons ⟨?_, htells lay⟩ .nil
    cases ts with
    | nil => exact absurd rfl hne
    | cons t ts => exact List.cons_ne_nil _ _
  · intro us
    rw [← clampedLevel_indent lay fun _ _ _ _ => rfl] at hclosed
    have hmark : statementsFrom 0 (mark [] ';' :: us) = [] :: statementsFrom 0 us := by
      rw [statementsFrom]
      rfl
    rw [List.append_assoc, List.singleton_append, statementsFrom_append hclosed, hmark, consAll_cons,
      List.append_nil]
    rfl

/-- Tokens whose text starts with a hard character do so themselves. -/
theorem startsHard_of_hard {ts : List Token} (h : Hard (fullText ts)) : StartsHard ts := by
  refine ⟨fun rest hr c hc => ?_⟩
  cases hf : fullText ts with
  | nil => rw [hf] at hc; exact hr c hc
  | cons d ds => rw [hf] at hc h; exact h c hc

/-- One run of statements after another. -/
theorem Run.append (h : Run tells cs parts) (h' : Run tells cs' parts') (hs : Hard cs') :
    Run tells (cs ++ cs') (parts ++ parts') := by
  obtain ⟨hlast, ts, rfl, hfirm, pieces, hp, happ⟩ := h
  obtain ⟨hlast', us, rfl, hfirm', pieces', hp', happ'⟩ := h'
  refine ⟨fun c hc => ?_, ts ++ us, fullText_append ts us,
    hfirm.append hfirm' (startsHard_of_hard hs),
    pieces ++ pieces', List.rel_append hp hp', fun vs => ?_⟩
  · rw [List.getLast?_append] at hc
    cases hl : (fullText us).getLast? with
    | none => rw [hl] at hc; exact hlast c hc
    | some d => rw [hl] at hc; cases hc; exact hlast' _ hl
  · rw [List.append_assoc, happ, happ', List.append_assoc]

/-- Statements with blank lines between them. -/
theorem run_list {texts : List String} (h : List.Forall₂ (ClosedAs tells) texts parts)
    (hne : texts ≠ []) (hl : IsLayout lay) :
    Run tells (lay ++ ("\n\n".intercalate texts).toList) parts := by
  induction h generalizing lay with
  | nil => exact absurd rfl hne
  | @cons text b texts parts hb h ih =>
    cases texts with
    | nil =>
      cases h
      simpa using hb.run hl
    | cons text' texts =>
      have hblank : IsLayout "\n\n".toList := isLayout_blanks (List.all_eq_true.1 rfl)
      have := (hb.run hl).append (ih (List.cons_ne_nil text' texts) hblank) (hard_cons rfl)
      simpa [String.intercalate_cons_cons] using this

/-! ## Sections -/

/-- A heading is a comment on a line of its own. -/
def IsHeading (heading : String) : Prop :=
  ∃ body : List Char, heading.toList = '-' :: '-' :: body ∧ '\n' ∉ body

theorem IsHeading.isLayout {heading : String} (h : IsHeading heading) :
    IsLayout (heading.toList ++ ['\n']) := by
  obtain ⟨body, hb, hn⟩ := h
  rw [hb]
  exact isLayout_comment hn

variable {sections : List (String × List String)}

theorem run_sections (hh : ∀ e ∈ sections, IsHeading e.1 ∧ e.2 ≠ [])
    (h : List.Forall₂ (ClosedAs tells) (sections.flatMap (·.2)) parts) (hne : sections ≠ [])
    (hl : IsLayout lay) :
    Run tells (lay ++ ("\n\n".intercalate (sections.map fun e => Ddl.sectionText e.1 e.2)).toList)
      parts := by
  induction sections generalizing lay parts with
  | nil => exact absurd rfl hne
  | cons e sections ih =>
    obtain ⟨hhead, htexts⟩ := hh e List.mem_cons_self
    rw [List.flatMap_cons] at h
    have h' : List.Forall₂ (flip (ClosedAs tells)) parts (e.2 ++ sections.flatMap (·.2)) := h.flip
    obtain ⟨parts₁, parts₂, h₁, h₂, rfl⟩ : ∃ parts₁ parts₂,
        List.Forall₂ (ClosedAs tells) e.2 parts₁ ∧
        List.Forall₂ (ClosedAs tells) (sections.flatMap (·.2)) parts₂ ∧ parts = parts₁ ++ parts₂ :=
      ⟨_, _, (List.forall₂_take_append parts _ _ h').flip,
        (List.forall₂_drop_append parts _ _ h').flip,
        (List.take_append_drop e.2.length parts).symm⟩
    have hfirst := run_list h₁ htexts (hl.append hhead.isLayout)
    cases sections with
    | nil =>
      cases h₂
      simpa [Ddl.sectionText] using hfirst
    | cons e' sections =>
      have hblank : IsLayout "\n\n".toList := isLayout_blanks (List.all_eq_true.1 rfl)
      have hrest := ih (fun e'' he => hh e'' (List.mem_cons_of_mem e he)) h₂
        (List.cons_ne_nil e' sections) hblank
      have := hfirst.append hrest (hard_cons rfl)
      simpa [Ddl.sectionText, String.intercalate_cons_cons] using this

/-! ## Telling statements apart -/

/-- **A run of closed statements is split into its statements.** -/
theorem Run.statements {s : String} (h : Run tells s.toList parts) :
    ∃ ts, Token.scan s = .ok ts ∧ List.Forall₂ tells (Token.statements ts) parts := by
  obtain ⟨-, ts, htext, hfirm, pieces, hp, happ⟩ := h
  obtain ⟨hne, htells⟩ := (List.forall₂_and_left pieces parts).1 hp
  have hstatements : Token.statements ts = pieces := by
    have := happ []
    rw [List.append_nil] at this
    rw [Token.statements, this, statementsFrom, List.filter_append, List.filter_eq_self.2]
    · simp
    · intro piece hpiece
      simp [hne piece hpiece]
  refine ⟨ts, ?_, hstatements ▸ htells⟩
  rw [Token.scan, scanList_of_firm hfirm htext]
  rfl

/-! ## Reading -/

/-- The tokens are read as a statement, whatever its number. -/
def ReadsAs (piece : List Token) (s : Statement) : Prop :=
  ∀ index, (Statement.readOne index piece).result = .ok [s]

/-- The text is one statement. -/
abbrev Says (text : String) (s : Statement) : Prop := ClosedAs ReadsAs text s

/-- The text is a run of closed statements. -/
abbrev SaysAll (cs : List Char) (nodes : List Statement) : Prop := Run ReadsAs cs nodes

theorem readFrom_of_forall₂ {pieces : List (List Token)} (h : List.Forall₂ ReadsAs pieces nodes)
    (index : Nat) : (Statement.readFrom index pieces).result = .ok nodes := by
  induction h generalizing index with
  | nil => rfl
  | @cons piece s pieces nodes hp _ ih =>
    rw [Statement.readFrom, Action.result_bind, Action.result_within, hp index, Except.bind,
      Action.result_bind, ih, Except.bind, Action.result_pure]
    rfl

/-- **Reading a document.** A run of closed statements is read as what its statements say. -/
theorem readAll_of_saysAll {s : String} (h : SaysAll s.toList nodes) :
    (Statement.readAll s).result = .ok nodes := by
  obtain ⟨ts, hscan, hreads⟩ := h.statements
  have hscan : Statement.scan s = .ok ts := by
    rw [Statement.scan, hscan]
    rfl
  rw [Statement.readAll, Action.result_bind, Action.result_ofExcept, hscan, Except.bind]
  exact readFrom_of_forall₂ hreads 1

end Schemata.Written
