/-
  Documents put together.  A semicolon on a line of its own separates what stands before it from what
  stands behind it.

  * The layout that ends a document goes on up to the next line (`isLayout_closing`), so the tokens
    of the whole are those of the parts with a semicolon between them (`scanList_seam`);
  * outside parentheses the semicolon cuts the tokens (`statementsFrom_seam`);
  * what a statement says depends neither on its number nor on the layout in front of it
    (`toOption_readOne`, `readOne_indent`);
  * `Statement.readAll_seam`: the whole says what the first part says and then what the second one
    says, and it is refused just if one of them is.
-/
import Schemata.Proofs.Documents
import Schemata.Proofs.Reading

namespace Schemata.Token

open Text (consFirst)

variable {ts us : List Token} {lay cs rest closing : List Char}

/-! ## Scanning -/

/-- The same place, in a block comment that started elsewhere if it is one. -/
def LayoutPlace.since (n : Nat) : LayoutPlace → LayoutPlace
  | .block _ => .block n
  | place => place

/-- A layout that fills a text goes on to the next line, and there the layout starts afresh.  A comment
    that is closed within the layout started where it did: any `n` will do for it. -/
theorem LayoutBefore.span_newline {place : LayoutPlace} (h : LayoutBefore place closing [])
    (n : Nat) (cs : List Char) : spanLayoutFrom (place.since n) (closing ++ '\n' :: cs) =
      prependLayout (closing ++ ['\n']) (spanLayout cs) := by
  generalize hrest : [] = rest at h
  induction h generalizing n with
  | @finish place hp =>
    cases place with
    | between => exact isLayout_blank (by decide) cs
    | line =>
      show spanLayoutFrom .line ('\n' :: cs) = _
      rw [spanLayoutFrom_line, if_pos rfl]
      rfl
    | block n => exact absurd rfl (hp n)
  | stop => cases hrest
  | @blank c closing _ hb _ ih =>
    show spanLayout ([c] ++ (closing ++ '\n' :: cs)) = _
    rw [isLayout_blank hb, show spanLayout (closing ++ '\n' :: cs) = _ from ih n hrest]
    exact (prependLayout_append [c] _ _).symm
  | @dashes closing _ _ ih =>
    show spanLayoutFrom .between ('-' :: '-' :: (closing ++ '\n' :: cs)) = _
    rw [spanLayoutFrom_dashes, show spanLayoutFrom .line (closing ++ '\n' :: cs) = _ from ih n hrest]
    exact (prependLayout_append ['-', '-'] _ _).symm
  | @line c closing _ hc _ ih =>
    show spanLayoutFrom .line (c :: (closing ++ '\n' :: cs)) = _
    rw [spanLayoutFrom_line, if_neg hc,
      show spanLayoutFrom .line (closing ++ '\n' :: cs) = _ from ih n hrest]
    exact (prependLayout_append [c] _ _).symm
  | @newline closing _ _ ih =>
    show spanLayoutFrom .line ('\n' :: (closing ++ '\n' :: cs)) = _
    rw [spanLayoutFrom_line, if_pos rfl,
      show spanLayoutFrom .between (closing ++ '\n' :: cs) = _ from ih n hrest]
    exact (prependLayout_append ['\n'] _ _).symm
  | @opened _ closing _ _ ih =>
    show spanLayoutFrom .between ('/' :: '*' :: (closing ++ '\n' :: cs)) = _
    rw [spanLayoutFrom_open,
      show spanLayoutFrom (.block _) (closing ++ '\n' :: cs) = _ from ih _ hrest]
    exact (prependLayout_append ['/', '*'] _ _).symm
  | @inside _ c closing _ hc h ih =>
    show spanLayoutFrom (.block n) (c :: (closing ++ '\n' :: cs)) = _
    rw [spanLayoutFrom_inside n (by rwa [h.head?_append]),
      show spanLayoutFrom (.block n) (closing ++ '\n' :: cs) = _ from ih n hrest]
    exact (prependLayout_append [c] _ _).symm
  | @closed _ closing _ _ ih =>
    show spanLayoutFrom (.block n) ('*' :: '/' :: (closing ++ '\n' :: cs)) = _
    rw [spanLayoutFrom_close, show spanLayoutFrom .between (closing ++ '\n' :: cs) = _ from ih n hrest]
    exact (prependLayout_append ['*', '/'] _ _).symm

/-- The layout that ends a document is layout in front of a new line. -/
theorem isLayout_closing (h : scanList closing = .ok ([], closing)) :
    IsLayout (closing ++ ['\n']) := by
  have hspan : spanLayout closing = .ok (closing, []) := by
    rw [scanList] at h
    split at h
    · cases h
    · next hl => cases h; exact hl
    · split at h
      · cases h
      · next rest _ =>
        cases hs : scanList rest <;> rw [hs] at h <;> cases h
  intro cs
  rw [List.append_assoc, List.singleton_append]
  exact (LayoutBefore.of_span hspan).span_newline 0 cs

theorem Rescans.append_hard (hr : Hard rest) (h : Rescans ts cs) : Rescans ts (cs ++ rest) := by
  induction ts with
  | nil => trivial
  | cons t ts ih =>
    refine ⟨?_, ih h.2⟩
    rw [← List.append_assoc]
    exact h.1.hard hr

/-- What is scanned behind some layout. -/
def behind (lay : List Char) : List Token × List Char → List Token × List Char
  | ([], closing) => ([], lay ++ closing)
  | (ts, closing) => (indent lay ts, closing)

theorem behind_fst (lay : List Char) (r : List Token × List Char) :
    (behind lay r).1 = indent lay r.1 := by
  obtain ⟨_ | _, _⟩ := r <;> rfl

/-- One token is scanned after the other. -/
theorem scanList_eq (cs : List Char) : scanList cs =
    (spanLayout cs).bind fun
      | (layout, []) => .ok ([], layout)
      | (layout, c :: cs') => (lexeme c cs').bind fun x =>
        (scanList x.2.2).map (prepend [⟨x.1, x.2.1, layout⟩]) := by
  rw [scanList]
  split
  · next he => rw [he]; rfl
  · next he => rw [he]; rfl
  · next he =>
    rw [he]
    dsimp only [Except.bind]
    split
    · next hx => rw [hx]
    · next hx => rw [hx]; rfl

theorem scanList_behind (hl : IsLayout lay) (cs : List Char) :
    scanList (lay ++ cs) = (scanList cs).map (behind lay) := by
  rw [scanList_eq, scanList_eq cs, hl cs]
  cases spanLayout cs with
  | error e => rfl
  | ok r =>
    obtain ⟨layout, _ | ⟨c, cs'⟩⟩ := r
    · rfl
    · show (lexeme c cs').bind _ = ((lexeme c cs').bind _).map _
      cases lexeme c cs' with
      | error e => rfl
      | ok x =>
        show (scanList x.2.2).map _ = ((scanList x.2.2).map _).map _
        cases scanList x.2.2 <;> rfl

/-- The semicolon of a seam, behind the layout that ends the first document. -/
def seamMark (closing : List Char) : Token := ⟨.punct, [';'], closing ++ ['\n']⟩

/-- The tokens of two documents with a semicolon on a line of its own between them. -/
theorem scanList_seam (h : scanList cs = .ok (ts, closing)) (cs' : List Char) :
    scanList (cs ++ ('\n' :: ';' :: '\n' :: cs')) =
      (scanList cs').map fun r => prepend (ts ++ [seamMark closing]) (behind ['\n'] r) := by
  obtain ⟨hrescans, hclosing⟩ := rescans_of_scanList h
  have hfirst : Rescans ts (closing ++ ('\n' :: ';' :: '\n' :: cs')) :=
    hrescans.append_hard fun c hc => by cases hc; decide
  have hmark : (seamMark closing).Stands ('\n' :: cs') :=
    stands_mark (isLayout_closing hclosing) (by decide) fun hc => absurd hc (by decide)
  have hbehind : scanList ('\n' :: cs') = (scanList cs').map (behind ['\n']) :=
    scanList_behind (isLayout_blank (by decide)) cs'
  have hseam : closing ++ ('\n' :: ';' :: '\n' :: cs') =
      (seamMark closing).layout ++ ((seamMark closing).text ++ '\n' :: cs') := by
    simp [seamMark]
  rw [← fullText_append_of_scanList h, List.append_assoc, scanList_append hfirst, hseam,
    scanList_of_stands hmark, hbehind]
  cases scanList cs' with
  | error e => rfl
  | ok r => simp [Except.map, prepend]

/-! ## Cutting at the semicolon -/

/-- The number of parentheses that are open after some tokens, when `depth` are open before; a
    closing one too many counts for nothing. -/
def openAfter (depth : Nat) : List Token → Nat
  | [] => depth
  | t :: ts =>
    if t.isPunct '(' then openAfter (depth + 1) ts
    else if t.isPunct ')' then openAfter (depth - 1) ts
    else openAfter depth ts

theorem exists_statementsFrom (depth : Nat) (ts : List Token) :
    ∃ piece pieces, statementsFrom depth ts = piece :: pieces := by
  cases ts with
  | nil => exact ⟨[], [], rfl⟩
  | cons t ts =>
    have hcons (pieces : List (List Token)) : ∃ piece rest, consFirst t pieces = piece :: rest := by
      cases pieces with
      | nil => exact ⟨[t], [], rfl⟩
      | cons piece pieces => exact ⟨t :: piece, pieces, rfl⟩
    rw [statementsFrom]
    split
    · exact hcons _
    split
    · exact hcons _
    split
    · exact ⟨[], _, rfl⟩
    · exact hcons _

/-- A semicolon outside parentheses cuts. -/
theorem statementsFrom_seam {depth : Nat} {t : Token} (ht : t.isPunct ';' = true)
    (h : openAfter depth ts = 0) (us : List Token) :
    statementsFrom depth (ts ++ t :: us) = statementsFrom depth ts ++ statementsFrom 0 us := by
  have hcons (u : Token) (depth : Nat) (ts : List Token) (pieces : List (List Token)) :
      consFirst u (statementsFrom depth ts ++ pieces) =
        consFirst u (statementsFrom depth ts) ++ pieces := by
    obtain ⟨piece, rest, he⟩ := exists_statementsFrom depth ts
    rw [he]
    rfl
  induction ts generalizing depth with
  | nil =>
    obtain rfl : depth = 0 := h
    have ho := isPunct_ne (e := '(') ht (by decide)
    have hc := isPunct_ne (e := ')') ht (by decide)
    rw [List.nil_append, statementsFrom]
    simp [ht, ho, hc, statementsFrom]
  | cons u ts ih =>
    rw [openAfter] at h
    rw [List.cons_append, statementsFrom, statementsFrom]
    split at h
    · next ho => rw [if_pos ho, if_pos ho, ih h, hcons]
    next ho =>
    rw [if_neg ho, if_neg ho]
    split at h
    · next hc => rw [if_pos hc, if_pos hc, ih h, hcons]
    next hc =>
    rw [if_neg hc, if_neg hc, ih h]
    split
    · rfl
    · exact hcons _ _ _ _

theorem statements_seam {t : Token} (ht : t.isPunct ';' = true) (h : openAfter 0 ts = 0)
    (us : List Token) : statements (ts ++ t :: us) = statements ts ++ statements us := by
  rw [statements, statementsFrom_seam ht h, List.filter_append, ← statements, ← statements]

/-- Layout in front of a document is layout in front of its first piece. -/
theorem statementsFrom_indent (lay : List Char) (depth : Nat) (ts : List Token) :
    ∃ piece pieces, statementsFrom depth ts = piece :: pieces ∧
      statementsFrom depth (indent lay ts) = indent lay piece :: pieces := by
  cases ts with
  | nil => exact ⟨[], [], rfl, rfl⟩
  | cons t ts =>
    have hcons (depth : Nat) : ∃ piece pieces,
        consFirst t (statementsFrom depth ts) = piece :: pieces ∧
          consFirst { t with layout := lay ++ t.layout } (statementsFrom depth ts) =
            indent lay piece :: pieces := by
      obtain ⟨piece, pieces, he⟩ := exists_statementsFrom depth ts
      rw [he]
      exact ⟨t :: piece, pieces, rfl, rfl⟩
    have hmark (c : Char) : isPunct c { t with layout := lay ++ t.layout } = t.isPunct c := rfl
    simp only [indent, statementsFrom, hmark]
    split
    · exact hcons _
    split
    · exact hcons _
    split
    · exact ⟨[], _, rfl, rfl⟩
    · exact hcons _

end Schemata.Token

namespace Schemata.Statement

open Token Cursor Log

variable {ts us : List Token} {pieces : List (List Token)}

/-! ## One statement -/

theorem accept_indent (lay : List Char) (word : String) (words : List String) (ts : List Token) :
    accept (word :: words) (indent lay ts) = accept (word :: words) ts := by
  cases ts <;> rfl

theorem opening_indent (lay : List Char) (ts : List Token) : opening (indent lay ts) = opening ts := by
  simp only [opening, accept_indent]

/-- The layout in front of a statement says nothing. -/
theorem readOne_indent (lay : List Char) (index : Nat) (ts : List Token) :
    readOne index (indent lay ts) = readOne index ts := by
  unfold readOne strict
  rw [opening_indent, source_indent]

theorem toOption_mapError {ε ε' α : Type} (f : ε → ε') (r : Except ε α) :
    (r.mapError f).toOption = r.toOption := by
  cases r <;> rfl

/-- What a statement says does not depend on its number. -/
theorem toOption_readOne (i j : Nat) (ts : List Token) :
    (readOne i ts).result.toOption = (readOne j ts).result.toOption := by
  have hpassed (index : Nat) (r : Except ParseFault (List Statement)) :
      (lenient index r).result = .ok (r.toOption.getD []) := by
    cases r <;> rfl
  have hlenient (r : Except ParseFault (List Statement)) :
      (lenient i r).result.toOption = (lenient j r).result.toOption := by
    rw [hpassed, hpassed]
  have hstrict (r : Action ParseFault (List Statement)) :
      (strict i ts r).result.toOption = (strict j ts r).result.toOption := by
    rw [strict, strict, Action.result_adapt, Action.result_adapt, toOption_mapError,
      toOption_mapError]
  unfold readOne
  split
  · exact hlenient _
  · exact hstrict _
  · exact hstrict _
  · exact hlenient _
  · exact hlenient _
  · rfl

/-! ## Documents -/

theorem toOption_bind {ε α β : Type} (r : Except ε α) (f : α → Except ε β) :
    (r.bind f).toOption = r.toOption.bind fun a => (f a).toOption := by
  cases r <;> rfl

theorem toOption_readFrom_cons (index : Nat) (ts : List Token) (pieces : List (List Token)) :
    (readFrom index (ts :: pieces)).result.toOption =
      (readOne index ts).result.toOption.bind fun first =>
        (readFrom (index + 1) pieces).result.toOption.map (first ++ ·) := by
  rw [readFrom, Action.result_bind, Action.result_within, toOption_bind]
  congr 1
  funext first
  rw [Action.result_bind]
  cases (readFrom (index + 1) pieces).result <;> rfl

theorem toOption_readFrom (i j : Nat) (pieces : List (List Token)) :
    (readFrom i pieces).result.toOption = (readFrom j pieces).result.toOption := by
  induction pieces generalizing i j with
  | nil => rfl
  | cons ts pieces ih =>
    rw [toOption_readFrom_cons, toOption_readFrom_cons, toOption_readOne i j, ih (i + 1) (j + 1)]

theorem toOption_readFrom_append (i j k : Nat) (pieces more : List (List Token)) :
    (readFrom i (pieces ++ more)).result.toOption =
      (readFrom j pieces).result.toOption.bind fun first =>
        (readFrom k more).result.toOption.map (first ++ ·) := by
  induction pieces generalizing i j with
  | nil =>
    rw [List.nil_append, toOption_readFrom i k]
    show _ = (readFrom k more).result.toOption.map ([] ++ ·)
    simp
  | cons ts pieces ih =>
    rw [List.cons_append, toOption_readFrom_cons, toOption_readFrom_cons, toOption_readOne i j,
      ih (i + 1) (j + 1)]
    cases (readOne j ts).result.toOption <;> cases (readFrom (j + 1) pieces).result.toOption <;>
      simp [Function.comp_def]

theorem readFrom_statements_indent (lay : List Char) (index : Nat) (ts : List Token) :
    readFrom index (statements (indent lay ts)) = readFrom index (statements ts) := by
  obtain ⟨piece, pieces, hts, hindent⟩ := statementsFrom_indent lay 0 ts
  rw [statements, statements, hts, hindent]
  cases piece with
  | nil => rfl
  | cons t piece =>
    rw [List.filter_cons_of_pos rfl, List.filter_cons_of_pos rfl, readFrom, readFrom, readOne_indent]

/-- What a document says, if it is not refused. -/
theorem toOption_readAll (s : String) : (readAll s).result.toOption =
    (scanList s.toList).toOption.bind fun r => (readFrom 1 (statements r.1)).result.toOption := by
  rw [readAll, Action.result_bind, Action.result_ofExcept, toOption_bind, Statement.scan,
    toOption_mapError, Token.scan]
  cases scanList s.toList <;> rfl

theorem scanList_of_scan {s : String} (h : scan s = .ok ts) :
    ∃ closing, scanList s.toList = .ok (ts, closing) := by
  rw [Statement.scan, Token.scan] at h
  cases hlist : scanList s.toList with
  | error e =>
    rw [hlist] at h
    cases h
  | ok r =>
    rw [hlist] at h
    cases h
    exact ⟨r.2, rfl⟩

theorem toOption_readAll_seam {a : String} (b : String) (ha : scan a = .ok ts)
    (h : openAfter 0 ts = 0) : (readAll (a ++ "\n;\n" ++ b)).result.toOption =
      (readAll a).result.toOption.bind fun first =>
        (readAll b).result.toOption.map (first ++ ·) := by
  obtain ⟨closing, hlist⟩ := scanList_of_scan ha
  have htext : (a ++ "\n;\n" ++ b).toList = a.toList ++ ('\n' :: ';' :: '\n' :: b.toList) := by
    simp
  rw [toOption_readAll, toOption_readAll a, toOption_readAll b, htext, scanList_seam hlist, hlist]
  cases scanList b.toList with
  | error e =>
    show none = (readFrom 1 (statements ts)).result.toOption.bind fun _ => none
    rw [Option.bind_fun_none]
  | ok r =>
    have htokens : ts ++ [seamMark closing] ++ (behind ['\n'] r).1 =
        ts ++ seamMark closing :: indent ['\n'] r.1 := by
      rw [behind_fst, List.append_assoc, List.singleton_append]
    show (readFrom 1 (statements (ts ++ [seamMark closing] ++ (behind ['\n'] r).1))).result.toOption = _
    rw [htokens, statements_seam rfl h, toOption_readFrom_append 1 1 1, readFrom_statements_indent]
    rfl

/-- **Statements are read independently of their neighbours.** Let no parenthesis be open at the end
    of a document.  Then with a semicolon on a line of its own behind it, another document says what
    it says alone, and the whole is refused just if one of the two is. -/
theorem readAll_seam {a : String} (b : String) (ha : scan a = .ok ts) (h : openAfter 0 ts = 0) :
    (∀ first second, (readAll a).result = .ok first → (readAll b).result = .ok second →
      (readAll (a ++ "\n;\n" ++ b)).result = .ok (first ++ second)) ∧
    ((∃ e, (readAll (a ++ "\n;\n" ++ b)).result = .error e) ↔
      (∃ e, (readAll a).result = .error e) ∨ ∃ e, (readAll b).result = .error e) := by
  have hwhole := toOption_readAll_seam b ha h
  constructor
  · intro first second hfirst hsecond
    rw [hfirst, hsecond] at hwhole
    exact toOption_eq_some.1 hwhole
  · rw [← toOption_eq_none, ← toOption_eq_none, ← toOption_eq_none, hwhole]
    cases (readAll a).result.toOption <;> cases (readAll b).result.toOption <;> simp

/-- A document that ends within a comment. -/
theorem readAll_seam_comment :
    let a := "COMMENT ON TABLE t IS 'x' -- ;"
    let b := "CREATE TYPE m AS ENUM ('y')"
    (∃ ts, scan a = .ok ts ∧ openAfter 0 ts = 0) ∧
    (∀ first second, (readAll a).result = .ok first → (readAll b).result = .ok second →
      (readAll (a ++ "\n;\n" ++ b)).result = .ok (first ++ second)) ∧
    ((∃ e, (readAll (a ++ "\n;\n" ++ b)).result = .error e) ↔
      (∃ e, (readAll a).result = .error e) ∨ ∃ e, (readAll b).result = .error e) := by
  intro a b
  have hok : (scan a).toOption.any (fun ts => openAfter 0 ts == 0) = true := by decide +kernel
  obtain ⟨ts, hts, hopen⟩ := (Option.any_eq_true _ _).1 hok
  have hscan := toOption_eq_some.1 hts
  have hzero := beq_iff_eq.1 hopen
  exact ⟨⟨ts, hscan, hzero⟩, readAll_seam b hscan hzero⟩

end Schemata.Statement
