/-
  Quoting and reading quotes.

  * `enclosed` writes a name between double quotes, whatever is in it; `Quote.literal` writes a text
    between single quotes;
  * `Heads t front rest`: the scanner finds the token `t` as the whole of `front` and scans `rest` by
    itself; `heads_literal` and `heads_enclosed`: so it finds what was quoted;
  * `double_of_closeQuote?`: up to a closing quote the text is one with all its quotes doubled, so a
    quoted token is the quoted form of what it denotes (`text_of_quoted`, `text_of_literal`);
  * `quoting_inverse` puts both directions together.
-/
import Schemata.Proofs.Coverage
import Schemata.Proofs.Reading

namespace Schemata.Quote

/-- A name between double quotes; other than by `Quote.name`, quotes around it are doubled like those
    inside. -/
def enclosed (s : String) : String := String.ofList (encloseName s.toList)

theorem unquote_enclosed (s : String) : unquote (enclosed s) = s := by
  rw [unquote, enclosed, String.toList_ofList, unquoteList_encloseName, String.ofList_toList]

end Schemata.Quote

namespace Schemata.Token

variable {t : Token} {ts : List Token} {cs follow : List Char} {front rest : String}

/-! ## From what is quoted to the token -/

/-- The token is the first text, from its start to its end, and the second text is scanned by
    itself. -/
structure Heads (t : Token) (front rest : String) : Prop where
  text : t.text = front.toList
  span : spans 0 [t] = [(0, front.length)]
  scan : Token.scan (front ++ rest) = (Token.scan rest).map (t :: ·)

theorem heads_of_stands {kind : TokenKind} (h : Stands ⟨kind, front.toList, []⟩ rest.toList) :
    Heads ⟨kind, front.toList, []⟩ front rest where
  text := rfl
  span := by simp [spans, String.length_toList]
  scan := by
    have hscan := scanList_of_stands h
    rw [List.nil_append] at hscan
    rw [Token.scan, Token.scan, String.toList_append, hscan]
    cases scanList rest.toList with
    | error e => rfl
    | ok r => rfl

/-- The literal of a text is found as one token before everything but another quote. -/
theorem heads_literal (s : String) (hr : ∀ c ∈ rest.toList.head?, c ≠ '\'') :
    Heads ⟨.string, (Quote.literal s).toList, []⟩ (Quote.literal s) rest := by
  refine heads_of_stands ?_
  rw [Quote.literal, String.toList_ofList]
  exact stands_literal isLayout_nil s.toList hr

/-- A name between quotes is found as one token before everything but another quote. -/
theorem heads_enclosed (s : String) (hr : ∀ c ∈ rest.toList.head?, c ≠ '"') :
    Heads ⟨.quoted, (Quote.enclosed s).toList, []⟩ (Quote.enclosed s) rest := by
  refine heads_of_stands ?_
  rw [Quote.enclosed, String.toList_ofList]
  exact stands_quoted isLayout_nil s.toList hr

/-! ## From the token to what is quoted -/

/-- Up to the closing quote every quote is doubled. -/
theorem double_of_closeQuote? {q : Char} {body : List Char}
    (h : closeQuote? q cs = some (body, follow)) :
    ∃ content, body = Text.double q content ++ [q] := by
  fun_induction closeQuote? q cs generalizing body with
  | case1 => cases h
  | case2 =>
    cases h
    exact ⟨[], rfl⟩
  | case3 => cases h
  | case4 cs ih =>
    obtain ⟨⟨b, m⟩, hb, he⟩ := Option.map_eq_some_iff.1 h
    cases he
    obtain ⟨content, rfl⟩ := ih hb
    exact ⟨q :: content, by simp [Text.double]⟩
  | case5 =>
    cases h
    exact ⟨[], rfl⟩
  | case6 c d cs hc ih =>
    obtain ⟨⟨b, m⟩, hb, he⟩ := Option.map_eq_some_iff.1 h
    cases he
    obtain ⟨content, rfl⟩ := ih hb
    exact ⟨c :: content, by simp [Text.double, hc]⟩

/-- A quoted name is the name that it denotes, quoted. -/
theorem text_of_quoted (h : t.Stands follow) (hk : t.kind = .quoted) :
    t.text = Quote.encloseName t.identifier.toList := by
  obtain ⟨c, tail, ht, hx⟩ := h.lexeme
  rw [ht, hk, lexeme_eq_ok_iff] at hx
  cases hx with
  | name hc hq =>
    obtain ⟨content, rfl⟩ := double_of_closeQuote? hq
    subst hc
    have htext : t.text = Quote.encloseName content := ht
    simp [identifier, hk, htext, Quote.unquoteList_encloseName]

/-- A literal between single quotes is the text that it denotes, quoted. -/
theorem text_of_literal (h : t.Stands follow) (hk : t.kind = .string)
    (hq : t.text.head? = some '\'') : t.text = Quote.literalList t.stringValue.toList := by
  obtain ⟨c, tail, ht, hx⟩ := h.lexeme
  rw [ht, List.head?_cons, Option.some.injEq] at hq
  rw [ht, hk, lexeme_eq_ok_iff] at hx
  cases hx with
  | literal _ hclose =>
    obtain ⟨content, rfl⟩ := double_of_closeQuote? hclose
    subst hq
    have htext : t.text = Quote.literalList content := ht
    simp [stringValue, htext, Quote.literalList]
  | dollarQuote hc =>
    -- a text between dollar tags starts with a dollar
    rw [hq] at hc
    cases hc

theorem exists_stands {s : String} (h : scan s = .ok ts) (ht : t ∈ ts) :
    ∃ follow, t.Stands follow := by
  obtain ⟨closing, hscan⟩ := exists_closing h
  exact (rescans_of_scanList hscan).1.exists_stands ht

/-! ## Both directions -/

/-- **Quoting and reading quotes undo each other.** Every text, quoted either way, is found as one
    token that denotes it, before every rest that does not begin with the same quote, and the rest is
    scanned by itself. Every quoted token of a text is what it denotes, quoted. -/
theorem quoting_inverse (s rest : String) :
    ((∀ c ∈ rest.toList.head?, c ≠ '\'') →
      ∃ t : Token, t.kind = .string ∧ t.stringValue = s ∧ t.Heads (Quote.literal s) rest) ∧
    ((∀ c ∈ rest.toList.head?, c ≠ '"') →
      ∃ t : Token, t.kind = .quoted ∧ t.identifier = s ∧ t.Heads (Quote.enclosed s) rest) ∧
    ∀ text ts, scan text = .ok ts → ∀ t ∈ ts,
      (t.kind = .quoted → Quote.enclosed t.identifier = String.ofList t.text) ∧
      (t.kind = .string → t.text.head? = some '\'' →
        Quote.literal t.stringValue = String.ofList t.text) := by
  refine ⟨fun hr => ?_, fun hr => ?_, fun text ts hscan t ht => ?_⟩
  · refine ⟨_, rfl, ?_, heads_literal s hr⟩
    simp [stringValue, Quote.literal, Quote.literalList]
  · refine ⟨_, rfl, ?_, heads_enclosed s hr⟩
    simpa [identifier, Quote.unquote] using Quote.unquote_enclosed s
  · obtain ⟨follow, hstands⟩ := exists_stands hscan ht
    constructor
    · intro hk
      rw [text_of_quoted hstands hk, Quote.enclosed]
    · intro hk hq
      rw [text_of_literal hstands hk hq, Quote.literal]

/-- A text of nothing but quotes, quoted either way before a quote of the other kind, and a text whose
    two tokens are such forms. -/
theorem quoting_inverse_quotes :
    let s := "''\"\""
    let text := "\"\"\"\"''''"
    (∃ t : Token, t.kind = .string ∧ t.stringValue = s ∧ t.Heads (Quote.literal s) "\"") ∧
    (∃ t : Token, t.kind = .quoted ∧ t.identifier = s ∧ t.Heads (Quote.enclosed s) "'") ∧
    ∃ ts, scan text = .ok ts ∧ ts.map kind = [.quoted, .string] ∧ ∀ t ∈ ts,
      (t.kind = .quoted → Quote.enclosed t.identifier = String.ofList t.text) ∧
      (t.kind = .string → t.text.head? = some '\'' →
        Quote.literal t.stringValue = String.ofList t.text) := by
  intro s text
  have hdouble : ∀ c ∈ "\"".toList.head?, c ≠ '\'' := by simp
  have hsingle : ∀ c ∈ "'".toList.head?, c ≠ '"' := by simp
  have hok : (scan text).toOption.any (fun ts => ts.map kind == [.quoted, .string]) = true := by
    decide +kernel
  obtain ⟨ts, hscan, hkinds⟩ := exists_ok_of_any hok
  have hliteral := (quoting_inverse s "\"").1 hdouble
  have hname := (quoting_inverse s "'").2.1 hsingle
  have hback := (quoting_inverse s "").2.2 text ts hscan
  have hkinds := beq_iff_eq.1 hkinds
  exact ⟨hliteral, hname, ts, hscan, hkinds, hback⟩

end Schemata.Token
