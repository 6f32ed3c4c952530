/-
  Type texts that are read as they are written.

  * `normalize_upper`: the capitals of an ASCII type have the same normal form;
  * a `Shape` is a type taken apart into words, numbers in parentheses and the brackets of an array;
    `rawTokens_text` are its tokens, and `plainTypeName_tokens` the name that it goes by;
  * `PlainFormat`: the text of a type is in normal form and has a shape of lower-case words.
-/
import Schemata.Proofs.Columns
import Schemata.Proofs.UpperCase
import Schemata.TypeText

namespace Schemata

/-! ## ASCII characters -/

namespace Text

variable {cs : List Char}

theorem asciiLower_asciiUpper {c : Char} (hc : c.toNat < 128) :
    asciiLower (asciiUpper c) = asciiLower c :=
  of_ascii (P := fun c => asciiLower (asciiUpper c) = asciiLower c) (by decide +kernel) hc

theorem asciiUpper_asciiUpper {c : Char} (hc : c.toNat < 128) :
    asciiUpper (asciiUpper c) = asciiUpper c :=
  of_ascii (P := fun c => asciiUpper (asciiUpper c) = asciiUpper c) (by decide +kernel) hc

theorem asciiUpper_of_isAsciiDigit {c : Char} (h : isAsciiDigit c = true) : asciiUpper c = c := by
  have hc : c.toNat < 128 := by
    simp only [isAsciiDigit, Bool.and_eq_true, decide_eq_true_eq] at h
    omega
  exact of_ascii (P := fun c => isAsciiDigit c = true → asciiUpper c = c) (by decide +kernel) hc h

/-! ## Words -/

theorem mem_wordsFrom {c : Char} {cur w : List Char} (hw : w ∈ wordsFrom cur cs) (hc : c ∈ w) :
    c ∈ cur ∨ c ∈ cs := by
  fun_induction wordsFrom cur cs with
  | case1 => cases hw
  | case2 cur => exact .inl (by simpa [List.mem_singleton.1 hw] using hc)
  | case3 _ _ _ _ _ ih => exact (ih hw).elim nofun fun h => .inr (List.mem_cons_of_mem _ h)
  | case4 cur _ _ _ _ ih =>
    rcases List.mem_cons.1 hw with rfl | hw
    · exact .inl (List.mem_reverse.1 hc)
    · exact (ih hw).elim nofun fun h => .inr (List.mem_cons_of_mem _ h)
  | case5 cur d _ _ ih =>
    rcases ih hw with h | h
    · rcases List.mem_cons.1 h with rfl | h
      · exact .inr List.mem_cons_self
      · exact .inl h
    · exact .inr (List.mem_cons_of_mem _ h)

theorem mem_squeeze {c : Char} (h : c ∈ squeeze cs) : c = ' ' ∨ c ∈ cs := by
  have hgen : ∀ ws : List (List Char), c ∈ [' '].intercalate ws → c = ' ' ∨ ∃ w ∈ ws, c ∈ w := by
    intro ws
    induction ws with
    | nil => nofun
    | cons w ws ih =>
      intro hc
      cases ws with
      | nil => exact .inr ⟨w, List.mem_cons_self, by simpa using hc⟩
      | cons v ws =>
        rw [List.intercalate_cons_cons, List.mem_append, List.mem_append] at hc
        rcases hc with (hc | hc) | hc
        · exact .inr ⟨w, List.mem_cons_self, hc⟩
        · exact .inl (List.mem_singleton.1 hc)
        · exact (ih hc).imp id fun ⟨u, hu, hcu⟩ => ⟨u, List.mem_cons_of_mem w hu, hcu⟩
  rcases hgen (words cs) h with h | ⟨w, hw, hc⟩
  · exact .inl h
  · exact (mem_wordsFrom hw hc).elim nofun .inr

theorem wordsFrom_map {f : Char → Char} (hf : ∀ c ∈ cs, isBlank (f c) = isBlank c)
    (cur : List Char) : wordsFrom (cur.map f) (cs.map f) = (wordsFrom cur cs).map (List.map f) := by
  induction cs generalizing cur with
  | nil => cases cur <;> simp [wordsFrom]
  | cons c cs ih =>
    have ih := fun cur => ih (fun d hd => hf d (List.mem_cons_of_mem c hd)) cur
    rw [List.map_cons, wordsFrom, wordsFrom, hf c List.mem_cons_self]
    have hnil := ih []
    have hcons := ih (c :: cur)
    rw [List.map_nil] at hnil
    rw [List.map_cons] at hcons
    rw [hnil, hcons]
    cases isBlank c <;> cases cur <;> simp

theorem squeeze_map {f : Char → Char} (hf : ∀ c ∈ cs, isBlank (f c) = isBlank c)
    (hs : f ' ' = ' ') : squeeze (cs.map f) = (squeeze cs).map f := by
  have hgen : ∀ ws : List (List Char),
      [' '].intercalate (ws.map (List.map f)) = ([' '].intercalate ws).map f := by
    intro ws
    induction ws with
    | nil => rfl
    | cons w ws ih =>
      cases ws with
      | nil => simp
      | cons v ws =>
        rw [List.map_cons, List.map_cons, List.intercalate_cons_cons, ← List.map_cons, ih,
          List.intercalate_cons_cons]
        simp [hs]
  have := wordsFrom_map hf []
  rw [List.map_nil] at this
  rw [squeeze, words, this, hgen]
  rfl

/-! ## Upper case -/

theorem upper_append (a b : String) : upper (a ++ b) = upper a ++ upper b := by
  simp [upper, upperList]

theorem upper_intercalate (sep : String) (l : List String) :
    upper (sep.intercalate l) = (upper sep).intercalate (l.map upper) := by
  induction l with
  | nil => rfl
  | cons a l ih =>
    cases l with
    | nil => simp
    | cons b l =>
      rw [List.map_cons] at ih
      rw [List.map_cons, List.map_cons, String.intercalate_cons_cons, String.intercalate_cons_cons, upper_append, upper_append, ih]

end Text

namespace TypeText

/-- The capitals of an ASCII type without quotes have the same normal form. -/
theorem normalize_upper {s : String} (hs : ∀ c ∈ s.toList, c.toNat < 128) (hq : '"' ∉ s.toList) :
    normalize (Text.upper s) = normalize s := by
  have hupper := Text.toList_upper hs
  have hascii : ∀ c ∈ Text.squeeze s.toList, c.toNat < 128 := by
    intro c hc
    rcases Text.mem_squeeze hc with rfl | hc
    · decide
    · exact hs c hc
  have hquote : (Text.squeeze s.toList).contains '"' = false := by
    rw [Bool.eq_false_iff, ne_eq, List.contains_iff_mem]
    intro hc
    rcases Text.mem_squeeze hc with h | h
    · cases h
    · exact hq h
  have hquote' : ((Text.squeeze s.toList).map Text.asciiUpper).contains '"' = false := by
    rw [Bool.eq_false_iff, ne_eq, List.contains_iff_mem, List.mem_map]
    rintro ⟨c, hc, he⟩
    rw [Token.asciiUpper_eq_iff (by decide)] at he
    subst he
    rw [Bool.eq_false_iff, ne_eq, List.contains_iff_mem] at hquote
    exact hquote hc
  have hlower : Text.lowerList ((Text.squeeze s.toList).map Text.asciiUpper) =
      Text.lowerList (Text.squeeze s.toList) := by
    rw [Text.lowerList_of_ascii hascii, Text.lowerList_of_ascii, List.map_map]
    · exact List.map_congr_left fun c hc => Text.asciiLower_asciiUpper (hascii c hc)
    · intro c hc
      obtain ⟨d, hd, rfl⟩ := List.mem_map.1 hc
      exact Text.asciiUpper_lt (hascii d hd)
  have hfold : foldCase (Text.upper s).toList = foldCase s.toList := by
    unfold foldCase
    rw [hupper, Text.squeeze_map (fun c _ => Token.isBlank_asciiUpper c) rfl]
    simp only [hquote, hquote', hlower, Bool.false_eq_true, if_false]
  unfold normalize
  rw [hfold]

end TypeText

namespace Written

open Token Cursor Statement

variable {lay : List Char} {ts : List Token}

/-! ## Shapes -/

/-- A type taken apart. -/
structure Shape where
  words : List String
  /-- The numbers in parentheses after the words. -/
  numbers : List String := []
  /-- The digits in each pair of brackets. -/
  brackets : List String := []
deriving DecidableEq, Repr

namespace Shape

/-- The numbers in parentheses. -/
def modifierText (numbers : List String) : String :=
  if numbers.isEmpty then "" else "(" ++ ",".intercalate numbers ++ ")"

/-- The text of a type. -/
def text (p : Shape) : String :=
  " ".intercalate p.words ++
    (modifierText p.numbers ++ "".intercalate (p.brackets.map fun d => "[" ++ d ++ "]"))

/-- The shape with its words in capitals. -/
def upper (p : Shape) : Shape := { p with words := p.words.map Text.upper }

end Shape

/-- Some digits, and nothing else. -/
def isNumber (n : String) : Bool := !n.isEmpty && n.toList.all Text.isAsciiDigit

/-- A type that is read as it is written: no word of it starts a clause of a column. -/
structure PlainShape (p : Shape) : Prop where
  nonempty : p.words ≠ []
  word : ∀ w ∈ p.words, isWord w = true
  clause : ∀ w ∈ p.words, Text.upper w ∉ clauseKeywords
  numbers : ∀ n ∈ p.numbers, isNumber n = true
  brackets : ∀ d ∈ p.brackets, d ≠ "" → isNumber d = true

/-! ## Tokens of a shape -/

/-- A number. -/
def numberToken (n : String) : Token := ⟨.number, n.toList, []⟩

/-- The tokens of numbers in parentheses. -/
def modifierTokens : List String → List Token
  | [] => []
  | n :: more => mark [] '(' ::
      (separated [] [] ((n :: more).map fun n => [numberToken n]) ++ [mark [] ')'])

/-- The tokens of brackets. -/
def bracketTokens (brackets : List String) : List Token :=
  brackets.flatMap fun d =>
    mark [] '[' :: ((if d = "" then [] else [numberToken d]) ++ [mark [] ']'])

/-- The tokens of a type. -/
def Shape.tokens (p : Shape) : List Token :=
  wordTokens p.words ++ (modifierTokens p.numbers ++ bracketTokens p.brackets)

theorem isNumber_cons {n : String} (h : isNumber n = true) :
    ∃ c cs, n.toList = c :: cs ∧ ∀ d ∈ c :: cs, Text.isAsciiDigit d = true := by
  rw [isNumber, Bool.and_eq_true, List.all_eq_true] at h
  obtain ⟨hne, hall⟩ := h
  cases hn : n.toList with
  | nil =>
    rw [String.toList_eq_nil_iff] at hn
    rw [hn] at hne
    cases hne
  | cons c cs => exact ⟨c, cs, rfl, hn ▸ hall⟩

theorem spanNumber_digits {cs : List Char} (h : ∀ d ∈ cs, Text.isDigit d = true) :
    spanNumber cs = (cs, []) := by
  have htake : (cs ++ []).takeWhile Text.isDigit = cs ++ [].takeWhile Text.isDigit :=
    List.takeWhile_append_of_pos h
  have hdrop : (cs ++ []).dropWhile Text.isDigit = [].dropWhile Text.isDigit :=
    List.dropWhile_append_of_pos h
  rw [List.append_nil, List.takeWhile_nil, List.append_nil] at htake
  rw [List.append_nil, List.dropWhile_nil] at hdrop
  rw [spanNumber, spanDigits, htake, hdrop]
  simp [spanFraction, spanExponent]

/-- A digit opens nothing but a number. -/
theorem digit_ne {c : Char} (h : Text.isAsciiDigit c = true) : c ≠ '\'' ∧ c ≠ '"' ∧ c ≠ '$' ∧
    c ≠ '-' ∧ c ≠ '/' ∧ startsWord c = false ∧ Text.isBlank c = false := by
  have hc : c.toNat < 128 := by
    simp only [Text.isAsciiDigit, Bool.and_eq_true, decide_eq_true_eq] at h
    omega
  exact Text.of_ascii (P := fun c => Text.isAsciiDigit c = true → c ≠ '\'' ∧ c ≠ '"' ∧ c ≠ '$' ∧
    c ≠ '-' ∧ c ≠ '/' ∧ startsWord c = false ∧ Text.isBlank c = false) (by decide +kernel) hc h

theorem firm_number {n : String} (hn : isNumber n = true) (h : Firm ts) (hs : StartsHard ts) :
    Firm (numberToken n :: ts) := by
  refine ⟨fun rest hr => ⟨?_, h.rescans rest hr⟩⟩
  obtain ⟨c, cs, hcs, hall⟩ := isNumber_cons hn
  obtain ⟨h₁, h₂, h₃, h₄, h₅, h₆, h₇⟩ := digit_ne (hall c List.mem_cons_self)
  have hdigit : ∀ d ∈ c :: cs, Text.isDigit d = true := fun d hd =>
    Text.isDigit_of_isAsciiDigit (hall d hd)
  have hspan := spanNumber_digits fun d hd => hdigit d (List.mem_cons_of_mem c hd)
  have hx : Lexed c (cs ++ []) .number cs [] :=
    .number ⟨h₁, h₂, h₃⟩ h₆ (hdigit c List.mem_cons_self) (by rw [List.append_nil, hspan])
  have hstands : Stands ⟨.number, c :: cs, []⟩ [] := stands_of_lexed isLayout_nil h₇ h₄ h₅ hx
  have := hstands.hard (hs.hard rest hr)
  rw [List.nil_append] at this
  rw [numberToken, hcs]
  exact this

theorem startsHard_modifierTokens (numbers : List String) :
    StartsHard (modifierTokens numbers) := by
  cases numbers with
  | nil => exact startsHard_nil
  | cons n more => exact startsHard_mark rfl

theorem startsHard_bracketTokens (brackets : List String) :
    StartsHard (bracketTokens brackets) := by
  cases brackets with
  | nil => exact startsHard_nil
  | cons d more => exact startsHard_mark rfl

theorem firm_modifierTokens {numbers : List String} (h : ∀ n ∈ numbers, isNumber n = true) :
    Firm (modifierTokens numbers) := by
  cases numbers with
  | nil => exact firm_nil
  | cons n more =>
    have hinside : Firm (separated [] [] ((n :: more).map fun n => [numberToken n])) := by
      refine firm_separated isLayout_nil isLayout_nil fun ts hts => ?_
      obtain ⟨m, hm, rfl⟩ := List.mem_map.1 hts
      exact firm_number (h m hm) firm_nil startsHard_nil
    exact firm_mark isLayout_nil rfl (by decide) hinside.close

theorem firm_bracketTokens {brackets : List String}
    (h : ∀ d ∈ brackets, d ≠ "" → isNumber d = true) : Firm (bracketTokens brackets) := by
  induction brackets with
  | nil => exact firm_nil
  | cons d more ih =>
    have hmore := ih fun e he => h e (List.mem_cons_of_mem d he)
    have hclose : Firm (mark [] ']' :: bracketTokens more) :=
      firm_mark isLayout_nil rfl (by decide) hmore
    rw [bracketTokens, List.flatMap_cons, ← bracketTokens, List.cons_append, List.append_assoc,
      List.singleton_append]
    refine firm_mark isLayout_nil rfl (by decide) ?_
    split
    · exact hclose
    · next hd => exact firm_number (h d List.mem_cons_self hd) hclose (startsHard_mark rfl)

theorem fullText_modifierTokens (numbers : List String) :
    fullText (modifierTokens numbers) = (Shape.modifierText numbers).toList := by
  cases numbers with
  | nil => rfl
  | cons n more =>
    have := fullText_separated (l := n :: more) (f := fun n => [numberToken n]) (g := id) (a := "")
      (b := "") (p := "") (List.cons_ne_nil n more) fun x _ => ⟨List.cons_ne_nil _ _, by
        simp [numberToken]⟩
    rw [modifierTokens, fullText_cons, fullText_append]
    simp_all [Shape.modifierText, mark]

theorem fullText_bracketTokens (brackets : List String) : fullText (bracketTokens brackets) =
    ("".intercalate (brackets.map fun d => "[" ++ d ++ "]")).toList := by
  induction brackets with
  | nil => rfl
  | cons d more ih =>
    rw [bracketTokens, List.flatMap_cons, ← bracketTokens, fullText_append, ih]
    have hone : fullText (mark [] '[' ::
        ((if d = "" then [] else [numberToken d]) ++ [mark [] ']'])) = ("[" ++ d ++ "]").toList := by
      by_cases hd : d = ""
      · subst hd
        rfl
      · simp [hd, numberToken, mark]
    rw [hone]
    cases more with
    | nil => simp
    | cons e more => simp [String.intercalate_cons_cons]

theorem fullText_tokens (p : Shape) : fullText p.tokens = p.text.toList := by
  rw [Shape.tokens, fullText_append, fullText_append, fullText_wordTokens,
    fullText_modifierTokens, fullText_bracketTokens]
  simp [Shape.text]

theorem firm_tokens {p : Shape} (h : PlainShape p) : Firm p.tokens := by
  have hrest := (firm_modifierTokens h.numbers).append (firm_bracketTokens h.brackets)
    (startsHard_bracketTokens p.brackets)
  exact firm_wordTokens h.word hrest
    ((startsHard_modifierTokens _).append (startsHard_bracketTokens _))

theorem tokens_ne_nil {p : Shape} (h : PlainShape p) : p.tokens ≠ [] := by
  obtain ⟨w, words, hw⟩ := List.exists_cons_of_ne_nil h.nonempty
  rw [Shape.tokens, hw]
  exact List.cons_ne_nil _ _

/-- The text of a type scans to its tokens. -/
theorem rawTokens_text {p : Shape} (h : PlainShape p) :
    IsRaw p.text ∧ rawTokens p.text = p.tokens :=
  isRaw_of_firm (tokens_ne_nil h) (firm_tokens h) (fullText_tokens p)

/-! ## Reading a shape -/

section
variable {stop : Token → Bool} {p : Shape}

theorem enclosed_bracketTokens (brackets : List String) (ho : stop (mark [] '[') = false)
    (hc : stop (mark [] ']') = false) (hn : ∀ n, stop (numberToken n) = false) : Enclosed stop (bracketTokens brackets) := by
  induction brackets with
  | nil => exact Enclosed.nil
  | cons d more ih =>
    have hclose : Enclosed stop (mark [] ']' :: bracketTokens more) :=
      Enclosed.cons rfl rfl hc ih
    rw [bracketTokens, List.flatMap_cons, ← bracketTokens, List.cons_append, List.append_assoc,
      List.singleton_append]
    refine Enclosed.cons rfl rfl ho ?_
    split
    · exact hclose
    · exact Enclosed.cons rfl rfl (hn d) hclose

theorem enclosed_modifierTokens (numbers : List String) : Enclosed stop (modifierTokens numbers) := by
  cases numbers with
  | nil => exact Enclosed.nil
  | cons n more =>
    refine Enclosed.group rfl rfl (enclosed_separated blind_never rfl fun ts hts => ?_) Enclosed.nil
    obtain ⟨m, -, rfl⟩ := List.mem_map.1 hts
    exact Enclosed.cons rfl rfl rfl Enclosed.nil

theorem enclosed_wordTokens (words : List String) (hs : Blind stop)
    (hw : ∀ w ∈ words, stop (word [] w) = false) : Enclosed stop (wordTokens words) := by
  have hlay : ∀ w ∈ words, ∀ lay, stop (word lay w) = false := fun w hm lay =>
    (hs _ _ _ _).trans (hw w hm)
  have hmore : ∀ words : List String, (∀ w ∈ words, ∀ lay, stop (word lay w) = false) →
      Enclosed stop (words.map (word sp)) := by
    intro words
    induction words with
    | nil => exact fun _ => Enclosed.nil
    | cons w words ih =>
      intro h
      exact Enclosed.cons rfl rfl (h w List.mem_cons_self sp) (ih fun v hv =>
        h v (List.mem_cons_of_mem w hv))
  cases words with
  | nil => exact Enclosed.nil
  | cons w words =>
    exact Enclosed.cons rfl rfl (hlay w List.mem_cons_self [])
      (hmore words fun v hv => hlay v (List.mem_cons_of_mem w hv))

theorem enclosed_tokens (hs : Blind stop) (hw : ∀ w ∈ p.words, stop (word [] w) = false)
    (ho : stop (mark [] '[') = false) (hc : stop (mark [] ']') = false)
    (hn : ∀ n, stop (numberToken n) = false) : Enclosed stop p.tokens :=
  (enclosed_wordTokens p.words hs hw).append
    ((enclosed_modifierTokens p.numbers).append (enclosed_bracketTokens p.brackets ho hc hn))

end

theorem PlainShape.comma {p : Shape} : Enclosed (isPunct ',') p.tokens :=
  enclosed_tokens (blind_isPunct ',') (fun _ _ => rfl) rfl rfl fun _ => rfl

theorem startsClause_word {w : String} (h : Text.upper w ∉ clauseKeywords) :
    startsClause (word [] w) = false := by
  rw [startsClause, isKeywordOf, List.any_eq_false]
  intro k hk hkey
  rw [isKeyword, Bool.and_eq_true, beq_iff_eq (a := Text.upperList _)] at hkey
  have : Text.upper w = k := by rw [Text.upper, ← String.ofList_toList (s := k), ← hkey.2]; rfl
  exact h (this ▸ hk)

theorem PlainShape.noClause {p : Shape} (h : PlainShape p) : Enclosed startsClause p.tokens :=
  enclosed_tokens blind_startsClause (fun w hw => startsClause_word (h.clause w hw)) rfl
    rfl fun _ => rfl

theorem head?_modifierTokens {numbers brackets : List String} {t : Token}
    (h : (modifierTokens numbers ++ bracketTokens brackets).head? = some t) :
    t = mark [] '(' ∨ t = mark [] '[' := by
  cases numbers with
  | cons n more => exact .inl (Option.some.inj h).symm
  | nil =>
    cases brackets with
    | cons d more => exact .inr (Option.some.inj h).symm
    | nil => cases h

/-- If a type goes by a plain name, it is a single word. -/
theorem plainTypeName_tokens {p : Shape} (hp : PlainShape p) {n : Option String × String}
    (h : plainTypeName p.tokens = some n) : n = (none, p.text) ∧ isWord p.text = true := by
  obtain ⟨w, words, hwords⟩ := List.exists_cons_of_ne_nil hp.nonempty
  have hid : (word [] w).identifier = w := String.ofList_toList
  have hword : (word [] w).isIdentifier = true := rfl
  have htokens : p.tokens = word [] w :: (words.map (word sp) ++
      (modifierTokens p.numbers ++ bracketTokens p.brackets)) := by
    rw [Shape.tokens, hwords]
    rfl
  rw [htokens, plainTypeName, nameParts.eq_def] at h
  cases hrest : words.map (word sp) ++ (modifierTokens p.numbers ++ bracketTokens p.brackets) with
  | nil =>
    have hfull := congrArg fullText htokens
    rw [hrest, fullText_tokens] at hfull
    have htext : p.text = w := by
      rw [← String.ofList_toList (s := p.text), hfull]
      simp [word]
    simp only [hrest, hword, hid, if_true] at h
    rw [htext]
    exact ⟨(Option.some.inj h).symm, hp.word w (hwords ▸ List.mem_cons_self)⟩
  | cons t ts =>
    have hdot : t.isPunct '.' = false := by
      cases words with
      | cons v words =>
        obtain ⟨rfl, -⟩ := List.cons.inj hrest
        rfl
      | nil =>
        obtain rfl | rfl := head?_modifierTokens (congrArg List.head? hrest)
        · rfl
        · rfl
    simp only [hrest, hword, hdot, if_true, Bool.false_eq_true, if_false] at h
    cases h

/-! ## Plain formats -/

theorem forall_intercalate {P : Char → Prop} {sep : String} {l : List String}
    (hs : ∀ c ∈ sep.toList, P c) (h : ∀ s ∈ l, ∀ c ∈ s.toList, P c) :
    ∀ c ∈ (sep.intercalate l).toList, P c := by
  induction l with
  | nil => intro c hc; simp at hc
  | cons a l ih =>
    intro c hc
    have ih := ih fun s hsm => h s (List.mem_cons_of_mem a hsm)
    cases l with
    | nil => exact h a List.mem_cons_self c (by simpa using hc)
    | cons b l =>
      rw [String.intercalate_cons_cons, String.toList_append, String.toList_append,
        List.mem_append, List.mem_append] at hc
      obtain (hc | hc) | hc := hc
      · exact h a List.mem_cons_self c hc
      · exact hs c hc
      · exact ih c hc

/-- What holds of the characters of words and numbers and of the marks between them holds of all. -/
theorem PlainShape.forall_text {p : Shape} (h : PlainShape p) {P : Char → Prop}
    (hw : ∀ w ∈ p.words, ∀ c ∈ w.toList, P c) (hd : ∀ c, Text.isAsciiDigit c = true → P c)
    (hp : ∀ c ∈ [' ', '(', ')', ',', '[', ']'], P c) : ∀ c ∈ p.text.toList, P c := by
  have hnumber : ∀ n, isNumber n = true → ∀ c ∈ n.toList, P c := by
    intro n hn c hc
    rw [isNumber, Bool.and_eq_true, List.all_eq_true] at hn
    exact hd c (hn.2 c hc)
  have hmodifier : ∀ c ∈ (Shape.modifierText p.numbers).toList, P c := by
    unfold Shape.modifierText
    split
    · nofun
    · intro c hc
      rw [String.toList_append, String.toList_append, List.mem_append, List.mem_append] at hc
      obtain (hc | hc) | hc := hc
      · exact hp c (by simp_all)
      · refine forall_intercalate ?_ (fun n hn => hnumber n (h.numbers n hn)) c hc
        exact fun c hc => hp c (by simp_all)
      · exact hp c (by simp_all)
  have hbracket : ∀ d ∈ p.brackets, ∀ c ∈ ("[" ++ d ++ "]").toList, P c := by
    intro d hdm c hc
    rw [String.toList_append, String.toList_append, List.mem_append, List.mem_append] at hc
    obtain (hc | hc) | hc := hc
    · exact hp c (by simp_all)
    · by_cases hne : d = ""
      · subst hne
        cases hc
      · exact hnumber d (h.brackets d hdm hne) c hc
    · exact hp c (by simp_all)
  intro c hc
  rw [Shape.text, String.toList_append, String.toList_append, List.mem_append,
    List.mem_append] at hc
  obtain hc | hc | hc := hc
  · exact forall_intercalate (fun c hc => hp c (by simp_all)) hw c hc
  · exact hmodifier c hc
  · refine forall_intercalate nofun (fun s hs => ?_) c hc
    obtain ⟨d, hdm, rfl⟩ := List.mem_map.1 hs
    exact hbracket d hdm

/-- A type text in normal form that is read as it is written. -/
structure PlainFormat (format : String) : Prop where
  normal : TypeText.normalize format = format
  lower : Text.lower format = format
  shape : ∃ p, PlainShape p ∧ p.text = format

theorem inWord_ascii {c : Char} (h : inWord c = true) :
    c.toNat < 128 ∧ c ≠ '"' ∧ c ≠ '.' ∧ Text.isBlank c = false := by
  have hc : c.toNat < 128 := by
    simp only [inWord, inTag, startsWord, Text.isAsciiLetter, Text.isAsciiDigit, Bool.or_eq_true,
      Bool.and_eq_true, decide_eq_true_eq, beq_iff_eq] at h
    obtain ((h | rfl) | h) | rfl := h
    · omega
    · decide
    · omega
    · decide
  refine ⟨hc, ?_⟩
  exact Text.of_ascii (P := fun c => inWord c = true → c ≠ '"' ∧ c ≠ '.' ∧ Text.isBlank c = false)
    (by decide +kernel) hc h

theorem inWord_of_isWord {w : String} (h : isWord w = true) : ∀ c ∈ w.toList, inWord c = true := by
  unfold isWord at h
  split at h
  · cases h
  · next c cs hcs =>
    rw [Bool.and_eq_true, List.all_eq_true] at h
    rw [hcs]
    intro d hd
    rcases List.mem_cons.1 hd with rfl | hd
    · simp [inWord, inTag, h.1]
    · exact h.2 d hd

/-- A word is a plain name without points. -/
theorem unquote_of_isWord {w : String} (h : isWord w = true) :
    Quote.unquote w = w ∧ '.' ∉ w.toList := by
  have hall := fun c hc => inWord_ascii (inWord_of_isWord h c hc)
  have htrim : Text.trim w.toList = w.toList :=
    Text.trim_eq_self (fun c hc => (hall c (List.mem_of_head? hc)).2.2.2)
      fun c hc => (hall c (List.mem_of_getLast? hc)).2.2.2
  have hquoted : Quote.isQuotedList w.toList = false := by
    rw [Bool.eq_false_iff]
    intro hq
    simp only [Quote.isQuotedList, Bool.and_eq_true, beq_iff_eq] at hq
    exact (hall '"' (List.mem_of_head? hq.1.2)).2.1 rfl
  refine ⟨?_, fun hdot => (hall '.' hdot).2.2.1 rfl⟩
  rw [Quote.unquote, Quote.unquoteList, htrim, hquoted]
  exact String.ofList_toList

theorem isWord_upper {w : String} (h : isWord w = true) : isWord (Text.upper w) = true := by
  have hascii : ∀ c ∈ w.toList, c.toNat < 128 := fun c hc =>
    (inWord_ascii (inWord_of_isWord h c hc)).1
  have hupper := Text.toList_upper hascii
  unfold isWord at h ⊢
  rw [hupper]
  cases hw : w.toList with
  | nil => rw [hw] at h; cases h
  | cons c cs =>
    rw [hw] at h hascii
    rw [Bool.and_eq_true, List.all_eq_true] at h
    rw [List.map_cons, Bool.and_eq_true, List.all_eq_true, startsWord_asciiUpper]
    refine ⟨h.1, fun d hd => ?_⟩
    obtain ⟨e, he, rfl⟩ := List.mem_map.1 hd
    rw [inWord_asciiUpper]
    exact h.2 e he

theorem upper_upper {w : String} (h : ∀ c ∈ w.toList, c.toNat < 128) :
    Text.upper (Text.upper w) = Text.upper w := by
  rw [Text.upper, Text.upper, String.toList_ofList, Text.upperList_of_ascii h,
    Text.upperList_of_ascii, List.map_map]
  · exact congrArg String.ofList
      (List.map_congr_left fun c hc => Text.asciiUpper_asciiUpper (h c hc))
  · intro c hc
    obtain ⟨d, hd, rfl⟩ := List.mem_map.1 hc
    exact Text.asciiUpper_lt (h d hd)

theorem upper_of_isNumber {n : String} (h : isNumber n = true) : Text.upper n = n := by
  rw [isNumber, Bool.and_eq_true, List.all_eq_true] at h
  have hascii : ∀ c ∈ n.toList, c.toNat < 128 := by
    intro c hc
    have := h.2 c hc
    simp only [Text.isAsciiDigit, Bool.and_eq_true, decide_eq_true_eq] at this
    omega
  rw [Text.upper, Text.upperList_of_ascii hascii,
    List.map_congr_left fun c hc => Text.asciiUpper_of_isAsciiDigit (h.2 c hc), List.map_id']
  exact String.ofList_toList

theorem PlainShape.upper {p : Shape} (h : PlainShape p) : PlainShape p.upper := by
  refine ⟨?_, ?_, ?_, h.numbers, h.brackets⟩
  · simpa [Shape.upper] using h.nonempty
  · intro w hw
    obtain ⟨v, hv, rfl⟩ := List.mem_map.1 hw
    exact isWord_upper (h.word v hv)
  · intro w hw
    obtain ⟨v, hv, rfl⟩ := List.mem_map.1 hw
    rw [upper_upper fun c hc => (inWord_ascii (inWord_of_isWord (h.word v hv) c hc)).1]
    exact h.clause v hv

theorem PlainShape.upper_text {p : Shape} (h : PlainShape p) : Text.upper p.text = p.upper.text := by
  have hnumbers : p.numbers.map Text.upper = p.numbers := by
    conv_rhs => rw [← List.map_id p.numbers]
    exact List.map_congr_left fun n hn => upper_of_isNumber (h.numbers n hn)
  have hmodifier : Text.upper (Shape.modifierText p.numbers) = Shape.modifierText p.numbers := by
    unfold Shape.modifierText
    split
    · rfl
    · rw [Text.upper_append, Text.upper_append, Text.upper_intercalate, hnumbers]
      rfl
  have hbrackets : (p.brackets.map fun d => "[" ++ d ++ "]").map Text.upper =
      p.brackets.map fun d => "[" ++ d ++ "]" := by
    rw [List.map_map]
    refine List.map_congr_left fun d hd => ?_
    have hsame : Text.upper d = d := by
      by_cases hne : d = ""
      · subst hne
        rfl
      · exact upper_of_isNumber (h.brackets d hd hne)
    rw [Function.comp_apply, Text.upper_append, Text.upper_append, hsame]
    rfl
  rw [Shape.text, Text.upper_append, Text.upper_append, Text.upper_intercalate,
    Text.upper_intercalate, hmodifier, hbrackets]
  rfl

theorem PlainShape.ascii {p : Shape} (h : PlainShape p) :
    ∀ c ∈ p.text.toList, c.toNat < 128 ∧ c ≠ '"' := by
  refine h.forall_text (fun w hw c hc => ?_) (fun c hc => ?_) (by simp)
  · have := inWord_ascii (inWord_of_isWord (h.word w hw) c hc)
    exact ⟨this.1, this.2.1⟩
  · have hne := (digit_ne hc).2.1
    simp only [Text.isAsciiDigit, Bool.and_eq_true, decide_eq_true_eq] at hc
    exact ⟨by omega, hne⟩

/-- The text of a plain type in statements has a shape of its own and the same normal form. -/
theorem PlainFormat.written {format : String} (h : PlainFormat format) :
    ∃ p, PlainShape p ∧ p.text = TypeText.render format ∧ TypeText.normalize p.text = format ∧
      Text.lower p.text = format := by
  obtain ⟨p, hp, rfl⟩ := h.shape
  have hascii : ∀ c ∈ p.text.toList, c.toNat < 128 := fun c hc => (hp.ascii c hc).1
  have hquote : '"' ∉ p.text.toList := fun hc => (hp.ascii _ hc).2 rfl
  have hrender : TypeText.render p.text = Text.upper p.text := by
    rw [TypeText.render, if_neg]
    rwa [List.contains_iff_mem]
  refine ⟨p.upper, hp.upper, ?_, ?_, ?_⟩
  · rw [hrender, hp.upper_text]
  · rw [← hp.upper_text, TypeText.normalize_upper hascii hquote, h.normal]
  · rw [← hp.upper_text, Text.lower, Text.upper, String.toList_ofList, Text.upperList_of_ascii hascii,
      Text.lowerList_of_ascii, List.map_map]
    · have hlower := h.lower
      rw [Text.lower, Text.lowerList_of_ascii hascii] at hlower
      conv_rhs => rw [← hlower]
      exact congrArg String.ofList
        (List.map_congr_left fun c hc => Text.asciiLower_asciiUpper (hascii c hc))
    · intro c hc
      obtain ⟨d, hd, rfl⟩ := List.mem_map.1 hc
      exact Text.asciiUpper_lt (hascii d hd)

/-- The tokens of a plain type are its own text. -/
theorem source_tokens {p : Shape} (h : PlainShape p) : source p.tokens = p.text := by
  have hfull := fullText_tokens p
  obtain ⟨w, words, hwords⟩ := List.exists_cons_of_ne_nil h.nonempty
  rw [← String.ofList_toList (s := p.text), ← hfull, Shape.tokens, hwords]
  simp [wordTokens, source, word]

end Written

end Schemata
