/-
  The tokens of written statements.

  * `enumTokens`, `tableTokens`, `constraintTokens`, `indexTokens` and the comment tokens are what a
    statement of `Ddl` is made of, each name and each raw text in its place;
  * `Firm` tokens are found again before every hard character, and firm tokens are put together by
    `Firm.append` as long as the second part starts with a hard character;
  * for each statement, its tokens are firm and their text is the statement.
-/
import Schemata.Ddl.Statements
import Schemata.Proofs.Levels
import Schemata.Proofs.Scanning

namespace Schemata.Written

open Token

variable {t : Token} {ts us : List Token} {lay rest : List Char}

/-! ## Firm tokens -/

/-- The tokens are found again before every hard character. -/
structure Firm (ts : List Token) : Prop where
  rescans : ∀ rest, Hard rest → Rescans ts rest

/-- The tokens start with a hard character, unless there are none. -/
structure StartsHard (ts : List Token) : Prop where
  hard : ∀ rest, Hard rest → Hard (fullText ts ++ rest)

theorem hard_cons {c : Char} {cs : List Char} (h : isHard c = true) : Hard (c :: cs) := by
  rintro _ ⟨⟩
  exact h

theorem startsHard_nil : StartsHard [] := ⟨fun _ hr => hr⟩

theorem StartsHard.append (h : StartsHard ts) (h' : StartsHard us) : StartsHard (ts ++ us) := by
  refine ⟨fun rest hr => ?_⟩
  rw [fullText_append, List.append_assoc]
  exact h.hard _ (h'.hard rest hr)

theorem startsHard_cons {c : Char} (cs : List Char) (ht : t.layout ++ t.text = c :: cs)
    (hc : isHard c = true) : StartsHard (t :: ts) := by
  refine ⟨fun rest _ => ?_⟩
  rw [fullText_cons, ← List.append_assoc t.layout, ht]
  exact hard_cons hc

/-- The layout of one space. -/
def sp : List Char := [' ']

theorem isLayout_sp : IsLayout sp := isLayout_blank rfl

theorem startsHard_indent {c : Char} {lay : List Char} (hc : isHard c = true) :
    StartsHard (indent (c :: lay) ts) := by
  cases ts with
  | nil => exact startsHard_nil
  | cons t ts => exact startsHard_cons (lay ++ t.layout ++ t.text) (by simp) hc

theorem startsHard_indent_sp : StartsHard (indent sp ts) := startsHard_indent rfl

theorem firm_nil : Firm [] := ⟨fun _ _ => trivial⟩

theorem Firm.append (h : Firm ts) (h' : Firm us) (hs : StartsHard us) : Firm (ts ++ us) :=
  ⟨fun rest hr => rescans_append.2 ⟨h.rescans _ (hs.hard rest hr), h'.rescans rest hr⟩⟩

theorem Firm.indent (hl : IsLayout lay) (h : Firm ts) : Firm (indent lay ts) :=
  ⟨fun rest hr => (h.rescans rest hr).indent hl⟩

/-! ## Single tokens -/

/-- A keyword. -/
def word (lay : List Char) (w : String) : Token := ⟨.word, w.toList, lay⟩

/-- A quoted name. -/
def nameToken (lay : List Char) (name : String) : Token :=
  ⟨.quoted, Quote.encloseName (Quote.unquoteList name.toList), lay⟩

/-- A literal. -/
def literalToken (lay : List Char) (text : String) : Token :=
  ⟨.string, Quote.literalList text.toList, lay⟩

/-- A mark. -/
def mark (lay : List Char) (c : Char) : Token := ⟨.punct, [c], lay⟩

/-- The texts that are words. -/
def isWord (w : String) : Bool :=
  match w.toList with
  | [] => false
  | c :: cs => startsWord c && cs.all inWord

theorem Hard.not_inWord (hr : Hard rest) {c : Char} (hc : rest.head? = some c) :
    inWord c = false :=
  hr.not_of (fun c h => by simp [mayFollow, h]) hc

theorem firm_word {w : String} (hl : IsLayout lay) (hw : isWord w = true) (h : Firm ts)
    (hs : StartsHard ts) : Firm (word lay w :: ts) := by
  refine ⟨fun rest hr => ⟨?_, h.rescans rest hr⟩⟩
  unfold isWord at hw
  split at hw
  · cases hw
  · next c cs hc =>
    rw [Bool.and_eq_true, List.all_eq_true] at hw
    rw [word, hc]
    exact stands_word hl hw.1 hw.2 fun d hd => Hard.not_inWord (hs.hard rest hr) hd

theorem firm_name (name : String) (hl : IsLayout lay) (h : Firm ts) (hs : StartsHard ts) :
    Firm (nameToken lay name :: ts) := ⟨fun rest hr =>
  ⟨stands_quoted hl _ fun _ hc => (hs.hard rest hr).head_ne (by decide) hc, h.rescans rest hr⟩⟩

theorem firm_literal {text : String} (hl : IsLayout lay) (h : Firm ts) (hs : StartsHard ts) :
    Firm (literalToken lay text :: ts) := ⟨fun rest hr =>
  ⟨stands_literal hl _ fun _ hc => (hs.hard rest hr).head_ne (by decide) hc, h.rescans rest hr⟩⟩

theorem firm_mark {c : Char} (hl : IsLayout lay) (hc : isMark c = true) (hd : c ≠ '.')
    (h : Firm ts) : Firm (mark lay c :: ts) := ⟨fun rest hr =>
  ⟨stands_mark hl hc fun h => absurd h hd, h.rescans rest hr⟩⟩

theorem startsHard_mark {c : Char} (hc : isHard c = true) : StartsHard (mark [] c :: ts) :=
  startsHard_cons [] rfl hc

theorem startsHard_sp (ht : t.layout = sp) : StartsHard (t :: ts) :=
  startsHard_cons t.text (by rw [ht]; rfl) rfl

/-! ## Raw texts -/

/-- Layout has no tokens. -/
theorem scanList_of_isLayout (h : IsLayout lay) : scanList lay = .ok ([], lay) := by
  have hspan : spanLayout lay = .ok (lay, []) := by
    have hnil : spanLayout [] = .ok ([], []) := rfl
    have happend := h []
    rw [List.append_nil, hnil, prependLayout, Except.map] at happend
    simpa only [List.append_nil] using happend
  rw [scanList]
  split
  · next hl =>
    rw [hspan] at hl
    cases hl
  · next hl =>
    rw [hspan] at hl
    cases hl
    rfl
  · next hl =>
    rw [hspan] at hl
    cases hl

/-- The tokens of a text without closing layout are firm. -/
theorem firm_of_scanList {cs : List Char} (h : scanList cs = .ok (ts, [])) : Firm ts :=
  ⟨fun _ hr => (rescans_of_scanList h).1.hard hr⟩

/-- The text scans by itself and ends with a token. -/
def IsRaw (s : String) : Prop := ∃ ts, ts ≠ [] ∧ scanList s.toList = .ok (ts, [])

/-- The text scans by itself, if there is one. -/
def IsRawIfAny (text : Option String) : Prop := ∀ s, text = some s → IsRaw s

/-- The tokens of a raw text. -/
def rawTokens (s : String) : List Token :=
  match scanList s.toList with
  | .ok (ts, _) => ts
  | .error _ => []

section
variable {s : String} (h : IsRaw s)
include h

theorem IsRaw.scan : rawTokens s ≠ [] ∧ scanList s.toList = .ok (rawTokens s, []) := by
  obtain ⟨ts, hne, hs⟩ := h
  have : rawTokens s = ts := by rw [rawTokens, hs]
  rw [this]
  exact ⟨hne, hs⟩

theorem IsRaw.firm : Firm (rawTokens s) := firm_of_scanList h.scan.2

theorem IsRaw.fullText : fullText (rawTokens s) = s.toList := by
  have := fullText_append_of_scanList h.scan.2
  rwa [List.append_nil] at this

end

/-- Firm tokens are the tokens of their text. -/
theorem scanList_of_firm {cs : List Char} (h : Firm ts) (hcs : fullText ts = cs) :
    scanList cs = .ok (ts, []) := by
  have := scanList_append (h.rescans [] fun c hc => by cases hc)
  have hnil : scanList [] = .ok ([], []) := by
    rw [scanList]
    rfl
  rw [List.append_nil, hcs, hnil] at this
  simpa [prepend, Except.map] using this

theorem isRaw_of_firm {s : String} (hne : ts ≠ []) (h : Firm ts) (hs : fullText ts = s.toList) :
    IsRaw s ∧ rawTokens s = ts := by
  have hscan := scanList_of_firm h hs
  exact ⟨⟨ts, hne, hscan⟩, by rw [rawTokens, hscan]⟩

/-! ## Lists -/

/-- Token lists between commas; `first` is put in front of the first one and `next` in front of each
    of the others. -/
def separated (first next : List Char) : List (List Token) → List Token
  | [] => []
  | [item] => indent first item
  | item :: item' :: more => indent first item ++ mark [] ',' :: separated next next (item' :: more)

/-- The text of a list is the texts of its items between commas. -/
theorem fullText_separated {α : Type} {f : α → List Token} {g : α → String} {l : List α}
    {a b p : String} (hne : l ≠ [])
    (h : ∀ x ∈ l, f x ≠ [] ∧ fullText (f x) = (g x).toList) :
    fullText (separated (a ++ p).toList (b ++ p).toList (l.map f)) =
      (a ++ ("," ++ b).intercalate (l.map fun x => p ++ g x)).toList := by
  induction l generalizing a with
  | nil => exact absurd rfl hne
  | cons x l ih =>
    obtain ⟨hx, ht⟩ := h x List.mem_cons_self
    cases l with
    | nil => simp [separated, fullText_indent hx, ht]
    | cons y l =>
      have := ih (a := b) (List.cons_ne_nil y l) fun z hz => h z (List.mem_cons_of_mem x hz)
      rw [List.map_cons, List.map_cons] at this ⊢
      rw [separated, fullText_append, fullText_indent hx, ht, fullText_cons, this]
      simp [mark, String.intercalate_cons_cons]

theorem firm_separated {first next : List Char} {items : List (List Token)}
    (hf : IsLayout first) (hn : IsLayout next) (h : ∀ ts ∈ items, Firm ts) :
    Firm (separated first next items) := by
  induction items generalizing first with
  | nil => exact firm_nil
  | cons item items ih =>
    have hi := (h item List.mem_cons_self).indent hf
    cases items with
    | nil => exact hi
    | cons item' items =>
      have := ih hn fun ts hts => h ts (List.mem_cons_of_mem item hts)
      exact hi.append (firm_mark isLayout_nil rfl (by decide) this) (startsHard_mark rfl)

/-! ## Parts of statements -/

/-- Names with points between them. -/
def dottedTokens (lay : List Char) : List String → List Token
  | [] => []
  | [n] => [nameToken lay n]
  | n :: m :: more => nameToken lay n :: mark [] '.' :: dottedTokens [] (m :: more)

/-- A name with its schema, if there is one. -/
def qualifiedParts (schema : Option String) (name : String) : List String :=
  (filled schema).toList ++ [name]

/-- A qualified name. -/
def qualifiedTokens (lay : List Char) (schema : Option String) (name : String) : List Token :=
  dottedTokens lay (qualifiedParts schema name)

/-- A list of names. -/
def nameListTokens (names : List String) : List Token :=
  separated [] sp (names.map fun n => [nameToken [] n])

@[simp] theorem toList_identifier (s : String) :
    (Quote.identifier s).toList = Quote.encloseName (Quote.unquoteList s.toList) :=
  String.toList_ofList

@[simp] theorem toList_literal (s : String) :
    (Quote.literal s).toList = Quote.literalList s.toList := String.toList_ofList

theorem fullText_dottedTokens {parts : List String} (hne : parts ≠ []) :
    fullText (dottedTokens lay parts) =
      lay ++ (".".intercalate (parts.map Quote.identifier)).toList := by
  induction parts generalizing lay with
  | nil => exact absurd rfl hne
  | cons n parts ih =>
    cases parts with
    | nil => simp [dottedTokens, nameToken]
    | cons m parts =>
      have := @ih [] (List.cons_ne_nil m parts)
      rw [List.map_cons] at this
      rw [dottedTokens, fullText_cons, fullText_cons, this]
      simp [nameToken, mark]

theorem qualified_eq (schema : Option String) (name : String) : Ddl.qualified schema name =
    ".".intercalate ((qualifiedParts schema name).map Quote.identifier) := by
  unfold qualifiedParts Ddl.qualified
  cases filled schema <;> simp

theorem fullText_qualifiedTokens (schema : Option String) (name : String) :
    fullText (qualifiedTokens lay schema name) = lay ++ (Ddl.qualified schema name).toList := by
  rw [qualifiedTokens, fullText_dottedTokens (by simp [qualifiedParts]), qualified_eq]

theorem fullText_nameListTokens (names : List String) :
    fullText (nameListTokens names) = (Ddl.identifiers names).toList := by
  cases names with
  | nil => rfl
  | cons n names =>
    have := fullText_separated (l := n :: names) (f := fun n => [nameToken [] n])
      (g := Quote.identifier) (a := "") (b := " ") (p := "") (List.cons_ne_nil n names)
      fun x _ => ⟨List.cons_ne_nil _ _, by simp [nameToken]⟩
    simpa [nameListTokens, Ddl.identifiers, sp] using this

theorem firm_dottedTokens (hl : IsLayout lay) (parts : List String) :
    Firm (dottedTokens lay parts) := by
  induction parts generalizing lay with
  | nil => exact firm_nil
  | cons n parts ih =>
    cases parts with
    | nil => exact firm_name n hl firm_nil startsHard_nil
    | cons m parts =>
      refine ⟨fun rest hr => ⟨stands_quoted hl _ ?_, stands_mark isLayout_nil rfl ?_,
        (ih isLayout_nil).rescans rest hr⟩⟩
      · rintro _ ⟨⟩
        decide
      · -- a quoted name comes after the point
        have hhead : (fullText (dottedTokens [] (m :: parts)) ++ rest).head? = some '"' := by
          cases parts <;> rfl
        rintro - d hd
        rw [hhead] at hd
        cases hd
        rfl

theorem firm_qualifiedTokens (hl : IsLayout lay) (schema : Option String) (name : String) :
    Firm (qualifiedTokens lay schema name) := firm_dottedTokens hl _

theorem firm_nameListTokens (names : List String) : Firm (nameListTokens names) := by
  refine firm_separated isLayout_nil isLayout_sp ?_
  intro ts hts
  obtain ⟨n, -, rfl⟩ := List.mem_map.1 hts
  exact firm_name n isLayout_nil firm_nil startsHard_nil

theorem startsHard_dottedTokens {c : Char} {lay : List Char} (hc : isHard c = true)
    (parts : List String) : StartsHard (dottedTokens (c :: lay) parts) := by
  match parts with
  | [] => exact startsHard_nil
  | [n] => exact startsHard_cons _ rfl hc
  | n :: m :: more => exact startsHard_cons _ rfl hc

theorem startsHard_dottedTokens_sp (parts : List String) : StartsHard (dottedTokens sp parts) :=
  startsHard_dottedTokens rfl parts

/-- Keywords with a raw text after them, if there is one. -/
def clauseTokens (words : List String) (text : Option String) : List Token :=
  match text with
  | some s => words.map (word sp) ++ indent sp (rawTokens s)
  | none => []

theorem fullText_words (words : List String) :
    fullText (words.map (word sp)) = words.flatMap fun w => ' ' :: w.toList := by
  induction words with
  | nil => rfl
  | cons w words ih =>
    rw [List.map_cons, fullText_cons, ih, List.flatMap_cons]
    rfl

theorem firm_words (words : List String) (hw : ∀ w ∈ words, isWord w = true) (h : Firm ts)
    (hs : StartsHard ts) :
    Firm (words.map (word sp) ++ ts) ∧ StartsHard (words.map (word sp) ++ ts) := by
  induction words with
  | nil => exact ⟨h, hs⟩
  | cons w words ih =>
    obtain ⟨hf, hs⟩ := ih fun v hv => hw v (List.mem_cons_of_mem w hv)
    exact ⟨firm_word isLayout_sp (hw w List.mem_cons_self) hf hs, startsHard_sp rfl⟩

/-- The tokens of words with single spaces between them. -/
def wordTokens : List String → List Token
  | [] => []
  | w :: words => word [] w :: words.map (word sp)

theorem firm_wordTokens {words : List String} (hw : ∀ w ∈ words, isWord w = true) (h : Firm ts)
    (hs : StartsHard ts) : Firm (wordTokens words ++ ts) := by
  cases words with
  | nil => exact h
  | cons w words =>
    obtain ⟨hf, hstart⟩ := firm_words words (fun v hv => hw v (List.mem_cons_of_mem w hv)) h hs
    exact firm_word isLayout_nil (hw w List.mem_cons_self) hf hstart

theorem fullText_wordTokens (words : List String) :
    fullText (wordTokens words) = (" ".intercalate words).toList := by
  cases words with
  | nil => rfl
  | cons w words =>
    rw [wordTokens, fullText_cons, fullText_words]
    induction words generalizing w with
    | nil => simp [word]
    | cons v words ih =>
      rw [String.intercalate_cons_cons, List.flatMap_cons]
      simp only [String.toList_append, ← ih v]
      simp [word]

theorem rawTokens_words {words : List String} (hne : words ≠ [])
    (hw : ∀ w ∈ words, isWord w = true) :
    IsRaw (" ".intercalate words) ∧ rawTokens (" ".intercalate words) = wordTokens words := by
  have hfirm := firm_wordTokens hw firm_nil startsHard_nil
  rw [List.append_nil] at hfirm
  refine isRaw_of_firm ?_ hfirm (fullText_wordTokens words)
  obtain ⟨w, words, rfl⟩ := List.exists_cons_of_ne_nil hne
  exact List.cons_ne_nil _ _

theorem fullText_clauseTokens {words : List String} {text : Option String}
    (h : IsRawIfAny text) :
    fullText (clauseTokens words text) =
      text.elim [] fun s => (words.flatMap fun w => ' ' :: w.toList) ++ ' ' :: s.toList := by
  cases text with
  | none => rfl
  | some s =>
    have hraw := h s rfl
    rw [clauseTokens, fullText_append, fullText_words, fullText_indent hraw.scan.1, hraw.fullText]
    rfl

theorem firm_clauseTokens (words : List String) {text : Option String}
    (hw : ∀ w ∈ words, isWord w = true) (h : IsRawIfAny text) :
    Firm (clauseTokens words text) ∧ StartsHard (clauseTokens words text) := by
  cases text with
  | none => exact ⟨firm_nil, startsHard_nil⟩
  | some s => exact firm_words words hw ((h s rfl).firm.indent isLayout_sp) startsHard_indent_sp

/-! ## Enum types -/

/-- A list of literals. -/
def valueTokens (values : List String) : List Token :=
  separated [] sp (values.map fun v => [literalToken [] v])

/-- The tokens of an enum type. -/
def enumTokens (e : EnumType) : List Token :=
  word [] "CREATE" :: word sp "TYPE" :: (qualifiedTokens sp e.schema e.name ++
    word sp "AS" :: word sp "ENUM" :: mark sp '(' :: (valueTokens e.values ++ [mark [] ')']))

theorem firm_keyword {w : String} (hw : isWord w = true) (h : Firm ts) (hs : StartsHard ts) :
    Firm (word sp w :: ts) := firm_word isLayout_sp hw h hs

theorem firm_open (h : Firm ts) : Firm (mark sp '(' :: ts) :=
  firm_mark isLayout_sp rfl (by decide) h

theorem Firm.close (h : Firm ts) : Firm (ts ++ [mark [] ')']) :=
  h.append (firm_mark isLayout_nil rfl (by decide) firm_nil) (startsHard_mark rfl)

theorem fullText_valueTokens (values : List String) :
    fullText (valueTokens values) = (", ".intercalate (values.map Quote.literal)).toList := by
  cases values with
  | nil => rfl
  | cons v values =>
    have := fullText_separated (l := v :: values) (f := fun v => [literalToken [] v])
      (g := Quote.literal) (a := "") (b := " ") (p := "") (List.cons_ne_nil v values)
      fun x _ => ⟨List.cons_ne_nil _ _, by simp [literalToken]⟩
    simpa [valueTokens, sp] using this

theorem fullText_enumTokens (e : EnumType) :
    fullText (enumTokens e) ++ [';'] = (Ddl.createEnum e).toList := by
  simp only [enumTokens, fullText_cons, fullText_append, fullText_qualifiedTokens,
    fullText_valueTokens, fullText_nil]
  unfold Ddl.createEnum
  simp [word, mark, sp]

theorem firm_enumTokens (e : EnumType) : Firm (enumTokens e) := by
  have hvalues : Firm (valueTokens e.values) := by
    refine firm_separated isLayout_nil isLayout_sp ?_
    intro ts hts
    obtain ⟨v, -, rfl⟩ := List.mem_map.1 hts
    exact firm_literal isLayout_nil firm_nil startsHard_nil
  refine firm_word isLayout_nil (by decide) ?_ (startsHard_sp rfl)
  refine firm_keyword (by decide) ?_ ((startsHard_dottedTokens_sp _).append
    (startsHard_sp rfl))
  refine (firm_qualifiedTokens isLayout_sp _ _).append ?_ (startsHard_sp rfl)
  refine firm_keyword (by decide) ?_ (startsHard_sp rfl)
  exact firm_keyword (by decide) (firm_open hvalues.close) (startsHard_sp rfl)

/-! ## Tables -/

section
variable {options : RenderOptions} {enums : OrderedMap EnumType} {key : String} {table : Table}

/-- The tokens of the type of a column. -/
def typeTokens (options : RenderOptions) (enums : OrderedMap EnumType) (c : Column) :
    List Token :=
  match filled c.enumName with
  | some key =>
    match enums.get? key with
    | some e => qualifiedTokens [] e.schema e.name
    | none => qualifiedTokens [] (Name.qualified key).1 (Name.qualified key).2
  | none => rawTokens (Ddl.columnType options enums c)

/-- The tokens of a column. -/
def columnTokens (options : RenderOptions) (enums : OrderedMap EnumType) (c : Column) :
    List Token :=
  nameToken [] c.title :: (indent sp (typeTokens options enums c) ++
    ((if c.required then ["NOT", "NULL"] else []).map (word sp) ++
      clauseTokens ["DEFAULT"] c.defaultText))

/-- The tokens of the name of a table. -/
def tableNameTokens (key : String) (t : Table) : List Token :=
  qualifiedTokens sp (Ddl.identity key t).1 (Ddl.identity key t).2

theorem tableName_eq (key : String) (t : Table) : Ddl.tableName key t =
    Ddl.qualified (Ddl.identity key t).1 (Ddl.identity key t).2 := rfl

/-- The layout of a new line. -/
def newline : List Char := ['\n']

/-- The layout of a new line that is indented. -/
def newlineIndented : List Char := ['\n', ' ', ' ']

/-- The tokens of a table. -/
def tableTokens (options : RenderOptions) (enums : OrderedMap EnumType) (key : String)
    (t : Table) : List Token :=
  word [] "CREATE" :: word sp "TABLE" :: (tableNameTokens key t ++ mark sp '(' ::
    (separated newlineIndented newlineIndented (t.columns.map (columnTokens options enums)) ++
      [mark (if t.columns.isEmpty then newline ++ newline else newline) ')']))

/-- The raw texts of a column scan by themselves. -/
structure RawColumn (options : RenderOptions) (enums : OrderedMap EnumType) (c : Column) :
    Prop where
  type : filled c.enumName = none → IsRaw (Ddl.columnType options enums c)
  default : IsRawIfAny c.defaultText

theorem isLayout_newline : IsLayout newline := isLayout_blank rfl

theorem isLayout_newlineIndented : IsLayout newlineIndented :=
  isLayout_blanks (List.all_eq_true.1 rfl)

theorem fullText_typeTokens {c : Column} (h : RawColumn options enums c) :
    typeTokens options enums c ≠ [] ∧
      fullText (typeTokens options enums c) = (Ddl.columnType options enums c).toList := by
  have hne : ∀ schema name, qualifiedTokens [] schema name ≠ [] := by
    intro schema name
    unfold qualifiedTokens qualifiedParts
    cases filled schema <;> simp [dottedTokens]
  unfold typeTokens Ddl.columnType
  cases hk : filled c.enumName with
  | some key =>
    cases he : enums.get? key with
    | some e =>
      simp only [he]
      rw [fullText_qualifiedTokens, List.nil_append]
      exact ⟨hne _ _, rfl⟩
    | none =>
      simp only [he]
      rw [fullText_qualifiedTokens, List.nil_append]
      exact ⟨hne _ _, rfl⟩
  | none =>
    have := h.type hk
    simp only [Ddl.columnType, hk] at this ⊢
    exact ⟨this.scan.1, this.fullText⟩

theorem firm_typeTokens {c : Column} (h : RawColumn options enums c) :
    Firm (typeTokens options enums c) := by
  unfold typeTokens
  cases hk : filled c.enumName with
  | some key =>
    cases he : enums.get? key with
    | some e => simp only [he]; exact firm_qualifiedTokens isLayout_nil _ _
    | none => simp only [he]; exact firm_qualifiedTokens isLayout_nil _ _
  | none => exact (h.type hk).firm

theorem fullText_columnTokens {c : Column} (h : RawColumn options enums c) :
    fullText (columnTokens options enums c) = (Ddl.columnLine options enums c).toList := by
  obtain ⟨hne, htype⟩ := fullText_typeTokens h
  unfold Ddl.columnLine
  simp only [columnTokens, fullText_cons, fullText_append, fullText_indent hne, htype,
    fullText_words, fullText_clauseTokens h.default]
  cases c.defaultText <;> cases c.required <;> simp [nameToken, sp]

theorem firm_columnTokens {c : Column} (h : RawColumn options enums c) :
    Firm (columnTokens options enums c) := by
  obtain ⟨hdefault, hs⟩ := firm_clauseTokens ["DEFAULT"] (by decide) h.default
  have hrequired := firm_words (if c.required then ["NOT", "NULL"] else [])
    (by cases c.required <;> decide) hdefault hs
  refine firm_name c.title isLayout_nil ?_ (startsHard_indent_sp.append hrequired.2)
  exact ((firm_typeTokens h).indent isLayout_sp).append hrequired.1 hrequired.2

theorem fullText_tableTokens (h : ∀ c ∈ table.columns, RawColumn options enums c) :
    fullText (tableTokens options enums key table) ++ [';'] =
      (Ddl.createTable options enums key table).toList := by
  unfold Ddl.createTable
  simp only [tableTokens, tableNameTokens, fullText_cons, fullText_append,
    fullText_qualifiedTokens, tableName_eq]
  cases hc : table.columns with
  | nil => simp [separated, word, mark, sp, newline]
  | cons c columns =>
    have := fullText_separated (l := c :: columns) (f := columnTokens options enums)
      (g := Ddl.columnLine options enums) (a := "\n") (b := "\n") (p := "  ")
      (List.cons_ne_nil c columns) fun x hx =>
        ⟨List.cons_ne_nil _ _, fullText_columnTokens (h x (hc ▸ hx))⟩
    simp only [String.toList_append] at this
    have hlay : newlineIndented = "\n".toList ++ "  ".toList := by rfl
    rw [hlay, this]
    simp [word, mark, sp, newline]

theorem firm_tableTokens (h : ∀ c ∈ table.columns, RawColumn options enums c) :
    Firm (tableTokens options enums key table) := by
  have hcolumns : Firm (separated newlineIndented newlineIndented
      (table.columns.map (columnTokens options enums))) := by
    refine firm_separated isLayout_newlineIndented isLayout_newlineIndented ?_
    intro ts hts
    obtain ⟨c, hc, rfl⟩ := List.mem_map.1 hts
    exact firm_columnTokens (h c hc)
  have hclose : Firm [mark (if table.columns.isEmpty then newline ++ newline else newline) ')'] ∧
      StartsHard [mark (if table.columns.isEmpty then newline ++ newline else newline) ')'] := by
    split
    · exact ⟨firm_mark (isLayout_newline.append isLayout_newline) rfl (by decide) firm_nil,
        startsHard_cons _ rfl (c := '\n') rfl⟩
    · exact ⟨firm_mark isLayout_newline rfl (by decide) firm_nil,
        startsHard_cons _ rfl (c := '\n') rfl⟩
  have hname : Firm (tableNameTokens key table) := firm_qualifiedTokens isLayout_sp _ _
  refine firm_word isLayout_nil (by decide) ?_ (startsHard_sp rfl)
  refine firm_keyword (by decide) ?_ ((startsHard_dottedTokens_sp _).append
    (startsHard_sp rfl))
  exact hname.append (firm_open (hcolumns.append hclose.1 hclose.2)) (startsHard_sp rfl)

/-! ## Constraints -/

/-- A list of names between parentheses. -/
def columnListTokens (names : List String) : List Token :=
  mark sp '(' :: (nameListTokens names ++ [mark [] ')'])

/-- The tokens of what a constraint says. -/
def bodyTokens (c : Constraint) : List Token :=
  match c.kind, c.reference with
  | .primaryKey, _ => word sp "PRIMARY" :: word sp "KEY" :: columnListTokens c.columns
  | .unique, _ => word sp "UNIQUE" :: columnListTokens c.columns
  | .check, _ =>
    word sp "CHECK" :: mark sp '(' :: (rawTokens (c.expression.getD "") ++ [mark [] ')'])
  | .foreignKey, none => word sp "FOREIGN" :: word sp "KEY" :: columnListTokens c.columns
  | .foreignKey, some r =>
    word sp "FOREIGN" :: word sp "KEY" :: (columnListTokens c.columns ++
      word sp "REFERENCES" :: (qualifiedTokens sp r.schema r.table ++
        (columnListTokens r.columns ++
          (clauseTokens ["ON", "DELETE"] ((filled r.onDelete).map Text.upper) ++
            clauseTokens ["ON", "UPDATE"] ((filled r.onUpdate).map Text.upper)))))

/-- The tokens of the name of a constraint, if it has one. -/
def constraintNameTokens (name : Option String) : List Token :=
  match filled name with
  | some name => [word sp "CONSTRAINT", nameToken sp name]
  | none => []

/-- The tokens of the addition of a constraint. -/
def constraintTokens (key : String) (t : Table) (c : Constraint) : List Token :=
  word [] "ALTER" :: word sp "TABLE" :: (tableNameTokens key t ++ word sp "ADD" ::
    (constraintNameTokens c.name ++ bodyTokens c))

/-- The raw texts of a constraint scan by themselves. -/
structure RawConstraint (c : Constraint) : Prop where
  expression : c.kind = .check → IsRaw (c.expression.getD "")
  onDelete : ∀ r, c.reference = some r → IsRawIfAny ((filled r.onDelete).map Text.upper)
  onUpdate : ∀ r, c.reference = some r → IsRawIfAny ((filled r.onUpdate).map Text.upper)

theorem fullText_columnListTokens (names : List String) :
    fullText (columnListTokens names) = " (".toList ++ (Ddl.identifiers names).toList ++ [')'] := by
  simp [columnListTokens, fullText_nameListTokens, mark, sp]

theorem firm_columnListTokens (names : List String) : Firm (columnListTokens names) :=
  firm_open (firm_nameListTokens names).close

theorem startsHard_columnListTokens (names : List String) :
    StartsHard (columnListTokens names) := startsHard_sp rfl

theorem fullText_bodyTokens {c : Constraint} (h : RawConstraint c) :
    fullText (bodyTokens c) = " ".toList ++ (Ddl.constraintBody c).toList := by
  unfold bodyTokens Ddl.constraintBody
  cases hk : c.kind with
  | primaryKey => simp [fullText_columnListTokens, word, sp]
  | unique => simp [fullText_columnListTokens, word, sp]
  | check => simp [(h.expression hk).fullText, word, mark, sp]
  | foreignKey =>
    cases hr : c.reference with
    | none => simp [fullText_columnListTokens, word, sp]
    | some r =>
      unfold Ddl.actions
      simp only [fullText_cons, fullText_append, fullText_columnListTokens,
        fullText_qualifiedTokens, fullText_clauseTokens (h.onDelete r hr),
        fullText_clauseTokens (h.onUpdate r hr)]
      cases filled r.onDelete <;> cases filled r.onUpdate <;> simp [word, sp]

theorem firm_bodyTokens {c : Constraint} (h : RawConstraint c) :
    Firm (bodyTokens c) ∧ StartsHard (bodyTokens c) := by
  have hlist := firm_columnListTokens c.columns
  have hstart := startsHard_columnListTokens c.columns
  unfold bodyTokens
  cases hk : c.kind with
  | primaryKey =>
    exact ⟨firm_keyword (by decide) (firm_keyword (by decide) hlist hstart) (startsHard_sp rfl),
      startsHard_sp rfl⟩
  | unique => exact ⟨firm_keyword (by decide) hlist hstart, startsHard_sp rfl⟩
  | check =>
    have hbody := firm_open (h.expression hk).firm.close
    exact ⟨firm_keyword (by decide) hbody (startsHard_sp rfl), startsHard_sp rfl⟩
  | foreignKey =>
    cases hr : c.reference with
    | none =>
      exact ⟨firm_keyword (by decide) (firm_keyword (by decide) hlist hstart)
        (startsHard_sp rfl), startsHard_sp rfl⟩
    | some r =>
      obtain ⟨hd, hds⟩ := firm_clauseTokens ["ON", "DELETE"] (by decide)
        (h.onDelete r hr)
      obtain ⟨hu, hus⟩ := firm_clauseTokens ["ON", "UPDATE"] (by decide)
        (h.onUpdate r hr)
      have hactions := hd.append hu hus
      have hcolumns := (firm_columnListTokens r.columns).append hactions (hds.append hus)
      have htarget := (firm_qualifiedTokens isLayout_sp r.schema r.table).append hcolumns
        ((startsHard_columnListTokens r.columns).append (hds.append hus))
      refine ⟨?_, startsHard_sp rfl⟩
      refine firm_keyword (by decide) (firm_keyword (by decide) ?_ ?_) (startsHard_sp rfl)
      · refine hlist.append (firm_keyword (by decide) htarget ?_) (startsHard_sp rfl)
        exact (startsHard_dottedTokens_sp _).append
          ((startsHard_columnListTokens r.columns).append (hds.append hus))
      · exact hstart.append (startsHard_sp rfl)

theorem fullText_constraintTokens {c : Constraint} (h : RawConstraint c) :
    fullText (constraintTokens key table c) ++ [';'] = (Ddl.addConstraint key table c).toList := by
  unfold Ddl.addConstraint
  simp only [constraintTokens, constraintNameTokens, tableNameTokens, fullText_cons,
    fullText_append, fullText_qualifiedTokens, fullText_bodyTokens h, tableName_eq]
  cases filled c.name <;> simp [nameToken, word, sp]

theorem firm_constraintTokens {c : Constraint} (h : RawConstraint c) :
    Firm (constraintTokens key table c) := by
  obtain ⟨hbody, hstart⟩ := firm_bodyTokens h
  have hname : Firm (tableNameTokens key table) := firm_qualifiedTokens isLayout_sp _ _
  refine firm_word isLayout_nil (by decide) ?_ (startsHard_sp rfl)
  refine firm_keyword (by decide) ?_ ((startsHard_dottedTokens_sp _).append (startsHard_sp rfl))
  refine hname.append ?_ (startsHard_sp rfl)
  unfold constraintNameTokens
  cases filled c.name with
  | none => exact firm_keyword (by decide) hbody hstart
  | some name =>
    exact firm_keyword (by decide) (firm_keyword (by decide) (firm_name name isLayout_sp hbody hstart)
      (startsHard_sp rfl)) (startsHard_sp rfl)

/-! ## Indexes -/

/-- The tokens of an index. -/
def indexTokens (key : String) (t : Table) (i : Index) : List Token :=
  word [] "CREATE" :: ((if i.unique then [word sp "UNIQUE"] else []) ++
    word sp "INDEX" :: nameToken sp i.name :: word sp "ON" :: (tableNameTokens key t ++
      (clauseTokens ["USING"] ((filled i.method).map Text.upper) ++
        mark sp '(' :: (separated [] sp (i.columns.map rawTokens) ++ mark [] ')' ::
          clauseTokens ["WHERE"] (filled i.condition)))))

/-- The raw texts of an index scan by themselves. -/
structure RawIndex (i : Index) : Prop where
  columns : ∀ c ∈ i.columns, IsRaw c
  method : IsRawIfAny ((filled i.method).map Text.upper)
  condition : IsRawIfAny (filled i.condition)

theorem fullText_indexTokens {i : Index} (h : RawIndex i) :
    fullText (indexTokens key table i) ++ [';'] = (Ddl.createIndex key table i).toList := by
  have hcolumns : fullText (separated [] sp (i.columns.map rawTokens)) =
      (", ".intercalate i.columns).toList := by
    cases hc : i.columns with
    | nil => rfl
    | cons c columns =>
      have := fullText_separated (l := c :: columns) (f := rawTokens) (g := id) (a := "") (b := " ")
        (p := "") (List.cons_ne_nil c columns) fun x hx =>
          ⟨(h.columns x (hc ▸ hx)).scan.1, (h.columns x (hc ▸ hx)).fullText⟩
      simpa [sp] using this
  unfold Ddl.createIndex
  simp only [indexTokens, tableNameTokens, fullText_cons, fullText_append,
    fullText_qualifiedTokens, hcolumns, fullText_clauseTokens h.method,
    fullText_clauseTokens h.condition, tableName_eq]
  cases i.unique <;> cases filled i.method <;> cases filled i.condition <;>
    simp [nameToken, word, mark, sp]

theorem firm_indexTokens {i : Index} (h : RawIndex i) : Firm (indexTokens key table i) := by
  have hname : Firm (tableNameTokens key table) := firm_qualifiedTokens isLayout_sp _ _
  have hcolumns : Firm (separated [] sp (i.columns.map rawTokens)) := by
    refine firm_separated isLayout_nil isLayout_sp ?_
    intro ts hts
    obtain ⟨c, hc, rfl⟩ := List.mem_map.1 hts
    exact (h.columns c hc).firm
  have hcondition := firm_mark (c := ')') isLayout_nil rfl (by decide)
    (firm_clauseTokens ["WHERE"] (by decide) h.condition).1
  have hlist := firm_open (hcolumns.append hcondition (startsHard_mark rfl))
  have hmethod := firm_clauseTokens ["USING"] (by decide) h.method
  have hrest := hmethod.1.append hlist (startsHard_sp rfl)
  have htable := hname.append hrest (hmethod.2.append (startsHard_sp rfl))
  have hon := firm_keyword (w := "ON") (by decide) htable
    ((startsHard_dottedTokens_sp _).append (hmethod.2.append (startsHard_sp rfl)))
  have hindex := firm_keyword (w := "INDEX") (by decide)
    (firm_name i.name isLayout_sp hon (startsHard_sp rfl)) (startsHard_sp rfl)
  unfold indexTokens
  cases i.unique with
  | false => exact firm_word isLayout_nil (by decide) hindex (startsHard_sp rfl)
  | true =>
    exact firm_word isLayout_nil (by decide)
      (firm_keyword (by decide) hindex (startsHard_sp rfl)) (startsHard_sp rfl)

/-! ## Comments -/

/-- The tokens of the comment on a table. -/
def tableCommentTokens (key : String) (t : Table) (text : String) : List Token :=
  word [] "COMMENT" :: word sp "ON" :: word sp "TABLE" :: (tableNameTokens key t ++
    [word sp "IS", literalToken sp text])

/-- The tokens of the comment on a column. -/
def columnCommentTokens (key : String) (t : Table) (column text : String) : List Token :=
  word [] "COMMENT" :: word sp "ON" :: word sp "COLUMN" ::
    (dottedTokens sp (qualifiedParts (Ddl.identity key t).1 (Ddl.identity key t).2 ++ [column]) ++
      [word sp "IS", literalToken sp text])

theorem fullText_tableCommentTokens (text : String) :
    fullText (tableCommentTokens key table text) ++ [';'] =
      (Ddl.commentOnTable key table text).toList := by
  unfold Ddl.commentOnTable
  simp only [tableCommentTokens, tableNameTokens, fullText_cons, fullText_append,
    fullText_qualifiedTokens, tableName_eq]
  simp [literalToken, word, sp]

theorem columnName_eq (key : String) (t : Table) (column : String) :
    Ddl.tableName key t ++ "." ++ Quote.identifier column =
      ".".intercalate ((qualifiedParts (Ddl.identity key t).1 (Ddl.identity key t).2 ++
        [column]).map Quote.identifier) := by
  rw [tableName_eq]
  unfold qualifiedParts Ddl.qualified
  cases filled (Ddl.identity key t).1 <;> simp [String.append_assoc]

theorem fullText_columnCommentTokens (column text : String) :
    fullText (columnCommentTokens key table column text) ++ [';'] =
      (Ddl.commentOnColumn key table column text).toList := by
  unfold Ddl.commentOnColumn
  simp only [columnCommentTokens, fullText_cons, fullText_append, ← columnName_eq,
    fullText_dottedTokens (List.append_ne_nil_of_right_ne_nil _ (List.cons_ne_nil column []))]
  simp [literalToken, word, sp]

theorem firm_commentTokens (target : String) (hw : isWord target = true) (parts : List String)
    (text : String) :
    Firm (word [] "COMMENT" :: word sp "ON" :: word sp target :: (dottedTokens sp parts ++
      [word sp "IS", literalToken sp text])) := by
  have htext : Firm [literalToken sp text] := firm_literal isLayout_sp firm_nil startsHard_nil
  have his := firm_keyword (w := "IS") (by decide) htext (startsHard_sp rfl)
  have hname := (firm_dottedTokens isLayout_sp parts).append his (startsHard_sp rfl)
  refine firm_word isLayout_nil (by decide) (firm_keyword (by decide) ?_ (startsHard_sp rfl))
    (startsHard_sp rfl)
  exact firm_keyword hw hname ((startsHard_dottedTokens_sp _).append (startsHard_sp rfl))

end

end Schemata.Written
