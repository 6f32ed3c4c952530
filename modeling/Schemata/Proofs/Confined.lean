/-
  Names and texts are confined to their statements.

  * `Completes d cs`: what remains of a statement inside `d` parentheses, up to its semicolon;
    `Stays d cs`: in front of such a rest, the text is a part of the statement and no more;
  * quoted names and literals stay where they are written, whatever they hold (`stays_dotted`,
    `stays_literal`), and so do raw texts that are self-contained, also in capitals
    (`SelfContained.stays`, `SelfContained.upper`);
  * the statements of `Ddl` are put together from such parts, so each is one closed statement
    (`closed_createTable` and its companions);
  * `statements_generate`: a generated document is split into the statements that it was made of.
-/
import Schemata.Proofs.Generated
import Schemata.Proofs.UpperCase

namespace Schemata

open Token

/-! ## Raw texts -/

/-- The texts of a column that are written as they stand. -/
def Column.rawTexts (c : Column) : List String := c.format :: c.defaultText.toList

/-- The texts of a reference that are written as they stand, but for their case. -/
def Reference.rawTexts (r : Reference) : List String := r.onDelete.toList ++ r.onUpdate.toList

/-- The texts of a constraint that are written as they stand. -/
def Constraint.rawTexts (c : Constraint) : List String :=
  c.expression.toList ++ c.reference.toList.flatMap Reference.rawTexts

/-- The texts of an index that are written as they stand. -/
def Index.rawTexts (i : Index) : List String :=
  i.columns ++ i.method.toList ++ i.condition.toList

/-- The texts of a table that are written as they stand. -/
def Table.rawTexts (t : Table) : List String :=
  t.columns.flatMap Column.rawTexts ++ t.constraints.flatMap Constraint.rawTexts ++
    t.indexes.flatMap Index.rawTexts

/-- The texts of a schema that are written as they stand. -/
def Schema.rawTexts (s : Schema) : List String := s.tables.values.flatMap Table.rawTexts

namespace Written

open Log

variable {d e : Nat} {a b cs lay rest : List Char} {ts : List Token} {s text : String}

/-- A text of ASCII characters that scans by itself up to its last character, without dollar quotes;
    its parentheses are balanced, and no semicolon stands outside them. -/
structure SelfContained (s : String) : Prop where
  ascii : ∀ c ∈ s.toList, c.toNat < 128
  scan : scanList s.toList = .ok (rawTokens s, [])
  noDollar : ∀ t ∈ rawTokens s, t.isDollarQuoted = false
  enclosed : Enclosed (isPunct ';') (rawTokens s)

-- The characters are checked as a list: there is an instance that goes through all characters.
instance (s : String) : Decidable (SelfContained s) :=
  decidable_of_iff (s.toList.all (·.toNat < 128) ∧ scanList s.toList = .ok (rawTokens s, []) ∧
      (∀ t ∈ rawTokens s, t.isDollarQuoted = false) ∧ level (isPunct ';') 0 (rawTokens s) = some 0)
    ⟨fun ⟨h₁, h₂, h₃, h₄⟩ => ⟨by simpa using h₁, h₂, h₃, h₄⟩,
     fun ⟨h₁, h₂, h₃, h₄⟩ => ⟨by simpa using h₁, h₂, h₃, h₄⟩⟩

theorem selfContained_of_scan (ha : ∀ c ∈ s.toList, c.toNat < 128)
    (hs : scanList s.toList = .ok (ts, [])) (hd : ∀ t ∈ ts, t.isDollarQuoted = false)
    (he : Enclosed (isPunct ';') ts) : SelfContained s := by
  have hraw : rawTokens s = ts := by rw [rawTokens, hs]
  exact ⟨ha, by rw [hraw, hs], by rwa [hraw], by rwa [hraw]⟩

theorem selfContained_empty : SelfContained "" :=
  selfContained_of_scan nofun (scanList_of_isLayout isLayout_nil) nofun Enclosed.nil

/-- The capitals of a self-contained text are self-contained. -/
theorem SelfContained.upper (h : SelfContained s) : SelfContained (Text.upper s) := by
  have hupper := Text.toList_upper h.ascii
  have hscan := (congrArg scanList hupper).trans (scanList_upper h.scan h.noDollar)
  refine selfContained_of_scan ?_ hscan ?_ ?_
  · intro c hc
    rw [hupper] at hc
    obtain ⟨small, hsmall, rfl⟩ := List.mem_map.1 hc
    exact Text.asciiUpper_lt (h.ascii small hsmall)
  · intro t ht
    obtain ⟨small, hsmall, rfl⟩ := List.mem_map.1 ht
    rw [isDollarQuoted_upper]
    exact h.noDollar small hsmall
  · rw [Enclosed, level_upper rfl]
    exact h.enclosed

theorem SelfContained.render (h : SelfContained s) : SelfContained (TypeText.render s) := by
  unfold TypeText.render
  split
  · exact h
  · exact h.upper

/-! ## Rests of statements -/

/-- The text is what remains of a statement inside `d` parentheses, up to its semicolon. -/
def Completes (d : Nat) (cs : List Char) : Prop :=
  ∃ ts, fullText ts ++ [';'] = cs ∧ Firm ts ∧ level (isPunct ';') d ts = some 0

theorem completes_semicolon : Completes 0 [';'] := ⟨[], rfl, firm_nil, rfl⟩

/-- A mark in front of a rest. -/
theorem Completes.mark {c : Char} (hl : IsLayout lay) (hc : isMark c = true) (hd : c ≠ '.')
    (hlevel : level (isPunct ';') d [Written.mark lay c] = some e) (h : Completes e cs) :
    Completes d (lay ++ c :: cs) := by
  obtain ⟨ts, rfl, hfirm, he⟩ := h
  refine ⟨Written.mark lay c :: ts, by simp [Written.mark], firm_mark hl hc hd hfirm, ?_⟩
  rw [← List.singleton_append, level_append, hlevel]
  exact he

/-- Put in front of what remains of a statement inside `d` parentheses, the text belongs to the
    statement and leaves the parentheses as they are. -/
def Stays (d : Nat) (cs : List Char) : Prop :=
  ∀ rest, Hard rest → Completes d rest → Completes d (cs ++ rest)

theorem stays_nil : Stays d [] := fun _ _ h => h

theorem Stays.append (ha : Stays d a) (hb : Stays d b) (hhard : Hard b) : Stays d (a ++ b) := by
  intro rest hr h
  have hrest : Hard (b ++ rest) := by
    cases b with
    | nil => exact hr
    | cons c b => exact fun c hc => hhard c hc
  rw [List.append_assoc]
  exact ha _ hrest (hb rest hr h)

/-- The text of firm tokens with balanced parentheses stays. -/
theorem stays_tokens (hf : Firm ts) (he : Enclosed (isPunct ';') ts) : Stays d (fullText ts) := by
  rintro rest hr ⟨us, rfl, hfirm, hlevel⟩
  have hstart : StartsHard us := startsHard_of_hard fun c hc => hr c (by simp [hc])
  refine ⟨ts ++ us, by rw [fullText_append, List.append_assoc], hf.append hfirm hstart, ?_⟩
  rw [level_append, he.level_eq]
  exact hlevel

/-- A layout in front of a text that stays; outside parentheses the text is not empty. -/
theorem Stays.behind (h : Stays d cs) (hl : IsLayout lay) (hne : cs ≠ [] ∨ 0 < d) :
    Stays d (lay ++ cs) := by
  intro rest hr hrest
  obtain ⟨ts, htext, hfirm, hlevel⟩ := h rest hr hrest
  have hts : ts ≠ [] := by
    rintro rfl
    cases hlevel
    obtain ⟨us, rfl, -⟩ := hrest
    have hlength := congrArg List.length htext
    simp only [fullText_nil, List.nil_append, List.length_append, List.length_singleton] at hlength
    have := List.length_pos_iff.2 (hne.resolve_right (Nat.lt_irrefl 0))
    omega
  refine ⟨indent lay ts, ?_, hfirm.indent hl, ?_⟩
  · rw [fullText_indent hts, List.append_assoc, htext, List.append_assoc]
  · rw [level_indent (blind_isPunct _)]
    exact hlevel

theorem Stays.comma (h : Stays d cs) : Stays d (',' :: cs) := by
  intro rest hr hrest
  exact Completes.mark isLayout_nil rfl (by decide) (by simp [level, Written.mark, isPunct])
    (h rest hr hrest)

/-- Items between commas. -/
theorem stays_intercalate {sep : String} {lay : List Char} {items : List String}
    (hsep : sep.toList = ',' :: lay) (hl : IsLayout lay)
    (h : ∀ item ∈ items, Stays (d + 1) item.toList) :
    Stays (d + 1) (sep.intercalate items).toList := by
  induction items with
  | nil => exact stays_nil
  | cons item items ih =>
    have hitem := h item List.mem_cons_self
    cases items with
    | nil => simpa using hitem
    | cons item' items =>
      have hmore := ih fun x hx => h x (List.mem_cons_of_mem item hx)
      have := hitem.append (hmore.behind hl (.inr d.succ_pos)).comma (hard_cons rfl)
      simpa [String.intercalate_cons_cons, hsep] using this

theorem SelfContained.stays (h : SelfContained s) : Stays d s.toList := by
  have htext := fullText_append_of_scanList h.scan
  rw [List.append_nil] at htext
  rw [← htext]
  exact stays_tokens (firm_of_scanList h.scan) h.enclosed

/-- Quoted names with points between them stay. -/
theorem stays_dotted {parts : List String} (hne : parts ≠ []) :
    Stays d (".".intercalate (parts.map Quote.identifier)).toList := by
  have := stays_tokens (d := d) (firm_dottedTokens isLayout_nil parts)
    (enclosed_names (fun _ _ => rfl) rfl parts)
  rwa [fullText_dottedTokens hne, List.nil_append] at this

theorem stays_identifier (name : String) : Stays d (Quote.identifier name).toList := by
  simpa using stays_dotted (d := d) (List.cons_ne_nil name [])

theorem stays_qualified (schema : Option String) (name : String) :
    Stays d (Ddl.qualified schema name).toList := by
  rw [qualified_eq]
  exact stays_dotted (List.append_ne_nil_of_right_ne_nil _ (List.cons_ne_nil name []))

theorem stays_literal (text : String) : Stays d (Quote.literal text).toList := by
  have hfirm : Firm [literalToken [] text] := firm_literal isLayout_nil firm_nil startsHard_nil
  have := stays_tokens (d := d) hfirm (Enclosed.cons rfl rfl rfl Enclosed.nil)
  simpa [literalToken] using this

theorem stays_identifiers (names : List String) :
    Stays (d + 1) (Ddl.identifiers names).toList := by
  refine stays_intercalate rfl isLayout_sp fun item hitem => ?_
  obtain ⟨name, -, rfl⟩ := List.mem_map.1 hitem
  exact stays_identifier name

/-! ## Phrases -/

/-- A part of a statement that a hard character parts from what stands before it. -/
structure Phrase (d : Nat) (cs : List Char) : Prop where
  hard : Hard cs
  stays : Stays d cs

theorem phrase_nil : Phrase d [] := ⟨nofun, stays_nil⟩

theorem Phrase.append (ha : Phrase d a) (hb : Phrase d b) : Phrase d (a ++ b) := by
  refine ⟨fun c hc => ?_, ha.stays.append hb.stays hb.hard⟩
  cases a with
  | nil => exact hb.hard c hc
  | cons c' a => exact ha.hard c hc

/-- Words, each behind a space. -/
def spacedWords (words : List String) : List Char := words.flatMap fun w => ' ' :: w.toList

theorem phrase_words (words : List String) (hw : ∀ w ∈ words, isWord w = true) :
    Phrase d (spacedWords words) := by
  obtain ⟨hfirm, -⟩ := firm_words words hw firm_nil startsHard_nil
  rw [List.append_nil] at hfirm
  have henclosed : Enclosed (isPunct ';') (words.map (word sp)) := by
    clear hw hfirm
    induction words with
    | nil => exact Enclosed.nil
    | cons w words ih => exact ih.cons rfl rfl rfl
  refine ⟨?_, ?_⟩
  · cases words with
    | nil => nofun
    | cons w words => exact hard_cons rfl
  · rw [spacedWords, ← fullText_words]
    exact stays_tokens hfirm henclosed

theorem Stays.phrase (h : Stays d cs) (hne : cs ≠ [] ∨ 0 < d) : Phrase d (' ' :: cs) :=
  ⟨hard_cons rfl, h.behind isLayout_sp hne⟩

/-- A group in parentheses. -/
theorem Stays.group (h : Stays (d + 1) cs) : Phrase d (' ' :: '(' :: (cs ++ [')'])) := by
  refine ⟨hard_cons rfl, fun rest hr hrest => ?_⟩
  have hclose : Completes (d + 1) (')' :: rest) :=
    hrest.mark isLayout_nil rfl (by decide) (by simp [level, mark, isPunct])
  have hopen := (h _ (hard_cons rfl) hclose).mark (d := d) (c := '(') isLayout_sp rfl (by decide)
    (by simp [level, mark, isPunct])
  simpa [sp] using hopen

theorem phrase_dotted {parts : List String} (hne : parts ≠ []) :
    Phrase d (' ' :: (".".intercalate (parts.map Quote.identifier)).toList) := by
  refine (stays_dotted hne).phrase (.inl ?_)
  obtain ⟨part, parts, rfl⟩ := List.exists_cons_of_ne_nil hne
  cases parts <;> simp [String.intercalate_cons_cons, Quote.encloseName]

theorem phrase_qualified (schema : Option String) (name : String) :
    Phrase d (' ' :: (Ddl.qualified schema name).toList) := by
  rw [qualified_eq]
  exact phrase_dotted (List.append_ne_nil_of_right_ne_nil _ (List.cons_ne_nil name []))

theorem phrase_tableName (key : String) (t : Table) :
    Phrase d (' ' :: (Ddl.tableName key t).toList) := by
  rw [tableName_eq]
  exact phrase_qualified _ _

theorem phrase_identifier (name : String) : Phrase d (' ' :: (Quote.identifier name).toList) := by
  simpa using phrase_dotted (d := d) (List.cons_ne_nil name [])

theorem phrase_literal (text : String) : Phrase d (' ' :: (Quote.literal text).toList) :=
  (stays_literal text).phrase (.inl (by simp [Quote.literalList]))

/-- Words with a raw text after them, if there is one. -/
def clauseText (words : List String) (text : Option String) : List Char :=
  text.elim [] fun s => spacedWords words ++ ' ' :: s.toList

theorem phrase_clauseText (words : List String) (hw : ∀ w ∈ words, isWord w = true)
    {text : Option String} (h : ∀ s, text = some s → SelfContained s ∧ (s ≠ "" ∨ 0 < d)) :
    Phrase d (clauseText words text) := by
  cases text with
  | none => exact phrase_nil
  | some s =>
    obtain ⟨hs, hne⟩ := h s rfl
    have hphrase : Phrase d (' ' :: s.toList) :=
      hs.stays.phrase (hne.imp_left (mt String.toList_eq_nil_iff.1))
    exact (phrase_words words hw).append hphrase

theorem filled_eq_some_iff {o : Option String} : filled o = some s ↔ o = some s ∧ s ≠ "" := by
  simp [filled, Option.filter_eq_some_iff]

theorem SelfContained.upper_ne_empty (h : SelfContained s) (hne : s ≠ "") : Text.upper s ≠ "" := by
  rw [ne_eq, ← String.toList_eq_nil_iff] at hne ⊢
  rwa [Text.toList_upper h.ascii, List.map_eq_nil_iff]

/-- Words with a raw text in capitals after them, if there is one that is not empty. -/
theorem phrase_upperClause (words : List String) (hw : ∀ w ∈ words, isWord w = true)
    {text : Option String} (h : ∀ s, text = some s → SelfContained s) :
    Phrase d (clauseText words ((filled text).map Text.upper)) := by
  refine phrase_clauseText words hw fun s hs => ?_
  obtain ⟨raw, hraw, rfl⟩ := Option.map_eq_some_iff.1 hs
  obtain ⟨hraw, hne⟩ := filled_eq_some_iff.1 hraw
  exact ⟨(h raw hraw).upper, .inl ((h raw hraw).upper_ne_empty hne)⟩

/-! ## Statements -/

/-- The tokens are those of the text but for the semicolon at its end. -/
def IsSource (piece : List Token) (text : String) : Prop := source piece ++ ";" = text

/-- The text is one closed statement. -/
def Closed (text : String) : Prop := ClosedAs IsSource text text

/-- A word with a phrase after it is a closed statement. -/
theorem closed_of_phrase {w : String} (hw : isWord w = true) (h : Phrase 0 cs)
    (htext : text.toList = w.toList ++ (cs ++ [';'])) : Closed text := by
  obtain ⟨ts, hts, hfirm, hlevel⟩ := h.stays [';'] (hard_cons rfl) completes_semicolon
  obtain rfl := List.append_cancel_right hts
  have hsource : source (word [] w :: ts) ++ ";" = text := by
    rw [← String.toList_inj, htext]
    simp [source, word]
  have henclosed : Enclosed (isPunct ';') (word [] w :: ts) := Enclosed.cons rfl rfl rfl hlevel
  refine ⟨word [] w :: ts, List.cons_ne_nil _ _, ?_, ?_, clampedLevel_of_level henclosed,
    fun lay => ?_⟩
  · rw [htext, fullText_cons, List.append_assoc]
    simp [word]
  · exact firm_word isLayout_nil hw hfirm (startsHard_of_hard h.hard)
  · rw [IsSource, source_indent, hsource]

theorem closed_createEnum (e : EnumType) : Closed (Ddl.createEnum e) := by
  have hvalues : Stays 1 (", ".intercalate (e.values.map Quote.literal)).toList := by
    refine stays_intercalate rfl isLayout_sp fun item hitem => ?_
    obtain ⟨value, -, rfl⟩ := List.mem_map.1 hitem
    exact stays_literal value
  have hname := (phrase_words (d := 0) ["TYPE"] (by decide)).append
    (phrase_qualified e.schema e.name)
  have hlist := (phrase_words ["AS", "ENUM"] (by decide)).append hvalues.group
  refine closed_of_phrase (w := "CREATE") (by decide) (hname.append hlist) ?_
  unfold Ddl.createEnum
  simp [spacedWords]

section

variable {options : RenderOptions} {enums : OrderedMap EnumType} {c : Column} {key : String}
  {t : Table}

theorem stays_columnType (hf : SelfContained options.fallbackType) (hc : SelfContained c.format) :
    Stays d (Ddl.columnType options enums c).toList := by
  unfold Ddl.columnType
  split
  · split
    · exact stays_qualified _ _
    · exact stays_qualified _ _
  · split
    · exact hf.render.stays
    · exact hc.render.stays

theorem stays_columnLine (hf : SelfContained options.fallbackType)
    (hc : ∀ raw ∈ c.rawTexts, SelfContained raw) :
    Stays (d + 1) (Ddl.columnLine options enums c).toList := by
  have htype : Phrase (d + 1) (' ' :: (Ddl.columnType options enums c).toList) :=
    (stays_columnType hf (hc _ List.mem_cons_self)).phrase (.inr d.succ_pos)
  have hrequired : Phrase (d + 1) (spacedWords (if c.required then ["NOT", "NULL"] else [])) :=
    phrase_words _ (by cases c.required <;> decide)
  have hdefault : Phrase (d + 1) (clauseText ["DEFAULT"] c.defaultText) :=
    phrase_clauseText _ (by decide) fun s hs =>
      ⟨hc s (List.mem_cons_of_mem _ (by simp [hs])), .inr d.succ_pos⟩
  have hrest := htype.append (hrequired.append hdefault)
  have := (stays_identifier c.title).append hrest.stays hrest.hard
  unfold Ddl.columnLine
  cases hr : c.required <;> cases hd : c.defaultText <;>
    simpa [hr, hd, spacedWords, clauseText] using this

theorem closed_createTable (hf : SelfContained options.fallbackType)
    (hc : ∀ c ∈ t.columns, ∀ raw ∈ c.rawTexts, SelfContained raw) :
    Closed (Ddl.createTable options enums key t) := by
  have hlines : Stays 1 (",\n".intercalate
      (t.columns.map fun c => "  " ++ Ddl.columnLine options enums c)).toList := by
    refine stays_intercalate rfl isLayout_newline fun item hitem => ?_
    obtain ⟨c, hmem, rfl⟩ := List.mem_map.1 hitem
    rw [String.toList_append]
    exact (stays_columnLine hf (hc c hmem)).behind (isLayout_blanks (List.all_eq_true.1 rfl))
      (.inr Nat.one_pos)
  have hend : Stays 1 newline := stays_nil.behind isLayout_newline (.inr Nat.one_pos)
  have hbody := (hlines.append hend (hard_cons rfl)).behind isLayout_newline (.inr Nat.one_pos)
  have hname := (phrase_words (d := 0) ["TABLE"] (by decide)).append (phrase_tableName key t)
  refine closed_of_phrase (w := "CREATE") (by decide) (hname.append hbody.group) ?_
  unfold Ddl.createTable
  simp [spacedWords, newline]

theorem phrase_constraintBody {c : Constraint} (h : ∀ raw ∈ c.rawTexts, SelfContained raw) :
    Phrase 0 (' ' :: (Ddl.constraintBody c).toList) := by
  have hcolumns : Phrase 0 (' ' :: '(' :: ((Ddl.identifiers c.columns).toList ++ [')'])) :=
    (stays_identifiers c.columns).group
  unfold Ddl.constraintBody
  cases hk : c.kind with
  | primaryKey =>
    have := (phrase_words ["PRIMARY", "KEY"] (by decide)).append hcolumns
    simpa [spacedWords] using this
  | unique =>
    have := (phrase_words ["UNIQUE"] (by decide)).append hcolumns
    simpa [spacedWords] using this
  | check =>
    have hexpression : SelfContained (c.expression.getD "") := by
      cases he : c.expression with
      | none => exact selfContained_empty
      | some e => exact h e (by simp [Constraint.rawTexts, he])
    have hgroup : Phrase 0 (' ' :: '(' :: ((c.expression.getD "").toList ++ [')'])) :=
      hexpression.stays.group
    have := (phrase_words ["CHECK"] (by decide)).append hgroup
    simpa [spacedWords] using this
  | foreignKey =>
    have hkey := (phrase_words ["FOREIGN", "KEY"] (by decide)).append hcolumns
    cases hr : c.reference with
    | none => simpa [spacedWords] using hkey
    | some r =>
      have htarget := (phrase_words (d := 0) ["REFERENCES"] (by decide)).append
        ((phrase_qualified r.schema r.table).append (stays_identifiers r.columns).group)
      have hdelete : Phrase 0 (clauseText ["ON", "DELETE"] ((filled r.onDelete).map Text.upper)) :=
        phrase_upperClause _ (by decide) fun s hs =>
          h s (by simp [Constraint.rawTexts, hr, Reference.rawTexts, hs])
      have hupdate : Phrase 0 (clauseText ["ON", "UPDATE"] ((filled r.onUpdate).map Text.upper)) :=
        phrase_upperClause _ (by decide) fun s hs =>
          h s (by simp [Constraint.rawTexts, hr, Reference.rawTexts, hs])
      have := (hkey.append htarget).append (hdelete.append hupdate)
      unfold Ddl.actions
      cases hd : filled r.onDelete <;> cases hu : filled r.onUpdate <;>
        simpa [hd, hu, spacedWords, clauseText] using this

theorem closed_addConstraint {c : Constraint} (h : ∀ raw ∈ c.rawTexts, SelfContained raw) :
    Closed (Ddl.addConstraint key t c) := by
  have htable := (phrase_words (d := 0) ["TABLE"] (by decide)).append
    ((phrase_tableName key t).append (phrase_words ["ADD"] (by decide)))
  have hbody := phrase_constraintBody h
  unfold Ddl.addConstraint
  cases hn : filled c.name with
  | none =>
    refine closed_of_phrase (w := "ALTER") (by decide) (htable.append hbody) ?_
    simp [spacedWords]
  | some name =>
    have hname := (phrase_words (d := 0) ["CONSTRAINT"] (by decide)).append (phrase_identifier name)
    refine closed_of_phrase (w := "ALTER") (by decide) (htable.append (hname.append hbody)) ?_
    simp [spacedWords]

theorem closed_createIndex {i : Index} (h : ∀ raw ∈ i.rawTexts, SelfContained raw) :
    Closed (Ddl.createIndex key t i) := by
  have hunique : Phrase 0 (spacedWords (if i.unique then ["UNIQUE"] else [])) :=
    phrase_words _ (by cases i.unique <;> decide)
  have hname := (phrase_words (d := 0) ["INDEX"] (by decide)).append (phrase_identifier i.name)
  have htable := (phrase_words (d := 0) ["ON"] (by decide)).append (phrase_tableName key t)
  have hmethod : Phrase 0 (clauseText ["USING"] ((filled i.method).map Text.upper)) :=
    phrase_upperClause _ (by decide) fun s hs => h s (by simp [Index.rawTexts, hs])
  have hcolumns : Stays 1 (", ".intercalate i.columns).toList :=
    stays_intercalate rfl isLayout_sp fun item hitem =>
      (h item (by simp [Index.rawTexts, hitem])).stays
  have hcondition : Phrase 0 (clauseText ["WHERE"] (filled i.condition)) := by
    refine phrase_clauseText _ (by decide) fun s hs => ?_
    obtain ⟨hs, hne⟩ := filled_eq_some_iff.1 hs
    exact ⟨h s (by simp [Index.rawTexts, hs]), .inl hne⟩
  have hall := hunique.append (hname.append (htable.append (hmethod.append
    (hcolumns.group.append hcondition))))
  refine closed_of_phrase (w := "CREATE") (by decide) hall ?_
  unfold Ddl.createIndex
  cases i.unique <;> cases filled i.method <;> cases filled i.condition <;>
    simp [spacedWords, clauseText]

theorem closed_commentOnTable (text : String) : Closed (Ddl.commentOnTable key t text) := by
  have htable := (phrase_words (d := 0) ["ON", "TABLE"] (by decide)).append (phrase_tableName key t)
  have htext := (phrase_words (d := 0) ["IS"] (by decide)).append (phrase_literal text)
  refine closed_of_phrase (w := "COMMENT") (by decide) (htable.append htext) ?_
  unfold Ddl.commentOnTable
  simp [spacedWords]

theorem closed_commentOnColumn (column text : String) :
    Closed (Ddl.commentOnColumn key t column text) := by
  have hcolumn :
      Phrase 0 (' ' :: (Ddl.tableName key t ++ "." ++ Quote.identifier column).toList) := by
    rw [columnName_eq]
    exact phrase_dotted (List.append_ne_nil_of_right_ne_nil _ (List.cons_ne_nil column []))
  have htarget := (phrase_words (d := 0) ["ON", "COLUMN"] (by decide)).append hcolumn
  have htext := (phrase_words (d := 0) ["IS"] (by decide)).append (phrase_literal text)
  refine closed_of_phrase (w := "COMMENT") (by decide) (htarget.append htext) ?_
  unfold Ddl.commentOnColumn
  simp [spacedWords]

end

/-! ## Documents -/

/-- What column flags imply is written without raw texts. -/
theorem rawTexts_of_implied {t : Table} {c : Constraint} (hc : c ∈ t.impliedConstraints) :
    c.rawTexts = [] := by
  rw [Table.impliedConstraints, List.mem_append, List.mem_flatMap] at hc
  obtain hkey | ⟨column, -, hcolumn⟩ := hc
  · unfold Table.impliedKey at hkey
    split at hkey
    · rw [List.mem_singleton.1 hkey]
      rfl
    · cases hkey
  rcases List.mem_append.1 hcolumn with hforeign | hunique
  · unfold Table.impliedForeignKey at hforeign
    split at hforeign
    · cases hforeign
    split at hforeign
    · cases hforeign
    split at hforeign
    · cases hforeign
    · rw [List.mem_singleton.1 hforeign]
      rfl
  · unfold Table.impliedUnique at hunique
    split at hunique
    · rw [List.mem_singleton.1 hunique]
      rfl
    · cases hunique

theorem mem_or_rawTexts_eq_nil {t : Table} {c : Constraint} (hc : c ∈ t.allConstraints) :
    c ∈ t.constraints ∨ c.rawTexts = [] := by
  obtain ⟨kind, -, hc⟩ := List.mem_flatMap.1 hc
  rcases List.mem_append.1 (List.mem_filter.1 hc).1 with hown | himplied
  · exact .inl (List.mem_filter.1 hown).1
  · exact .inr (rawTexts_of_implied himplied)

section

variable {options : RenderOptions} {enums : OrderedMap EnumType} {schema : Schema} {key : String}
  {t : Table}

theorem closed_constraintStatements (h : ∀ raw ∈ t.rawTexts, SelfContained raw) :
    ∀ text ∈ Ddl.constraintStatements key t, Closed text := by
  intro text htext
  obtain ⟨c, hc, rfl⟩ := List.mem_map.1 htext
  refine closed_addConstraint fun raw hraw => ?_
  rcases mem_or_rawTexts_eq_nil hc with hown | hnil
  · have hmem := List.mem_flatMap.2 ⟨c, hown, hraw⟩
    exact h raw (List.mem_append_left _ (List.mem_append_right _ hmem))
  · rw [hnil] at hraw
    cases hraw

theorem closed_indexStatements (h : ∀ raw ∈ t.rawTexts, SelfContained raw) :
    ∀ text ∈ Ddl.indexStatements key t, Closed text := by
  intro text htext
  obtain ⟨i, hi, rfl⟩ := List.mem_map.1 htext
  have hmem : i ∈ t.indexes := List.mem_mergeSort.1 (List.mem_filter.1 hi).1
  exact closed_createIndex fun raw hraw =>
    h raw (List.mem_append_right _ (List.mem_flatMap.2 ⟨i, hmem, hraw⟩))

theorem closed_commentStatements : ∀ text ∈ Ddl.commentStatements key t, Closed text := by
  intro text htext
  rcases List.mem_append.1 htext with htable | hcolumn
  · obtain ⟨comment, -, rfl⟩ := List.mem_map.1 htable
    exact closed_commentOnTable comment
  · obtain ⟨c, -, hcomment⟩ := List.mem_flatMap.1 hcolumn
    obtain ⟨comment, -, rfl⟩ := List.mem_map.1 hcomment
    exact closed_commentOnColumn c.title comment

/-- The statements that a schema is written with, kind by kind. -/
def statementTexts (options : RenderOptions) (enums : OrderedMap EnumType) (s : Schema) :
    List String :=
  (Ddl.sortedEnums enums).map Ddl.createEnum ++
    ((Ddl.sortedTables s).map (fun e => Ddl.createTable options enums e.1 e.2) ++
      ((Ddl.sortedTables s).flatMap (fun e => Ddl.constraintStatements e.1 e.2) ++
        ((Ddl.sortedTables s).flatMap (fun e => Ddl.indexStatements e.1 e.2) ++
          (Ddl.sortedTables s).flatMap fun e => Ddl.commentStatements e.1 e.2)))

theorem flatMap_sections : (Ddl.sections options enums schema).flatMap (·.2) =
    statementTexts options enums schema := by
  simp only [Ddl.sections, List.flatMap_cons, List.flatMap_nil, List.append_nil]
  rfl

theorem closed_statementTexts
    (h : ∀ raw ∈ options.fallbackType :: schema.rawTexts, SelfContained raw) :
    ∀ text ∈ statementTexts options enums schema, Closed text := by
  have htables : ∀ e ∈ Ddl.sortedTables schema, ∀ raw ∈ e.2.rawTexts, SelfContained raw := by
    intro e he raw hraw
    have hvalue : e.2 ∈ schema.tables.values := List.mem_map_of_mem (List.mem_mergeSort.1 he)
    exact h raw (List.mem_cons_of_mem _ (List.mem_flatMap.2 ⟨e.2, hvalue, hraw⟩))
  unfold statementTexts
  simp only [List.forall_mem_append, List.forall_mem_map, List.forall_mem_flatMap]
  refine ⟨fun e _ => closed_createEnum e, fun e he => ?_, fun e he => ?_, fun e he => ?_,
    fun e _ => closed_commentStatements⟩
  · exact closed_createTable (h _ List.mem_cons_self) fun c hc raw hraw =>
      htables e he raw (List.mem_append_left _ (List.mem_append_left _
        (List.mem_flatMap.2 ⟨c, hc, hraw⟩)))
  · exact closed_constraintStatements (htables e he)
  · exact closed_indexStatements (htables e he)

/-- **Names and literals cannot break out of their statements.** If the raw texts of a schema, and
    the type for columns without one, are self-contained, then a document that is generated from the
    schema scans, and it is split into just the statements that the schema is written with, in their
    order, whatever its names, values and comments are. -/
theorem statements_generate {fallback text : String}
    (hraw : ∀ raw ∈ fallback :: schema.rawTexts, SelfContained raw)
    (h : (Ddl.generate { fallbackType := fallback } schema none).result = .ok text) :
    ∃ enums ts, Ddl.knownEnums schema = .ok enums ∧ Token.scan text = .ok ts ∧
      (Token.statements ts).map (fun piece => source piece ++ ";") =
        statementTexts { fallbackType := fallback } enums schema := by
  rw [Ddl.result_generate] at h
  obtain ⟨enums, henums, rfl⟩ := Action.map_ok h
  have hclosed : List.Forall₂ (ClosedAs IsSource)
      ((Ddl.sections { fallbackType := fallback } enums schema).flatMap (·.2))
      (statementTexts { fallbackType := fallback } enums schema) := by
    rw [flatMap_sections]
    exact List.forall₂_same.2 (closed_statementTexts hraw)
  obtain ⟨ts, hscan, hpieces⟩ := (run_document (isHeading_default fallback) hclosed).statements
  refine ⟨enums, ts, henums, hscan, ?_⟩
  rw [← List.forall₂_eq_eq_eq, List.forall₂_map_left_iff]
  exact hpieces

end

/-- A schema whose names, values and comments hold quotes, semicolons, parentheses, comments and
    dollar tags. -/
def harshSchema : Schema where
  tables := .ofList [("k", {
    title := "t\"; --"
    schema := some "/* s"
    columns := [
      { title := "a); $$", format := "numeric(10, 2)", required := true, unique := true,
        defaultText := some "round(1.5, 0) /* ; */ + 1", comment := some "it's; -- not over\n" },
      { title := "b", format := "enum", enumName := some "mood" }]
    constraints := [{ kind := .check, name := some "'", expression := some "b <> ';)' or (1 < 2)" }]
    indexes := [{ name := "i", columns := ["lower(b)"], method := some "btree",
                  condition := some "b > ''" }, { name := "none" }]
    comment := some "$$;" })]
  enums := .ofList [("mood", { name := "mood", values := ["');", "--"] })]

theorem statements_generate_harshSchema :
    (∀ raw ∈ "text" :: harshSchema.rawTexts, SelfContained raw) ∧
      ∃ text enums ts, (Ddl.generate {} harshSchema none).result = .ok text ∧
        Ddl.knownEnums harshSchema = .ok enums ∧ Token.scan text = .ok ts ∧
        (Token.statements ts).map (fun piece => source piece ++ ";") =
          statementTexts {} enums harshSchema := by
  have hraw : ∀ raw ∈ "text" :: harshSchema.rawTexts, SelfContained raw := by decide +kernel
  have hok : (Ddl.generate {} harshSchema none).result.toOption.isSome = true := by decide +kernel
  cases h : (Ddl.generate {} harshSchema none).result with
  | error faults =>
    rw [h] at hok
    cases hok
  | ok text =>
    obtain ⟨enums, ts, hgenerated⟩ := statements_generate hraw h
    exact ⟨hraw, text, enums, ts, rfl, hgenerated⟩

end Written

end Schemata
