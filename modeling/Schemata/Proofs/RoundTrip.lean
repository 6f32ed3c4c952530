/-
  The round trip through statements.

  * a column of a canonical schema is built from its definition as it was, whatever enum types the
    schema has (`buildColumn_definition`);
  * `generate_rebuilt`: the document of a canonical schema describes the tables that are rebuilt from
    its own;
  * `ofDocument_generate`: the document of a canonical schema describes a schema of the same outline.
-/
import Schemata.Proofs.Canonical
import Schemata.Proofs.Restoring

namespace Schemata.Written

open Token Log Schema Statement

variable {enums enums' : OrderedMap EnumType} {options : RenderOptions}

/-! ## Building -/

theorem isBlankText_eq_false {s : String} {c : Char} (hc : c ∈ s.toList)
    (hb : Text.isBlank c = false) : Text.isBlankText s = false := by
  rw [Text.isBlankText, List.all_eq_false]
  exact ⟨c, hc, by simp [hb]⟩

theorem nonBlank_eq {s : String} {c : Char} (hc : c ∈ s.toList) (hb : Text.isBlank c = false) :
    nonBlank s = some s := by
  rw [nonBlank, isBlankText_eq_false hc hb]
  rfl

theorem CanonicalEnum.nonBlank_key {key : String} {e : EnumType} (h : CanonicalEnum key e) :
    nonBlank e.key = some e.key := by
  obtain ⟨c, hc, hb⟩ := h.name.exists_not_blank
  refine nonBlank_eq ?_ hb
  rw [EnumType.key, key_eq h.schema]
  cases e.schema with
  | none => exact hc
  | some s =>
    rw [Option.elim_some, String.toList_append]
    exact List.mem_append_right _ hc

/-- A text with tokens is not blank. -/
theorem nonBlank_of_isRaw {s : String} (h : IsRaw s) : nonBlank s = some s := by
  have hsome : ∃ c ∈ s.toList, Text.isBlank c = false := by
    by_contra hall
    have hblank : ∀ c ∈ s.toList, Text.isBlank c = true := by
      intro c hc
      by_contra hb
      exact hall ⟨c, hc, by simpa using hb⟩
    obtain ⟨ts, hne, hscan⟩ := h
    rw [scanList_of_isLayout (isLayout_blanks hblank)] at hscan
    rw [Except.ok.injEq, Prod.mk.injEq] at hscan
    exact hne hscan.1.symm
  obtain ⟨c, hc, hb⟩ := hsome
  exact nonBlank_eq hc hb

theorem plainTypeName_qualifiedTokens {schema : Option String} {name : String}
    (h : PlainName schema name) :
    plainTypeName (qualifiedTokens [] schema name) = some (schema, name) := by
  have hne : qualifiedParts schema name ≠ [] := by simp [qualifiedParts]
  have hparts : Cursor.nameParts "type name" (dottedTokens [] (qualifiedParts schema name) ++ []) =
      .ok ((qualifiedParts schema name).map Quote.unquote, []) := nameParts_dottedTokens hne rfl
  rw [List.append_nil, h.unquote_parts] at hparts
  rw [plainTypeName, qualifiedTokens, hparts]
  simp only [lastTwo_qualifiedParts h.filled_schema]

section
variable (he : ∀ e ∈ enums.entries, CanonicalEnum e.1 e.2) (heq : enums'.Equiv enums)
include he heq

theorem canonicalEnum_of_get? {key : String} {e : EnumType} (h : enums'.get? key = some e) :
    CanonicalEnum key e ∧ e ∈ enums.values := by
  have hm := OrderedMap.get?_eq_some_iff.1 ((heq key).symm.trans h)
  exact ⟨he (key, e) hm, List.mem_map.2 ⟨(key, e), hm, rfl⟩⟩

/-- An enum type that has the name of a word is called like it. -/
theorem resolveEnum?_word {w : String} {tableSchema : Option String} (hw : isWord w = true)
    (hs : CleanIfAny tableSchema) (ho : ∀ e ∈ enums.values, Text.lower e.name ≠ Text.lower w) :
    resolveEnum? enums' (none, w) tableSchema = none := by
  obtain ⟨hunquote, hpoint⟩ := unquote_of_isWord hw
  have hbare : enums'.get? (Name.key none w) = none := by
    cases hget : enums'.get? (Name.key none w) with
    | none => rfl
    | some e =>
      obtain ⟨hcanonical, hm⟩ := canonicalEnum_of_get? he heq hget
      obtain ⟨-, rfl⟩ := eq_of_key_eq hcanonical.schema hpoint hcanonical.key
      exact absurd rfl (ho e hm)
  have hown : ((filled tableSchema).bind fun s => enums'.get? (Name.key (some s) w)) = none := by
    rw [filled_eq_self hs.ne_empty]
    cases tableSchema with
    | none => rfl
    | some s =>
      rw [Option.bind_some]
      cases hget : enums'.get? (Name.key (some s) w) with
      | none => rfl
      | some e =>
        obtain ⟨hcanonical, hm⟩ := canonicalEnum_of_get? he heq hget
        obtain ⟨-, rfl⟩ := eq_of_key_eq_key hcanonical.schema hcanonical.name (hs s rfl)
          hcanonical.key
        exact absurd rfl (ho e hm)
  have hsole : soleEnumNamed? enums' w = none := by
    have : enums'.values.filter (fun e => Quote.fold e.name == Quote.fold w) = [] := by
      refine List.filter_eq_nil_iff.2 fun e hm hfold => ?_
      obtain ⟨entry, hentry, rfl⟩ := List.mem_map.1 hm
      obtain ⟨hcanonical, hm⟩ := canonicalEnum_of_get? he heq
        (OrderedMap.get?_eq_some_iff.2 hentry)
      rw [beq_iff_eq, Quote.fold, Quote.fold, hcanonical.name.unquote, hunquote] at hfold
      exact ho _ hm hfold
    rw [soleEnumNamed?, this]
  simp only [resolveEnum?, hbare, hown, hsole]

/-- A column is built from its definition as it was, without flags and comment. -/
theorem CanonicalColumn.buildColumn_definition {c : Column} {tableSchema : Option String}
    (h : CanonicalColumn enums c) (hs : CleanIfAny tableSchema) :
    buildColumn enums' tableSchema (definition options enums c) = bareColumn c := by
  have hdefault : c.defaultText.bind nonBlank = c.defaultText := by
    cases hd : c.defaultText with
    | none => rfl
    | some s => exact nonBlank_of_isRaw (h.default s hd).raw
  rcases h.type with hc | hc
  · obtain ⟨e, hk, hget, hcanonical, htokens⟩ := enumColumn_tokens options hc he
    have hname := plainTypeName_qualifiedTokens
      (PlainName.of_clean hcanonical.name hcanonical.schema)
    have hresolve : resolveEnum? enums' (e.schema, e.name) tableSchema = some e := by
      have : enums'.get? (Name.key e.schema e.name) = some e := (heq _).trans hget
      simp only [resolveEnum?, this]
    simp only [buildColumn, definition, htokens, hname, Option.bind_some, hresolve,
      hcanonical.nonBlank_key, hdefault, bareColumn, hk, h.enumValues, hc.format, hc.category]
    simp
  · obtain ⟨p, hp, -, htokens, hnormal, hlower⟩ := typeTokens_typed options hc
    have hresolve : ((plainTypeName p.tokens).bind fun n => resolveEnum? enums' n tableSchema) =
        none := by
      cases hn : plainTypeName p.tokens with
      | none => rfl
      | some n =>
        obtain ⟨rfl, hw⟩ := plainTypeName_tokens hp hn
        exact resolveEnum?_word he heq hw hs (hlower ▸ hc.other)
    simp only [buildColumn, definition, htokens, hresolve, source_tokens hp, hnormal, hdefault,
      bareColumn, hc.enumName, h.enumValues, hc.category]
    simp

theorem CanonicalTable.restored {key : String} {t : Table} (h : CanonicalTable enums key t) :
    Restored options enums enums' t :=
  { h.toConsistent with
    columns := fun c hc => (h.columns c hc).buildColumn_definition he heq h.schema
    indexes := h.indexNames
    isView := h.isView
    comment := h.comment
    comments := fun c hc => (h.columns c hc).comment }

end

/-! ## The round trip -/

/-- The document of a canonical schema describes a schema with the same enum types whose tables are
    the rebuilt ones. -/
theorem generate_rebuilt {s : Schema} (h : Canonical s) (fallbackType : String) :
    ∃ text, (Ddl.generate { fallbackType } s none).result = .ok text ∧
      ∃ s', (Schema.ofDocument text).result = .ok s' ∧ s'.enums.Equiv s.enums ∧
        ∀ k, s'.tables.get? k =
          (s.tables.get? k).map (rebuilt { fallbackType } s.enums s'.enums) := by
  obtain ⟨text, hgenerate, hread⟩ := readAll_generate (h.plain (isHeading_default fallbackType))
  have hvalues : ∀ e ∈ s.enums.values, e.name ≠ "" ∧ EnumType.repeated? [] e.values = none := by
    intro e he
    obtain ⟨entry, hentry, rfl⟩ := List.mem_map.1 he
    exact ⟨(h.enums entry hentry).name.nonempty, (h.enums entry hentry).values⟩
  obtain ⟨s', hbuilt, henums, htables⟩ := @ofStatements_statements { fallbackType } s
    (fun e he => (h.tables e he).key) (fun e he => (h.enums e he).key) hvalues
  exact ⟨text, hgenerate, s', Schema.result_ofDocument.2 ⟨_, hread, hbuilt⟩, henums, htables⟩

/-- **The round trip.** Generating the document of a canonical schema succeeds, and the schema that
    the document describes has the same outline. -/
theorem ofDocument_generate {s : Schema} (h : Canonical s) (fallbackType : String) :
    ∃ text, (Ddl.generate { fallbackType } s none).result = .ok text ∧
      ∃ s', (Schema.ofDocument text).result = .ok s' ∧ s'.sameOutline s = true := by
  obtain ⟨text, hgenerate, s', hread, henums, htables⟩ := generate_rebuilt h fallbackType
  exact ⟨text, hgenerate, s', hread,
    sameOutline_of_rebuilt henums htables fun e he => (h.tables e he).restored h.enums henums⟩

/-! ### A schema with a part of each kind -/

/-- An enum type with a quote in a value. -/
def exampleEnum : EnumType := { name := "mood", values := ["calm", "it's fine"] }

/-- A table with an enum column, a reference to itself, a condition, an index and comments. -/
def exampleTable : Table :=
  { title := "night shift"
    schema := some "app"
    columns :=
      [{ title := "id", format := "int4", category := "number", required := true,
         primaryKey := true },
        { title := "mood", format := "enum", enumName := some "mood",
          comment := some "how it went; or not" },
        { title := "before", format := "int4", category := "number", defaultText := some "NULL",
          unique := true, foreignKey := some "app.night shift.id" }]
    constraints := [{ kind := .check, name := some "later", expression := some "mood IS NULL" }]
    indexes := [{ name := "by mood", columns := ["mood"], condition := some "mood IS NULL" }]
    comment := some "a -- dash" }

/-- A schema of one enum type and one table. -/
def exampleSchema : Schema :=
  { tables := ⟨[("app.night shift", exampleTable)], by decide⟩
    enums := ⟨[("mood", exampleEnum)], by decide⟩ }

theorem plainText_words {words : List String} (hne : words ≠ []) (hw : ∀ w ∈ words, isWord w = true) :
    PlainText (" ".intercalate words) := by
  obtain ⟨hraw, htokens⟩ := rawTokens_words hne hw
  refine ⟨hraw, ?_⟩
  obtain ⟨w, words, rfl⟩ := List.exists_cons_of_ne_nil hne
  rw [htokens, wordTokens, source, ← String.ofList_toList (s := " ".intercalate (w :: words)),
    ← fullText_wordTokens, wordTokens, fullText_cons]
  rfl

theorem plainFormat_int4 : PlainFormat "int4" :=
  ⟨by decide +kernel, by decide +kernel, ⟨["int4"], [], []⟩,
    ⟨by decide, by decide +kernel, by decide +kernel, nofun, nofun⟩, by decide +kernel⟩

theorem column?_example :
    Name.column? "app.night shift.id" = some ⟨some "app", "night shift", "id"⟩ := by
  decide +kernel

theorem consistent_exampleTable : Consistent exampleTable where
  titles := by decide +kernel
  required := by decide +kernel
  writable := by decide +kernel
  unfolded := by decide +kernel
  known := by decide +kernel
  apart := List.pairwise_singleton _ _
  matched := by
    intro c hc hk
    obtain rfl := List.mem_singleton.1 hc
    cases hk
  keys := by decide +kernel
  uniques := by decide +kernel
  targets := by
    have hnone : ∀ col ∈ exampleTable.columns,
        exampleTable.constraints.filterMap (·.target? col.folded) = [] := by decide +kernel
    intro col hcol text htext
    rw [hnone col hcol] at htext
    cases htext
  references := by
    intro col hcol _ text htext
    simp only [exampleTable, List.mem_cons, List.not_mem_nil, or_false] at hcol
    rcases hcol with rfl | rfl | rfl
    · cases htext
    · cases htext
    · cases htext
      exact ⟨_, column?_example, by decide +kernel⟩

theorem canonicalColumns_exampleTable :
    ∀ c ∈ exampleTable.columns, CanonicalColumn exampleSchema.enums c := by
  have hint : ∀ c : Column, c.enumName = none → c.format = "int4" → c.category = "number" →
      TypedColumn exampleSchema.enums c := by
    intro c hn hf hc
    refine ⟨hn, hf ▸ plainFormat_int4, hf ▸ by decide, ?_, ?_⟩
    · rw [hf]
      decide +kernel
    · rw [hf, hc]
      decide +kernel
  intro c hc
  simp only [exampleTable, List.mem_cons, List.not_mem_nil, or_false] at hc
  rcases hc with rfl | rfl | rfl
  · exact ⟨by decide +kernel, .inr (hint _ rfl rfl rfl), rfl, nofun, nofun⟩
  · exact ⟨by decide +kernel, .inl ⟨⟨"mood", exampleEnum, rfl, rfl⟩, rfl, rfl⟩, rfl, nofun,
      by decide⟩
  · refine ⟨by decide +kernel, .inr (hint _ rfl rfl rfl), rfl, ?_, nofun⟩
    rintro _ ⟨⟩
    have htokens := (@rawTokens_words ["NULL"] (by decide) (by decide)).2
    refine ⟨@plainText_words ["NULL"] (by decide) (by decide), ?_, [], ?_, Enclosed.nil⟩
    · exact htokens ▸ rfl
    · exact htokens ▸ rfl

theorem canonical_exampleSchema : Canonical exampleSchema := by
  have hnull := @rawTokens_words ["mood", "IS", "NULL"] (by decide) (by decide)
  have hnull' : PlainText "mood IS NULL" :=
    @plainText_words ["mood", "IS", "NULL"] (by decide) (by decide)
  have hmood := @rawTokens_words ["mood"] (by decide) (by decide)
  have hmood' : PlainText "mood" := @plainText_words ["mood"] (by decide) (by decide)
  refine ⟨fun e he => ?_, fun e he => ?_⟩
  · obtain rfl := List.mem_singleton.1 he
    exact ⟨by decide +kernel, by decide +kernel, cleanIfAny_none, by decide +kernel⟩
  · obtain rfl := List.mem_singleton.1 he
    refine { consistent_exampleTable with
      key := by decide +kernel
      title := by decide +kernel
      schema := cleanIfAny_some (by decide +kernel)
      columns := canonicalColumns_exampleTable
      constraints := fun c hc => ?_
      referenced := fun c hc _ text r htext hr => ?_
      indexes := fun i hi => ?_
      indexNames := by decide
      isView := rfl
      comment := by decide }
    · obtain rfl := List.mem_singleton.1 hc
      refine ⟨cleanIfAny_some (by decide +kernel), nofun, fun _ => rfl, fun _ => rfl, nofun, nofun, ?_⟩
      rintro _ ⟨⟩
      exact ⟨hnull', hnull.2 ▸ rfl⟩
    · simp only [exampleTable, List.mem_cons, List.not_mem_nil, or_false] at hc
      rcases hc with rfl | rfl | rfl
      · cases htext
      · cases htext
      · cases htext
        obtain rfl : ⟨some "app", "night shift", "id"⟩ = r :=
          Option.some.inj (column?_example.symm.trans hr)
        exact ⟨cleanIfAny_some (by decide +kernel), by decide +kernel, by decide +kernel⟩
    · obtain rfl := List.mem_singleton.1 hi
      refine ⟨by decide +kernel, by decide, fun c hc => ?_, nofun, ?_⟩
      · obtain rfl := List.mem_singleton.1 hc
        exact ⟨hmood', hmood.2 ▸ rfl⟩
      · rintro _ ⟨⟩
        exact ⟨hnull', by decide, hnull.2 ▸ rfl⟩

theorem ofDocument_generate_exampleSchema : Canonical exampleSchema ∧
    ∃ text, (Ddl.generate { fallbackType := "TEXT" } exampleSchema none).result = .ok text ∧
      ∃ s', (Schema.ofDocument text).result = .ok s' ∧ s'.sameOutline exampleSchema = true :=
  ⟨canonical_exampleSchema, ofDocument_generate canonical_exampleSchema "TEXT"⟩

end Schemata.Written
