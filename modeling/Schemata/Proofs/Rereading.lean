/-
  Writing what was read.

  * `Stable` collects what reading does not see to by itself: names that quoting does not change,
    types whose capitals are read as the type again, balanced defaults, no empty texts, and flags
    that agree with the constraints beside them;
  * `consistent_of_parsed`, `plainColumn_of_parsed` and their companions: with that, what was read is
    read again as it is written;
  * `ofDocument_generate_ofDocument`: the document that is generated from a stable schema that was
    read describes a schema of the same outline;
  * `not_sameOutline_generate`: without such conditions it need not.
-/
import Schemata.Proofs.ParsedSchemas
import Schemata.Proofs.Rearranging
import Schemata.Proofs.RoundTrip

namespace Schemata.Written

open Token Log Schema Statement

variable {enums enums' : OrderedMap EnumType} {options : RenderOptions} {key : String}
  {t : Table} {c : Column}

/-! ## Stable parts -/

/-- The written form of a type is read as the type again, and not as an enum type. -/
structure StableType (enums : OrderedMap EnumType) (schema : Option String) (format : String) :
    Prop where
  notEnum : format ≠ "enum"
  raw : IsRaw (TypeText.render format)
  item : Enclosed (isPunct ',') (rawTokens (TypeText.render format))
  clause : Enclosed startsClause (rawTokens (TypeText.render format))
  normal : TypeText.normalize (source (rawTokens (TypeText.render format))) = format
  unresolved : ((plainTypeName (rawTokens (TypeText.render format))).bind fun n =>
    resolveEnum? enums n schema) = none

/-- The title is plain, a type of its own is stable, and the default ends before a comma. -/
structure StableColumn (enums : OrderedMap EnumType) (schema : Option String) (c : Column) :
    Prop where
  title : Quote.unquote c.title = c.title
  type : c.enumName = none → StableType enums schema c.format
  default : ∀ s, c.defaultText = some s → Enclosed (isPunct ',') (rawTokens s)
  comment : c.comment ≠ some ""

/-- All names are plain, and a condition is not empty. -/
structure StableConstraint (c : Constraint) : Prop where
  name : ∀ n, c.name = some n → n ≠ "" ∧ Quote.unquote n = n
  columns : ∀ n ∈ c.columns, Quote.unquote n = n
  reference : ∀ r, c.reference = some r →
    PlainName r.schema r.table ∧ ∀ n ∈ r.columns, Quote.unquote n = n
  expression : c.expression ≠ some ""

/-- The name is plain, the access method is a word, and the condition ends with its statement. -/
structure StableIndex (i : Index) : Prop where
  name : Quote.unquote i.name = i.name
  method : ∀ m, i.method = some m → PlainMethod m
  condition : ∀ w, i.condition = some w →
    w ≠ "" ∧ clampedLevel (isPunct ';') 0 (rawTokens w) = some 0

/-- The parts of the table are stable, and its flags agree with the constraints that stand for
    them. -/
structure StableTable (enums : OrderedMap EnumType) (key : String) (t : Table) : Prop
    extends PlainTable key t where
  columns : ∀ c ∈ t.columns, StableColumn enums t.schema c
  constraints : ∀ c ∈ t.constraints, StableConstraint c
  indexes : ∀ i ∈ t.indexes, StableIndex i
  comment : t.comment ≠ some ""
  /-- Primary keys, if there are any, cover all key columns. -/
  keys : t.constraintsOf .primaryKey ≠ [] → ∀ col ∈ t.columns, col.primaryKey = true →
    t.constraints.any (·.coversKey col.folded) = true
  /-- The last foreign key on a single column gives its target. -/
  targets : ∀ col ∈ t.columns, ∀ text,
    (t.constraints.filterMap (·.target? col.folded)).getLast? = some text →
      col.foreignKey = some text
  /-- Any other target is the text of a column with plain names. -/
  references : ∀ col ∈ t.columns, [col.folded] ∉ t.constrained .foreignKey → ∀ text,
    col.foreignKey = some text → ∃ r, Name.column? text = some r ∧
      Name.columnText r.schema r.table r.column = text ∧ PlainName r.schema r.table ∧
      Quote.unquote r.column = r.column

/-- All enum types have plain names, and all tables are stable. -/
structure Stable (s : Schema) : Prop where
  enums : ∀ e ∈ s.enums.values, PlainName e.schema e.name
  tables : ∀ e ∈ s.tables.entries, StableTable s.enums e.1 e.2

/-- A type that is made of words, numbers and brackets is stable if no enum type is called like
    it. -/
theorem StableType.of_plainFormat {format : String} {schema : Option String}
    (h : PlainFormat format) (hne : format ≠ "enum")
    (hunresolved : ((plainTypeName (rawTokens (TypeText.render format))).bind fun n =>
      resolveEnum? enums n schema) = none) : StableType enums schema format := by
  obtain ⟨p, hp, htext, hnormal, -⟩ := h.written
  rw [← htext] at hunresolved
  refine ⟨hne, ?_, ?_, ?_, ?_, htext ▸ hunresolved⟩ <;> rw [← htext]
  · exact (rawTokens_text hp).1
  · rw [(rawTokens_text hp).2]
    exact PlainShape.comma
  · rw [(rawTokens_text hp).2]
    exact hp.noClause
  · rw [(rawTokens_text hp).2, source_tokens hp, hnormal]

/-! ## Parts of tables -/

theorem plainConstraint_of_parsed {c : Constraint} (hp : ParsedConstraint c)
    (h : StableConstraint c) : PlainConstraint c := by
  refine ⟨h.name, ?_⟩
  unfold PlainBody
  cases hk : c.kind with
  | primaryKey =>
    exact ⟨⟨hp.columns (by simp [hk]), h.columns⟩, hp.noReference (by simp [hk]),
      hp.noExpression (by simp [hk])⟩
  | unique =>
    exact ⟨⟨hp.columns (by simp [hk]), h.columns⟩, hp.noReference (by simp [hk]),
      hp.noExpression (by simp [hk])⟩
  | check =>
    obtain ⟨s, hs, hcondition⟩ := hp.expression hk
    have hne : s ≠ "" := fun he => h.expression (he ▸ hs)
    exact ⟨hp.noColumns hk, hp.noReference (by simp [hk]), s, hs, hcondition hne⟩
  | foreignKey =>
    have hne := hp.columns (by simp [hk])
    obtain ⟨r, hr, hactions, hlength⟩ := hp.reference hk
    obtain ⟨hname, hcolumns⟩ := h.reference r hr
    refine ⟨⟨hne, h.columns⟩, hp.noExpression (by simp [hk]), r, hr,
      ⟨hname, ⟨?_, hcolumns⟩, hactions.onDelete, hactions.onUpdate⟩, hlength⟩
    intro hnil
    rw [hnil] at hlength
    exact hne (List.length_eq_zero_iff.1 hlength.symm)

/-- A constraint that is read as it is written says something. -/
theorem PlainConstraint.isWritable {c : Constraint} (h : PlainConstraint c) :
    Table.isWritable c = true := by
  have hbody := h.body
  unfold PlainBody at hbody
  unfold Table.isWritable
  cases hk : c.kind with
  | primaryKey =>
    rw [hk] at hbody
    simpa using hbody.1.nonempty
  | unique =>
    rw [hk] at hbody
    simpa using hbody.1.nonempty
  | check =>
    rw [hk] at hbody
    obtain ⟨-, -, s, hs, hplain, -⟩ := hbody
    have hne : s ≠ "" := by
      rintro rfl
      exact absurd (nonBlank_of_isRaw hplain.raw) (by decide)
    simp [hs, filled, hne]
  | foreignKey =>
    rw [hk] at hbody
    obtain ⟨hcolumns, -, r, hr, hreference, -⟩ := hbody
    simp [hr, hcolumns.nonempty, hreference.columns.nonempty]

theorem plainIndex_of_parsed {i : Index} (hp : ParsedIndex i) (h : StableIndex i) :
    PlainIndex i := by
  refine ⟨hp.name, h.name, hp.columns, hp.items, h.method, fun w hw => ?_⟩
  obtain ⟨hne, hclosed⟩ := h.condition w hw
  exact ⟨hp.condition w hw hne, hne, hclosed⟩

/-- The flags of a stable table that was read agree with its constraints. -/
theorem consistent_of_parsed (hp : ParsedTable enums t) (h : StableTable enums key t) :
    Consistent t where
  titles := hp.titles
  required := fun col hcol => (hp.columns col hcol).required
  writable := fun c hc =>
    (plainConstraint_of_parsed (hp.constraints c hc) (h.constraints c hc)).isWritable
  unfolded := hp.unfolded
  known := hp.known
  apart := hp.apart
  matched := by
    intro c hc hk r hr
    obtain ⟨r', hr', -, hlength⟩ := (hp.constraints c hc).reference hk
    rw [hr] at hr'
    cases hr'
    exact hlength
  keys := by
    intro hne col hcol
    refine Bool.eq_iff_iff.2 ⟨fun hany => ?_, h.keys hne col hcol⟩
    obtain ⟨c, hc, hcovers⟩ := List.any_eq_true.1 hany
    exact hp.keys c hc col hcol hcovers
  uniques := hp.uniques
  targets := h.targets
  references := by
    intro col hcol hown text htext
    obtain ⟨r, hr, htext, -⟩ := h.references col hcol hown text htext
    exact ⟨r, hr, htext⟩

/-! ## Columns -/

/-- A plain name that is not empty has a character that is no blank. -/
theorem nonBlank_of_unquote {name : String} (h : Quote.unquote name = name) (hne : name ≠ "") :
    ∃ c ∈ name.toList, Text.isBlank c = false := by
  refine exists_not_blank_of_trim fun htrim => ?_
  have hempty : Quote.unquote name = "" := by
    rw [Quote.unquote, Quote.unquoteList, htrim]
    rfl
  exact hne (h.symm.trans hempty)

theorem PlainName.nonBlank_key {schema : Option String} {name : String} (h : PlainName schema name)
    (hne : name ≠ "") : nonBlank (Name.key schema name) = some (Name.key schema name) := by
  obtain ⟨c, hc, hb⟩ := nonBlank_of_unquote h.name hne
  refine nonBlank_eq ?_ hb
  unfold Name.key
  cases schema with
  | none => exact hc
  | some s =>
    dsimp only
    split
    · exact hc
    · rw [String.toList_append]
      exact List.mem_append_right _ hc

theorem plainDefault_of_parsed {s : String} (hp : ParsedDefault s)
    (h : Enclosed (isPunct ',') (rawTokens s)) : PlainDefault s :=
  ⟨hp.toPlainText, h, hp.element h.never⟩

theorem StableType.nonempty {schema : Option String} {format : String}
    (h : StableType enums schema format) : format ≠ "" := by
  rintro rfl
  exact absurd (nonBlank_of_isRaw h.raw) (by decide)

theorem StableType.columnType {schema : Option String} (options : RenderOptions)
    (h : StableType enums schema c.format) (hname : c.enumName = none) :
    Ddl.columnType options enums c = TypeText.render c.format := by
  have henum : (c.format == "enum") = false := beq_eq_false_iff_ne.2 h.notEnum
  have hne : c.format.isEmpty = false := by simpa using h.nonempty
  rw [Ddl.columnType, hname]
  simp [filled, henum, hne]

theorem StableType.typeTokens {schema : Option String} (options : RenderOptions)
    (h : StableType enums schema c.format) (hname : c.enumName = none) :
    typeTokens options enums c = rawTokens (TypeText.render c.format) := by
  rw [Written.typeTokens, hname, ← h.columnType options hname]
  rfl

section
variable (hvalid : ∀ k e, enums.get? k = some e → k = e.key ∧ e.Valid)
  (hnames : ∀ e ∈ enums.values, PlainName e.schema e.name)
include hvalid hnames

/-- A column that was read has a known enum type of a plain name, or a stable type. -/
theorem type_of_parsed {schema : Option String} (hp : ParsedColumn enums c)
    (h : StableColumn enums schema c) :
    (∃ e, c.enumName = some e.key ∧ enums.get? e.key = some e ∧ e.key ≠ "" ∧
      PlainName e.schema e.name ∧ c.format = "enum" ∧ c.category = Category.string.name) ∨
    (c.enumName = none ∧ StableType enums schema c.format ∧
      c.category = (TypeText.category c.format).name) := by
  rcases hp.type with ⟨key, e, hget, hname, hformat, hcategory⟩ | ⟨hname, hcategory⟩
  · obtain ⟨rfl, hne, -⟩ := hvalid key e hget
    have hplain := hnames e (List.mem_map.2 ⟨_, OrderedMap.get?_eq_some_iff.1 hget, rfl⟩)
    have hkey := hplain.nonBlank_key hne
    refine .inl ⟨e, hname.trans hkey, hget, ?_, hplain, hformat, hcategory⟩
    intro hempty
    have hblank : nonBlank "" = some "" := by rwa [← hempty]
    exact absurd hblank (by decide)
  · exact .inr ⟨hname, h.type hname, hcategory⟩

/-- A column that was read is read again as it is written. -/
theorem plainColumn_of_parsed {schema : Option String} (hp : ParsedColumn enums c)
    (h : StableColumn enums schema c) : PlainColumn options enums c := by
  have hdefault : ∀ s, c.defaultText = some s → PlainDefault s := fun s hs =>
    plainDefault_of_parsed (hp.default s hs) (h.default s hs)
  obtain ⟨e, hname, hget, hne, -⟩ | ⟨hname, htype, -⟩ := type_of_parsed hvalid hnames hp h
  · have htokens : typeTokens options enums c = qualifiedTokens [] e.schema e.name :=
      typeTokens_enum hname hget hne
    refine ⟨fun hnone => ?_, h.title, ?_, ?_, hdefault⟩
    · rw [hname, filled_eq_self fun hempty => hne (Option.some.inj hempty)] at hnone
      cases hnone
    · rw [htokens]
      exact enclosed_names (fun _ _ => rfl) rfl _
    · rw [htokens]
      exact enclosed_names (fun _ _ => rfl) rfl _
  · have htext := htype.columnType options hname
    have htokens := htype.typeTokens options hname
    refine ⟨fun _ => htext ▸ htype.raw, h.title, ?_, ?_, hdefault⟩
    · rw [htokens]
      exact htype.item
    · rw [htokens]
      exact htype.clause

/-- It is built from its definition as it was, without flags and comment. -/
theorem buildColumn_of_parsed {schema : Option String} (heq : enums'.Equiv enums)
    (hp : ParsedColumn enums c) (h : StableColumn enums schema c) :
    buildColumn enums' schema (definition options enums c) = bareColumn c := by
  have hdefault : c.defaultText.bind nonBlank = c.defaultText := by
    cases hd : c.defaultText with
    | none => rfl
    | some s => exact nonBlank_of_isRaw (hp.default s hd).raw
  rw [buildColumn_congr heq]
  obtain ⟨e, hname, hget, hne, hplain, hformat, hcategory⟩ | ⟨hname, htype, hcategory⟩ :=
    type_of_parsed hvalid hnames hp h
  · have hresolve : resolveEnum? enums (e.schema, e.name) schema = some e := by
      have : enums.get? (Name.key e.schema e.name) = some e := hget
      simp only [resolveEnum?, this]
    have hkey : nonBlank e.key = some e.key := hplain.nonBlank_key (hvalid _ _ hget).2.1
    simp only [buildColumn, definition, typeTokens_enum hname hget hne,
      plainTypeName_qualifiedTokens hplain, Option.bind_some, hresolve, hkey, hdefault, bareColumn,
      hname, hp.enumValues, hformat, hcategory]
    simp
  · simp only [buildColumn, definition, htype.typeTokens options hname, htype.unresolved, htype.normal,
      hdefault, bareColumn, hname, hp.enumValues, hcategory]
    simp

/-! ## Schemas -/

/-- All parts of a stable table that was read are read again as they are written. -/
theorem plainTableParts_of_parsed (hp : ParsedTable enums t) (h : StableTable enums key t) :
    PlainTableParts options enums key t := by
  have hcolumn : ∀ col ∈ t.columns, PlainColumn options enums col := fun col hcol =>
    plainColumn_of_parsed hvalid hnames (hp.columns col hcol) (h.columns col hcol)
  refine ⟨h.toPlainTable, hcolumn, hp.titles, fun c hc => ?_, fun i hi =>
    plainIndex_of_parsed (hp.indexes i hi) (h.indexes i hi)⟩
  refine plainConstraint_of_mem_allConstraints (consistent_of_parsed hp h)
    (fun col hcol => (h.columns col hcol).title)
    (fun d hd => plainConstraint_of_parsed (hp.constraints d hd) (h.constraints d hd)) ?_ hc
  intro col hcol hown text r htext hr
  obtain ⟨r', hr', -, hplain⟩ := h.references col hcol hown text htext
  rw [hr] at hr'
  cases hr'
  exact hplain

theorem restored_of_parsed (heq : enums'.Equiv enums) (hp : ParsedTable enums t)
    (h : StableTable enums key t) : Restored options enums enums' t :=
  { consistent_of_parsed hp h with
    columns := fun col hcol => buildColumn_of_parsed hvalid hnames heq (hp.columns col hcol)
      (h.columns col hcol)
    indexes := hp.indexNames
    isView := hp.isView
    comment := h.comment
    comments := fun col hcol => (h.columns col hcol).comment }

end

theorem plain_of_parsed {s : Schema} (hp : ParsedSchema s) (h : Stable s)
    (hh : ∀ heading ∈ headings options, IsHeading heading) : Plain options s := by
  have htable {e : String × Table} (he : e ∈ s.tables.entries) : ParsedTable s.enums e.2 :=
    (hp.tables e.1 e.2 (OrderedMap.get?_eq_some_iff.2 he)).2
  refine ⟨hh, foldlM_addColumnEnum fun c hc => ?_, fun e he => ⟨h.enums e he, ?_⟩, fun e he =>
    plainTableParts_of_parsed hp.enums h.enums (htable he) (h.tables e he)⟩
  · obtain ⟨t, ht, hc⟩ := List.mem_flatMap.1 hc
    obtain ⟨e, he, rfl⟩ := List.mem_map.1 ht
    exact ((htable he).columns c hc).enumValues
  · obtain ⟨entry, hentry, rfl⟩ := List.mem_map.1 he
    exact (hp.enums entry.1 entry.2 (OrderedMap.get?_eq_some_iff.2 hentry)).2.2

/-- **Reading, writing and reading again.** The document that is generated from a stable schema that
    was read describes a schema of the same outline. -/
theorem ofDocument_generate_ofDocument {document : String} {s : Schema}
    (hread : (Schema.ofDocument document).result = .ok s) (h : Stable s) (fallbackType : String) :
    ∃ text, (Ddl.generate { fallbackType } s none).result = .ok text ∧
      ∃ s', (Schema.ofDocument text).result = .ok s' ∧ s'.sameOutline s = true := by
  have hp := parsedSchema_ofDocument hread
  have hentry {α : Type} {m : OrderedMap α} {e : String × α} (he : e ∈ m.entries) :
      m.get? e.1 = some e.2 := OrderedMap.get?_eq_some_iff.2 he
  obtain ⟨text, hgenerate, hreadAll⟩ :=
    readAll_generate (plain_of_parsed hp h (isHeading_default fallbackType))
  have hvalues : ∀ e ∈ s.enums.values, e.Valid := by
    intro e he
    obtain ⟨entry, hm, rfl⟩ := List.mem_map.1 he
    exact (hp.enums _ _ (hentry hm)).2
  obtain ⟨s', hbuilt, henums, htables⟩ := @ofStatements_statements { fallbackType } s
    (fun e he => (hp.tables _ _ (hentry he)).1.symm) (fun e he => (hp.enums _ _ (hentry he)).1.symm)
    hvalues
  refine ⟨text, hgenerate, s', ?_, ?_⟩
  · rw [Schema.ofDocument, Action.result_within, Action.result_bind, hreadAll, Except.bind,
      Action.result_bind, hbuilt]
    rfl
  · exact sameOutline_of_rebuilt henums htables fun e he =>
      restored_of_parsed hp.enums h.enums henums (hp.tables _ _ (hentry he)).2 (h.tables e he)

/-- A document with a reference, a default, a condition and a comment. -/
def rereadDocument : String :=
  "CREATE TABLE t (a int PRIMARY KEY, b int DEFAULT 0 REFERENCES t (a), CHECK (b > 0));
COMMENT ON TABLE t IS 'x';"

/-- The table of that document. -/
def rereadTable : Table :=
  { title := "t"
    columns :=
      [{ title := "a", format := "int4", category := "number", required := true,
         primaryKey := true },
        { title := "b", format := "int4", category := "number", defaultText := some "0",
          foreignKey := some "t.a" }]
    constraints := [{ kind := .check, expression := some "b > 0" }]
    comment := some "x" }

theorem ofDocument_rereadDocument : (Schema.ofDocument rereadDocument).result =
    .ok { tables := ⟨[("t", rereadTable)], by decide⟩ } := by
  decide +kernel

theorem stableTable_rereadTable : StableTable {} "t" rereadTable where
  identity := by decide +kernel
  name := ⟨by decide +kernel, nofun⟩
  columns := by
    have htype : StableType {} none "int4" :=
      .of_plainFormat plainFormat_int4 (by decide) (by decide +kernel)
    intro c hc
    rcases List.mem_cons.1 hc with rfl | hc
    · exact ⟨by decide +kernel, fun _ => htype, nofun, nofun⟩
    · obtain rfl := List.mem_singleton.1 hc
      refine ⟨by decide +kernel, fun _ => htype, ?_, nofun⟩
      rintro _ ⟨⟩
      show level (isPunct ',') 0 (rawTokens "0") = some 0
      decide +kernel
  constraints := by
    intro c hc
    obtain rfl := List.mem_singleton.1 hc
    exact ⟨nofun, nofun, nofun, by decide⟩
  indexes := nofun
  comment := by decide
  keys := fun h => absurd rfl h
  targets := by
    intro col _ text ht
    have hnone : rereadTable.constraints.filterMap (·.target? col.folded) = [] := rfl
    rw [hnone] at ht
    cases ht
  references := by
    intro col hcol _ text htext
    rcases List.mem_cons.1 hcol with rfl | hcol
    · cases htext
    · obtain rfl := List.mem_singleton.1 hcol
      cases htext
      exact ⟨⟨none, "t", "a"⟩, by decide +kernel, by decide +kernel, ⟨by decide +kernel, nofun⟩,
        by decide +kernel⟩

theorem ofDocument_generate_rereadDocument :
    ∃ s, (Schema.ofDocument rereadDocument).result = .ok s ∧ Stable s ∧
      ∃ text, (Ddl.generate { fallbackType := "TEXT" } s none).result = .ok text ∧
        ∃ s', (Schema.ofDocument text).result = .ok s' ∧ s'.sameOutline s = true := by
  have hstable : Stable { tables := ⟨[("t", rereadTable)], by decide⟩ } := by
    refine ⟨nofun, fun e he => ?_⟩
    obtain rfl := List.mem_singleton.1 he
    exact stableTable_rereadTable
  exact ⟨_, ofDocument_rereadDocument, hstable,
    ofDocument_generate_ofDocument ofDocument_rereadDocument hstable "TEXT"⟩

/-! ### A schema that is not stable -/

/-- A table with a key column, and a named key on another one. -/
def twoKeysDocument : String :=
  "CREATE TABLE t (a int PRIMARY KEY, b int, CONSTRAINT k PRIMARY KEY (b));"

/-- Whether a document, once read and written, is read as a schema of the same outline. -/
def keepsOutline (document : String) : Option Bool := do
  let s ← (Schema.ofDocument document).result.toOption
  let text ← (Ddl.generate { fallbackType := "TEXT" } s none).result.toOption
  let s' ← (Schema.ofDocument text).result.toOption
  return s'.sameOutline s

/-- A named key stands for all key columns when a table is written, so another key column is lost:
    not every schema that was read is read again as it was. -/
theorem not_sameOutline_generate :
    ¬ ∀ document s, (Schema.ofDocument document).result = .ok s →
      ∃ text, (Ddl.generate { fallbackType := "TEXT" } s none).result = .ok text ∧
        ∃ s', (Schema.ofDocument text).result = .ok s' ∧ s'.sameOutline s = true := by
  intro hall
  have hlost : keepsOutline twoKeysDocument = some false := by decide +kernel
  cases hread : (Schema.ofDocument twoKeysDocument).result with
  | error e => simp [keepsOutline, hread, Except.toOption] at hlost
  | ok s =>
    obtain ⟨text, hgenerate, s', hreread, hsame⟩ := hall twoKeysDocument s hread
    simp [keepsOutline, hread, hgenerate, hreread, hsame, Except.toOption] at hlost

end Schemata.Written
