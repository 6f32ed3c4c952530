/-
  Canonical schemas: those that statements express in full.

  * names are clean: not empty, without points and quotes, and with no blank at an end;
  * a column has an enum type of the schema or a plain format, raw texts are self-contained, and the
    flags of columns agree with the constraints;
  * `Canonical.plain`: such a schema is read as it is written.
-/
import Mathlib.Data.List.TakeWhile
import Schemata.Proofs.Folding
import Schemata.Proofs.Formats
import Schemata.Proofs.Generated

namespace Schemata

/-! ## Clean names -/

/-- A name without points and quotes, and with no blank at an end. -/
structure CleanName (name : String) : Prop where
  nonempty : name ≠ ""
  point : '.' ∉ name.toList
  quote : '"' ∉ name.toList
  strip : Text.strip name = name

instance (name : String) : Decidable (CleanName name) :=
  decidable_of_iff
    (name ≠ "" ∧ '.' ∉ name.toList ∧ '"' ∉ name.toList ∧ Text.strip name = name)
    ⟨fun ⟨h₁, h₂, h₃, h₄⟩ => ⟨h₁, h₂, h₃, h₄⟩, fun ⟨h₁, h₂, h₃, h₄⟩ => ⟨h₁, h₂, h₃, h₄⟩⟩

/-- The name is clean, if there is one. -/
def CleanIfAny (name : Option String) : Prop := ∀ n, name = some n → CleanName n

theorem cleanIfAny_none : CleanIfAny none := nofun

theorem cleanIfAny_some {name : String} (h : CleanName name) : CleanIfAny (some name) := by
  rintro _ ⟨⟩
  exact h

section
variable {name : String} {schema : Option String}

theorem CleanName.trim (h : CleanName name) : Text.trim name.toList = name.toList := by
  have := congrArg String.toList h.strip
  rwa [Text.strip, String.toList_ofList] at this

theorem CleanName.not_quoted (h : CleanName name) : Quote.isQuotedList name.toList = false := by
  rw [Bool.eq_false_iff]
  intro hq
  simp only [Quote.isQuotedList, Bool.and_eq_true, beq_iff_eq] at hq
  exact h.quote (List.mem_of_head? hq.1.2)

theorem CleanName.unquoteList (h : CleanName name) :
    Quote.unquoteList name.toList = name.toList := by
  rw [Quote.unquoteList, h.trim, h.not_quoted]
  rfl

theorem CleanName.unquote (h : CleanName name) : Quote.unquote name = name := by
  rw [Quote.unquote, h.unquoteList, String.ofList_toList]

theorem CleanName.nonempty_list (h : CleanName name) : name.toList ≠ [] := by
  rw [ne_eq, String.toList_eq_nil_iff]
  exact h.nonempty

theorem exists_not_blank_of_trim {cs : List Char} (h : Text.trim cs ≠ []) :
    ∃ c ∈ cs, Text.isBlank c = false := by
  by_contra hall
  have hblank : ∀ c ∈ cs, Text.isBlank c = true := by
    intro c hc
    by_contra hb
    exact hall ⟨c, hc, by simpa using hb⟩
  rw [Text.trim, Text.trimStart, List.dropWhile_eq_nil_iff.2 hblank] at h
  exact h rfl

theorem CleanName.exists_not_blank {name : String} (h : CleanName name) :
    ∃ c ∈ name.toList, Text.isBlank c = false :=
  exists_not_blank_of_trim (h.trim.symm ▸ h.nonempty_list)

theorem CleanIfAny.ne_empty (h : CleanIfAny schema) : schema ≠ some "" :=
  fun he => (h "" he).nonempty rfl

theorem pieces_of_not_mem {cs : List Char} (h : '.' ∉ cs) (inside : Bool) :
    Name.pieces inside cs = [cs] := by
  induction cs generalizing inside with
  | nil => rfl
  | cons c cs ih =>
    rw [List.mem_cons, not_or] at h
    have hc : ¬(c = '.' ∧ (!inside) = true) := fun hc => h.1 hc.1.symm
    rw [Name.pieces, if_neg hc, ih h.2]
    rfl

/-- A clean name stands for itself. -/
theorem CleanName.qualified (h : CleanName name) : Name.qualified name = (none, name) := by
  have hparts : Name.partsList name.toList = [name.toList] := by
    have hne : name.toList.isEmpty = false := List.isEmpty_eq_false_iff.2 h.nonempty_list
    rw [Name.partsList, pieces_of_not_mem h.point, List.map_singleton, h.trim,
      List.filter_cons_of_pos (by rw [hne]; rfl), List.filter_nil, List.map_singleton,
      h.unquoteList]
  rw [Name.qualified, Name.parts, hparts, List.map_singleton, String.ofList_toList]
  rfl

theorem key_eq (h : CleanIfAny schema) (name : String) :
    Name.key schema name = schema.elim name fun s => s ++ "." ++ name := by
  cases schema with
  | none => rfl
  | some s =>
    have : s.isEmpty = false := by simpa using (h s rfl).nonempty
    simp [Name.key, this]

/-- A key without points is the name itself. -/
theorem eq_of_key_eq {w : String} (h : CleanIfAny schema) (hw : '.' ∉ w.toList)
    (hk : Name.key schema name = w) : schema = none ∧ name = w := by
  rw [key_eq h] at hk
  cases schema with
  | none => exact ⟨rfl, hk⟩
  | some s =>
    subst hk
    exact absurd (by simp) hw

/-- A key tells the name within its schema. -/
theorem eq_of_key_eq_key {schema' : Option String} {s w : String} (h : CleanIfAny schema')
    (hn : CleanName name) (hs : CleanName s)
    (hk : Name.key schema' name = Name.key (some s) w) : schema' = some s ∧ name = w := by
  rw [key_eq h, key_eq (cleanIfAny_some hs)] at hk
  have hlist := congrArg String.toList hk
  cases schema' with
  | none =>
    refine absurd ?_ hn.point
    simp only [Option.elim_none, Option.elim_some] at hlist
    rw [hlist]
    simp
  | some s' =>
    simp only [Option.elim_some, String.toList_append, List.append_assoc] at hlist
    have hsplit : s'.toList ++ '.' :: name.toList = s.toList ++ '.' :: w.toList := hlist
    rw [List.append_cons_inj_of_notMem (h s' rfl).point hn.point] at hsplit
    obtain ⟨hs', -, hname⟩ := hsplit
    exact ⟨congrArg some (String.toList_inj.1 hs'), String.toList_inj.1 hname⟩

end

namespace Written

open Token

variable {enums : OrderedMap EnumType} {options : RenderOptions}

theorem PlainName.of_clean {schema : Option String} {name : String} (hn : CleanName name)
    (hs : CleanIfAny schema) : PlainName schema name :=
  ⟨hn.unquote, fun s h => ⟨(hs s h).nonempty, (hs s h).unquote⟩⟩

/-! ## Canonical parts -/

/-- An enum type under its own key, with distinct values. -/
structure CanonicalEnum (key : String) (e : EnumType) : Prop where
  key : e.key = key
  name : CleanName e.name
  schema : CleanIfAny e.schema
  values : EnumType.repeated? [] e.values = none

/-- A column of an enum type. -/
structure EnumColumn (enums : OrderedMap EnumType) (c : Column) : Prop where
  known : ∃ key e, c.enumName = some key ∧ enums.get? key = some e
  format : c.format = "enum"
  category : c.category = Category.string.name

/-- A column of a plain type that is not called like an enum type. -/
structure TypedColumn (enums : OrderedMap EnumType) (c : Column) : Prop where
  enumName : c.enumName = none
  format : PlainFormat c.format
  notEnum : c.format ≠ "enum"
  other : ∀ e ∈ enums.values, Text.lower e.name ≠ c.format
  category : c.category = (TypeText.category c.format).name

/-- A column that its definition expresses in full, but for flags and the comment. -/
structure CanonicalColumn (enums : OrderedMap EnumType) (c : Column) : Prop where
  title : CleanName c.title
  type : EnumColumn enums c ∨ TypedColumn enums c
  enumValues : c.enumValues = none
  default : ∀ s, c.defaultText = some s → PlainDefault s
  comment : c.comment ≠ some ""

/-- The target of a foreign key, with actions as they are written. -/
structure CanonicalReference (r : Reference) : Prop where
  schema : CleanIfAny r.schema
  table : CleanName r.table
  columns : ∀ c ∈ r.columns, CleanName c
  onDelete : ∀ a, r.onDelete = some a → a ∈ actionTexts
  onUpdate : ∀ a, r.onUpdate = some a → a ∈ actionTexts

/-- A constraint with the parts of its kind and no others. -/
structure CanonicalConstraint (c : Constraint) : Prop where
  name : CleanIfAny c.name
  columns : ∀ n ∈ c.columns, CleanName n
  noColumns : c.kind = .check → c.columns = []
  noReference : c.kind ≠ .foreignKey → c.reference = none
  noExpression : c.kind ≠ .check → c.expression = none
  reference : ∀ r, c.reference = some r → CanonicalReference r
  expression : ∀ s, c.expression = some s → PlainText s ∧ Enclosed never (rawTokens s)

/-- An index of a clean name whose texts are self-contained. -/
structure CanonicalIndex (i : Index) : Prop where
  name : CleanName i.name
  columns : i.columns ≠ []
  items : ∀ c ∈ i.columns, PlainItem c
  method : ∀ m, i.method = some m → PlainMethod m
  condition : ∀ w, i.condition = some w → PlainWhere w

/-- A table under its own key whose flags agree with its constraints. -/
structure CanonicalTable (enums : OrderedMap EnumType) (key : String) (t : Table) : Prop
    extends Consistent t where
  key : t.key = key
  title : CleanName t.title
  schema : CleanIfAny t.schema
  columns : ∀ c ∈ t.columns, CanonicalColumn enums c
  constraints : ∀ c ∈ t.constraints, CanonicalConstraint c
  /-- The names in a reference that no constraint repeats are clean. -/
  referenced : ∀ c ∈ t.columns, [c.folded] ∉ t.constrained .foreignKey → ∀ text r,
    c.foreignKey = some text → Name.column? text = some r →
      CleanIfAny r.schema ∧ CleanName r.table ∧ CleanName r.column
  indexes : ∀ i ∈ t.indexes, CanonicalIndex i
  indexNames : (t.indexes.map (·.name)).Nodup
  isView : t.isView = false
  comment : t.comment ≠ some ""

/-- A schema that statements express in full. -/
structure Canonical (s : Schema) : Prop where
  enums : ∀ e ∈ s.enums.entries, CanonicalEnum e.1 e.2
  tables : ∀ e ∈ s.tables.entries, CanonicalTable s.enums e.1 e.2

/-! ## Reading -/

theorem typeTokens_enum {c : Column} {key : String} {e : EnumType} (hk : c.enumName = some key)
    (he : enums.get? key = some e) (hne : key ≠ "") :
    typeTokens options enums c = qualifiedTokens [] e.schema e.name := by
  rw [typeTokens, hk, filled_eq_self fun h => hne (Option.some.inj h)]
  simp only [he]

theorem columnType_typed (options : RenderOptions) {c : Column} (h : TypedColumn enums c) (hne : c.format ≠ "") :
    Ddl.columnType options enums c = TypeText.render c.format := by
  have h₁ : (c.format == "enum") = false := beq_eq_false_iff_ne.2 h.notEnum
  have h₂ : c.format.isEmpty = false := by simpa using hne
  rw [Ddl.columnType, h.enumName]
  simp [filled, h₁, h₂]

theorem PlainFormat.nonempty {format : String} (h : PlainFormat format) : format ≠ "" := by
  rintro rfl
  obtain ⟨p, hp, htext⟩ := h.shape
  have hfull := fullText_tokens p
  rw [htext] at hfull
  obtain ⟨w, words, hwords⟩ := List.exists_cons_of_ne_nil hp.nonempty
  have hw := hp.word w (hwords ▸ List.mem_cons_self)
  rw [Shape.tokens, hwords, wordTokens, List.cons_append, fullText_cons] at hfull
  have : w.toList = [] := (List.append_eq_nil_iff.1 (List.append_eq_nil_iff.1 hfull).2).1
  rw [isWord, this] at hw
  cases hw

/-- The tokens of a plain type. -/
theorem typeTokens_typed (options : RenderOptions) {c : Column} (h : TypedColumn enums c) :
    ∃ p, PlainShape p ∧ p.text = Ddl.columnType options enums c ∧
      typeTokens options enums c = p.tokens ∧ TypeText.normalize p.text = c.format ∧
      Text.lower p.text = c.format := by
  obtain ⟨p, hp, htext, hnormal, hlower⟩ := h.format.written
  rw [← columnType_typed options h h.format.nonempty] at htext
  refine ⟨p, hp, htext, ?_, hnormal, hlower⟩
  rw [typeTokens, h.enumName, ← htext]
  exact (rawTokens_text hp).2

theorem CanonicalEnum.nonempty {key : String} {e : EnumType} (h : CanonicalEnum key e) :
    key ≠ "" := by
  intro hempty
  obtain ⟨-, hname⟩ :=
    eq_of_key_eq h.schema (by decide : '.' ∉ "".toList) (h.key.trans hempty)
  exact h.name.nonempty hname

theorem enumColumn_tokens (options : RenderOptions) {c : Column} (h : EnumColumn enums c)
    (he : ∀ e ∈ enums.entries, CanonicalEnum e.1 e.2) :
    ∃ e, c.enumName = some e.key ∧ enums.get? e.key = some e ∧ CanonicalEnum e.key e ∧
      typeTokens options enums c = qualifiedTokens [] e.schema e.name := by
  obtain ⟨key, e, hk, hget⟩ := h.known
  have hcanonical := he (key, e) (OrderedMap.get?_eq_some_iff.1 hget)
  obtain rfl : e.key = key := hcanonical.key
  exact ⟨e, hk, hget, hcanonical, typeTokens_enum hk hget hcanonical.nonempty⟩

theorem CanonicalColumn.plain {c : Column} (h : CanonicalColumn enums c)
    (he : ∀ e ∈ enums.entries, CanonicalEnum e.1 e.2) : PlainColumn options enums c := by
  have htype : (filled c.enumName = none → IsRaw (Ddl.columnType options enums c)) ∧
      Enclosed (isPunct ',') (typeTokens options enums c) ∧
      Enclosed startsClause (typeTokens options enums c) := by
    rcases h.type with hc | hc
    · obtain ⟨e, hk, -, hcanonical, htokens⟩ := enumColumn_tokens options hc he
      rw [htokens]
      refine ⟨fun hnone => ?_, enclosed_names (fun _ _ => rfl) rfl _,
        enclosed_names (fun _ _ => rfl) rfl _⟩
      rw [hk, filled_eq_self fun hempty => hcanonical.nonempty (Option.some.inj hempty)] at hnone
      cases hnone
    · obtain ⟨p, hp, htext, htokens, -, -⟩ := typeTokens_typed options hc
      rw [htokens, ← htext]
      exact ⟨fun _ => (rawTokens_text hp).1, PlainShape.comma, hp.noClause⟩
  exact ⟨htype.1, h.title.unquote, htype.2.1, htype.2.2, h.default⟩

theorem CanonicalReference.plain {r : Reference} (h : CanonicalReference r) (hne : r.columns ≠ []) :
    PlainReference r :=
  ⟨PlainName.of_clean h.table h.schema, ⟨hne, fun c hc => (h.columns c hc).unquote⟩, h.onDelete,
    h.onUpdate⟩

theorem CanonicalConstraint.plain {c : Constraint} (h : CanonicalConstraint c)
    (hw : Table.isWritable c = true) (hm : c.kind = .foreignKey → ∀ r, c.reference = some r →
      r.columns.length = c.columns.length) : PlainConstraint c := by
  refine ⟨fun n hn => ⟨(h.name n hn).nonempty, (h.name n hn).unquote⟩, ?_⟩
  have hnames (hne : c.columns ≠ []) : PlainNames c.columns :=
    ⟨hne, fun n hn => (h.columns n hn).unquote⟩
  unfold Table.isWritable at hw
  unfold PlainBody
  cases hk : c.kind with
  | primaryKey =>
    rw [hk] at hw
    exact ⟨hnames (by simpa using hw), h.noReference (by simp [hk]), h.noExpression (by simp [hk])⟩
  | unique =>
    rw [hk] at hw
    exact ⟨hnames (by simpa using hw), h.noReference (by simp [hk]), h.noExpression (by simp [hk])⟩
  | check =>
    rw [hk] at hw
    obtain ⟨s, hs⟩ := Option.isSome_iff_exists.1 hw
    obtain ⟨hs, -⟩ := Option.filter_eq_some_iff.1 hs
    obtain ⟨hplain, hin⟩ := h.expression s hs
    exact ⟨h.noColumns hk, h.noReference (by simp [hk]), s, hs, hplain, hin⟩
  | foreignKey =>
    rw [hk] at hw
    simp only [Bool.and_eq_true, Option.any_eq_true, Bool.not_eq_true',
      List.isEmpty_eq_false_iff] at hw
    obtain ⟨hne, r, hr, hrne⟩ := hw
    exact ⟨hnames hne, h.noExpression (by simp [hk]), r, hr, (h.reference r hr).plain hrne,
      hm hk r hr⟩

theorem CanonicalIndex.plain {i : Index} (h : CanonicalIndex i) : PlainIndex i :=
  ⟨h.name.nonempty, h.name.unquote, h.columns, h.items, h.method, h.condition⟩

/-- The constraints that a table is written with are read as they are written if its own ones and the
    names in its flags are. -/
theorem plainConstraint_of_mem_allConstraints {t : Table} (h : Consistent t)
    (htitles : ∀ col ∈ t.columns, Quote.unquote col.title = col.title)
    (hown : ∀ c ∈ t.constraints, PlainConstraint c)
    (hreferenced : ∀ col ∈ t.columns, [col.folded] ∉ t.constrained .foreignKey → ∀ text r,
      col.foreignKey = some text → Name.column? text = some r →
        PlainName r.schema r.table ∧ Quote.unquote r.column = r.column)
    {c : Constraint} (hc : c ∈ t.allConstraints) : PlainConstraint c := by
  rw [Table.allConstraints_eq h.writable, (Constraint.byKind_perm _).mem_iff] at hc
  rcases List.mem_append.1 hc with hc | hc
  · exact hown c hc
  · obtain hc | ⟨col, hcol, hc | hc⟩ := Table.mem_impliedConstraints.1 hc
    · obtain ⟨-, hne, rfl⟩ := Table.mem_impliedKey.1 hc
      refine ⟨nofun, ⟨hne, fun n hn => ?_⟩, rfl, rfl⟩
      obtain ⟨col, hcol, rfl⟩ := List.mem_map.1 hn
      exact htitles col (List.mem_filter.1 hcol).1
    · obtain ⟨text, r, hfilled, hown, hr, rfl⟩ := Table.mem_impliedForeignKey.1 hc
      obtain ⟨htext, -⟩ := Option.filter_eq_some_iff.1 hfilled
      obtain ⟨hname, hn⟩ := hreferenced col hcol hown text r htext hr
      refine ⟨nofun, ⟨List.cons_ne_nil _ _, by simpa using htitles col hcol⟩, rfl, _, rfl, ?_, rfl⟩
      exact ⟨hname, ⟨List.cons_ne_nil _ _, by simpa using hn⟩, nofun, nofun⟩
    · obtain ⟨-, -, rfl⟩ := Table.mem_impliedUnique.1 hc
      exact ⟨nofun, ⟨List.cons_ne_nil _ _, by simpa using htitles col hcol⟩, rfl, rfl⟩

section
variable {key : String} {t : Table} (h : CanonicalTable enums key t)
include h

theorem CanonicalTable.plainTable : PlainTable key t := by
  refine ⟨?_, PlainName.of_clean h.title h.schema⟩
  have htitle : t.title.isEmpty = false := by simpa using h.title.nonempty
  rw [Ddl.identity, filled_eq_self h.schema.ne_empty]
  cases hs : t.schema with
  | some s => simp [htitle]
  | none =>
    have hkey : key = t.title := by rw [← h.key, Table.key, hs]; rfl
    simp [hkey, h.title.qualified, htitle]

/-- All constraints that the table is written with are read as they are written. -/
theorem CanonicalTable.plainConstraints : ∀ c ∈ t.allConstraints, PlainConstraint c := by
  refine fun c hc => plainConstraint_of_mem_allConstraints h.toConsistent
    (fun col hcol => (h.columns col hcol).title.unquote)
    (fun d hd => (h.constraints d hd).plain (h.writable d hd) (h.matched d hd)) ?_ hc
  intro col hcol hown text r htext hr
  obtain ⟨hs, ht, hn⟩ := h.referenced col hcol hown text r htext hr
  exact ⟨PlainName.of_clean ht hs, hn.unquote⟩

theorem CanonicalTable.plainParts (he : ∀ e ∈ enums.entries, CanonicalEnum e.1 e.2) :
    PlainTableParts options enums key t :=
  { h.plainTable with
    columns := fun c hc => (h.columns c hc).plain he
    titles := h.titles
    constraints := h.plainConstraints
    indexes := fun i hi => (h.indexes i hi).plain }

end

/-- Columns without values of their own define no enum types. -/
theorem foldlM_addColumnEnum {l : List Column} (h : ∀ c ∈ l, c.enumValues = none) :
    l.foldlM Ddl.addColumnEnum enums = .ok enums := by
  induction l with
  | nil => rfl
  | cons c l ih =>
    have hone : Ddl.addColumnEnum enums c = .ok enums := by
      rw [Ddl.addColumnEnum, h c List.mem_cons_self]
      cases filled c.enumName <;> rfl
    rw [List.foldlM_cons, hone]
    exact ih fun d hd => h d (List.mem_cons_of_mem c hd)

/-- A canonical schema is read as it is written. -/
theorem Canonical.plain {s : Schema} (h : Canonical s)
    (hh : ∀ heading ∈ headings options, IsHeading heading) : Plain options s := by
  refine ⟨hh, foldlM_addColumnEnum fun c hc => ?_, fun e he => ?_, fun e he =>
    (h.tables e he).plainParts h.enums⟩
  · obtain ⟨t, ht, hc⟩ := List.mem_flatMap.1 hc
    obtain ⟨e, he, rfl⟩ := List.mem_map.1 ht
    exact ((h.tables e he).columns c hc).enumValues
  · obtain ⟨entry, hentry, rfl⟩ := List.mem_map.1 he
    have henum := h.enums entry hentry
    exact ⟨PlainName.of_clean henum.name henum.schema, henum.values⟩

end Written

end Schemata
