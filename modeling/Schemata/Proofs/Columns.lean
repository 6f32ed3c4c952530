/-
  Written tables say what they were written from.

  * `definition` is the column definition that a written column is read as;
  * `PlainColumn`: the type ends where a clause of the column starts, and the default ends with the
    column;
  * `says_createTable`: a written table is read as a table with the definitions of its columns.
-/
import Schemata.Proofs.Statements
import Schemata.Proofs.Taken

namespace Schemata.Written

open Token Cursor Log Statement

variable {ts us rest : List Token} {lay : List Char}
variable {options : RenderOptions} {enums : OrderedMap EnumType}

/-! ## Clauses -/

/-- A token that starts a clause of a column. -/
def startsClause (t : Token) : Bool := t.isKeywordOf clauseKeywords

theorem blind_startsClause : Blind startsClause := fun _ _ _ _ => rfl

theorem startsClause_kind {t : Token} (h : startsClause t = true) : t.kind ≠ .punct := by
  obtain ⟨w, -, hw⟩ := List.any_eq_true.1 h
  intro hk
  simp [isKeyword, hk] at hw

/-- A default is read as it is written: after its first element comes no clause. -/
structure PlainDefault (s : String) : Prop extends PlainText s where
  enclosed : Enclosed (isPunct ',') (rawTokens s)
  element : ∃ rest, skipElement (rawTokens s) = .ok rest ∧ Enclosed startsClause rest

theorem skipElement_indent (lay : List Char) (ts : List Token) :
    skipElement (indent lay ts) = skipElement ts := by
  cases ts <;> rfl

theorem spanElements_enclosed (rest : List Token) (h : Enclosed startsClause ts)
    (hr : spanElementsFrom startsClause 0 rest = some ([], rest)) :
    spanElements startsClause (ts ++ rest) = .ok (ts, rest) := by
  rw [spanElements, spanElementsFrom_append (fun _ => startsClause_kind) h, hr]
  simp

/-- An element and tokens after it that start no clause are one default, up to the next clause. -/
theorem defaultExpression_append {inner : List Token} (hskip : skipElement ts = .ok inner)
    (hinner : Enclosed startsClause inner)
    (hr : spanElementsFrom startsClause 0 rest = some ([], rest)) :
    defaultExpression (ts ++ rest) = .ok (source ts, rest) := by
  obtain ⟨element, rfl, -, hmore, -⟩ := of_skipElement hskip
  have hspan : spanElements (Token.isKeywordOf clauseKeywords) (inner ++ rest) = .ok (inner, rest) :=
    spanElements_enclosed rest hinner hr
  rw [defaultExpression, List.append_assoc, hmore]
  simp only [hspan]
  rw [← List.append_assoc, List.length_append, Nat.add_sub_cancel, List.take_left]

theorem defaultExpression_indent {inner : List Token} (hskip : skipElement ts = .ok inner)
    (hinner : Enclosed startsClause inner) :
    defaultExpression (indent lay ts) = .ok (source ts, []) := by
  have h : defaultExpression (indent lay ts ++ []) = .ok (source (indent lay ts), []) :=
    defaultExpression_append ((skipElement_indent lay ts).trans hskip) hinner rfl
  rwa [List.append_nil, source_indent] at h

theorem defaultExpression_rawTokens {s : String} (h : PlainDefault s) :
    defaultExpression (indent lay (rawTokens s)) = .ok (s, []) := by
  obtain ⟨inner, hskip, hinner⟩ := h.element
  rw [defaultExpression_indent hskip hinner, h.source]

theorem clausesFrom_nil (fuel : Nat) (name : Option String) : clausesFrom fuel name [] = ⟨[], none⟩ := by
  cases fuel <;> rfl

/-- The clauses of a default. -/
def defaultClauses (o : Option String) : List (Option String × Clause) :=
  o.toList.map fun s => (none, .default s)

theorem clausesFrom_default {o : Option String} (h : ∀ s, o = some s → PlainDefault s) {fuel : Nat}
    (hf : (clauseTokens ["DEFAULT"] o).length ≤ fuel) :
    clausesFrom fuel none (clauseTokens ["DEFAULT"] o) = ⟨defaultClauses o, none⟩ := by
  cases o with
  | none => exact clausesFrom_nil fuel none
  | some s =>
    obtain _ | fuel := fuel
    · cases hf
    · have hname (ts : List Token) : accept ["CONSTRAINT"] (word sp "DEFAULT" :: ts) = none := rfl
      have hclause (ts : List Token) : clause (word sp "DEFAULT" :: ts) =
          (defaultExpression ts).map fun r => (.default r.1, r.2) := rfl
      have htokens : clauseTokens ["DEFAULT"] (some s) =
          word sp "DEFAULT" :: indent sp (rawTokens s) := rfl
      rw [htokens, clausesFrom, List.isEmpty_cons, hname, hclause,
        defaultExpression_rawTokens (h s rfl)]
      simp only [Except.map, clausesFrom_nil]
      rfl

/-- The clauses of a column. -/
def columnClauses (c : Column) : List (Option String × Clause) :=
  (if c.required then [(none, .notNull)] else []) ++ defaultClauses c.defaultText

theorem clauses_columnTokens {c : Column} (h : ∀ s, c.defaultText = some s → PlainDefault s) :
    clauses ((if c.required then ["NOT", "NULL"] else []).map (word sp) ++
      clauseTokens ["DEFAULT"] c.defaultText) = ⟨columnClauses c, none⟩ := by
  unfold columnClauses
  cases c.required with
  | false => exact clausesFrom_default h (Nat.le_refl _)
  | true =>
    have hname (ts : List Token) : accept ["CONSTRAINT"] (word sp "NOT" :: ts) = none := rfl
    have hclause (ts : List Token) : clause (word sp "NOT" :: word sp "NULL" :: ts) =
        .ok (.notNull, ts) := rfl
    have hrest : clausesFrom (word sp "NULL" :: clauseTokens ["DEFAULT"] c.defaultText).length none
        (clauseTokens ["DEFAULT"] c.defaultText) = ⟨defaultClauses c.defaultText, none⟩ :=
      clausesFrom_default h (Nat.le_succ _)
    simp only [if_true, List.map_cons, List.map_nil, List.cons_append, List.nil_append]
    rw [clauses, List.length_cons, clausesFrom, List.isEmpty_cons, hname, hclause]
    simp only [hrest]
    rfl

/-! ## Columns -/

/-- The definition that a written column is read as. -/
def definition (options : RenderOptions) (enums : OrderedMap EnumType) (c : Column) :
    ColumnDefinition :=
  { name := c.title
    typeText := source (typeTokens options enums c)
    typeName := plainTypeName (typeTokens options enums c)
    notNull := c.required
    defaultText := c.defaultText }

/-- A column is read as it is written. -/
structure PlainColumn (options : RenderOptions) (enums : OrderedMap EnumType) (c : Column) :
    Prop where
  raw : filled c.enumName = none → IsRaw (Ddl.columnType options enums c)
  title : Quote.unquote c.title = c.title
  typeItem : Enclosed (isPunct ',') (typeTokens options enums c)
  typeClause : Enclosed startsClause (typeTokens options enums c)
  default : ∀ s, c.defaultText = some s → PlainDefault s

theorem PlainColumn.rawColumn {c : Column} (h : PlainColumn options enums c) :
    RawColumn options enums c :=
  ⟨h.raw, fun s hs => (h.default s hs).raw⟩

theorem plainTypeName_indent (lay : List Char) (ts : List Token) :
    plainTypeName (indent lay ts) = plainTypeName ts := by
  cases ts with
  | nil => rfl
  | cons t ts =>
    have : nameParts "type name" (indent lay (t :: ts)) = nameParts "type name" (t :: ts) := by
      rw [indent, nameParts.eq_def, nameParts.eq_def _ (t :: ts)]
      rfl
    rw [plainTypeName, this, plainTypeName]

/-- A written column is read as its definition. -/
theorem readColumn_columnTokens {c : Column} (h : PlainColumn options enums c) (table : String) :
    (readColumn table (indent lay (columnTokens options enums c))).result =
      .ok { definition := definition options enums c } := by
  obtain ⟨hne, -⟩ := fullText_typeTokens h.rawColumn
  have hid (lay : List Char) : (nameToken lay c.title).isIdentifier = true := rfl
  have htokens : indent lay (columnTokens options enums c) = nameToken (lay ++ []) c.title ::
      (columnTokens options enums c).tail := rfl
  have hspan : spanElements (Token.isKeywordOf clauseKeywords) (columnTokens options enums c).tail =
      .ok (indent sp (typeTokens options enums c),
        (if c.required then ["NOT", "NULL"] else []).map (word sp) ++
          clauseTokens ["DEFAULT"] c.defaultText) := by
    refine spanElements_enclosed _ (h.typeClause.indent blind_startsClause) ?_
    cases c.required <;> cases c.defaultText <;> rfl
  have hempty : (indent sp (typeTokens options enums c)).isEmpty = false := by
    rw [List.isEmpty_eq_false_iff]
    exact mt indent_eq_nil.1 hne
  have hfold : (columnClauses c).foldl ColumnDraft.apply
      { definition :=
          { name := c.title
            typeText := source (typeTokens options enums c)
            typeName := plainTypeName (typeTokens options enums c) } } =
      { definition := definition options enums c } := by
    unfold columnClauses definition
    cases c.required <;> cases c.defaultText <;> rfl
  rw [htokens, readColumn]
  simp only [hid, Bool.not_true, Bool.false_eq_true, if_false, identifier_nameToken, h.title, hspan,
    hempty, clauses_columnTokens h.default, source_indent, plainTypeName_indent, hfold,
    Action.result_bind, Action.result_ofExcept, Except.bind]
  rfl

/-- The columns of a body are read one by one. -/
theorem readBody_columns {table : String} {seen : List String} {pieces : List (List Token)}
    {columns : List Column}
    (h : List.Forall₂ (fun ts c => ∃ lay, ts = indent lay (columnTokens options enums c))
      pieces columns)
    (hp : ∀ c ∈ columns, PlainColumn options enums c)
    (hd : (columns.map fun c => Quote.fold c.title).Nodup)
    (hs : ∀ c ∈ columns, Quote.fold c.title ∉ seen) :
    (readBody table seen pieces).result = .ok (columns.map (definition options enums), []) := by
  induction h generalizing seen with
  | nil => rfl
  | @cons piece c pieces columns hpiece _ ih =>
    obtain ⟨lay, rfl⟩ := hpiece
    simp only [List.map_cons, List.nodup_cons] at hd
    have hstart : startsConstraint (indent lay (columnTokens options enums c)) = false := rfl
    have hlike : atKeyword ["LIKE", "EXCLUDE"] (indent lay (columnTokens options enums c)) =
        false := rfl
    have hseen : seen.contains (Quote.fold c.title) = false := by
      simpa using hs c List.mem_cons_self
    have hother : ∀ d ∈ columns, Quote.fold d.title ∉ Quote.fold c.title :: seen := by
      intro d hdm
      rw [List.mem_cons, not_or]
      refine ⟨fun he => hd.1 ?_, hs d (List.mem_cons_of_mem c hdm)⟩
      exact he ▸ List.mem_map_of_mem hdm
    have hrest := ih (fun d hd => hp d (List.mem_cons_of_mem c hd)) hd.2 hother
    have hname : (definition options enums c).name = c.title := rfl
    rw [readBody]
    simp only [hstart, hlike, Bool.false_eq_true, if_false, Action.result_bind,
      readColumn_columnTokens (hp c List.mem_cons_self), Except.bind, hname, hseen, hrest]
    rfl

/-! ## Tables -/

section
variable {key : String} {table : Table}

/-- The tokens of a column end before the next comma. -/
theorem PlainColumn.enclosed {c : Column} (h : PlainColumn options enums c) :
    Enclosed (isPunct ',') (columnTokens options enums c) := by
  have hname (ts : List Token) (h : Enclosed (isPunct ',') ts) :
      Enclosed (isPunct ',') (nameToken [] c.title :: ts) := Enclosed.cons rfl rfl rfl h
  refine hname _ ((h.typeItem.indent (blind_isPunct ',')).append (Enclosed.append ?_ ?_))
  · cases c.required <;> rfl
  · cases hs : c.defaultText with
    | none => exact Enclosed.nil
    | some s =>
      exact Enclosed.cons rfl rfl rfl ((h.default s hs).enclosed.indent (blind_isPunct ','))

/-- The tokens between the parentheses of a table. -/
theorem enclosed_columnsTokens {columns : List Column}
    (hc : ∀ c ∈ columns, PlainColumn options enums c) : Enclosed never
      (separated newlineIndented newlineIndented (columns.map (columnTokens options enums))) := by
  refine enclosed_separated blind_never rfl fun ts hts => ?_
  obtain ⟨c, hm, rfl⟩ := List.mem_map.1 hts
  exact (hc c hm).enclosed.never

theorem items_columnsTokens {columns : List Column}
    (hc : ∀ c ∈ columns, PlainColumn options enums c) :
    Token.items
        (separated newlineIndented newlineIndented (columns.map (columnTokens options enums))) =
      spread newlineIndented newlineIndented (columns.map (columnTokens options enums)) := by
  refine items_separated fun ts hts => ?_
  obtain ⟨c, hm, rfl⟩ := List.mem_map.1 hts
  exact ⟨List.cons_ne_nil _ _, (hc c hm).enclosed⟩

/-- A written table is read as a table with the definitions of its columns. -/
theorem says_createTable (ht : PlainTable key table)
    (hc : ∀ c ∈ table.columns, PlainColumn options enums c)
    (hd : (table.columns.map fun c => Quote.fold c.title).Nodup) :
    Says (Ddl.createTable options enums key table)
      (.createTable table.schema table.title (table.columns.map (definition options enums)) []) := by
  have hraw : ∀ c ∈ table.columns, RawColumn options enums c := fun c hm => (hc c hm).rawColumn
  have hinside := enclosed_columnsTokens hc
  refine ⟨tableTokens options enums key table, List.cons_ne_nil _ _, fullText_tableTokens hraw,
    firm_tableTokens hraw, ?_, ?_⟩
  · have hname : Enclosed isSeparator (tableNameTokens key table) := enclosed_dottedTokens _
    refine Enclosed.closed (Enclosed.consPlain rfl (Enclosed.consPlain rfl ?_))
    exact hname.append (enclosed_group hinside Enclosed.nil)
  · intro lay index
    have hopen : opening (indent lay (tableTokens options enums key table)) =
        .table (tableTokens options enums key table).tail.tail := rfl
    rw [readOne, hopen]
    refine result_strict ?_
    have hitems := items_columnsTokens hc
    have hname : qualifiedName "table name" (tableNameTokens key table ++ mark sp '(' ::
        (separated newlineIndented newlineIndented (table.columns.map (columnTokens options enums)) ++
          [mark (if table.columns.isEmpty then newline ++ newline else newline) ')'])) =
        .ok ((table.schema, table.title), mark sp '(' ::
          (separated newlineIndented newlineIndented
            (table.columns.map (columnTokens options enums)) ++
            [mark (if table.columns.isEmpty then newline ++ newline else newline) ')'])) :=
      ht.qualifiedName "table name" rfl
    have hskip (ts : List Token) : skip ["IF", "NOT", "EXISTS"] (tableNameTokens key table ++ ts) =
        tableNameTokens key table ++ ts := by
      rw [ht.tokens, skip_qualifiedTokens]
    have hempty (ts : List Token) : (tableNameTokens key table ++ ts).isEmpty = false := by
      rw [ht.tokens, isEmpty_qualifiedTokens]
    have hmark (ts : List Token) : atPunct '(' (mark sp '(' :: ts) = true := rfl
    have hgroup := group_enclosed [] (o := mark sp '(')
      (c := mark (if table.columns.isEmpty then newline ++ newline else newline) ')') rfl rfl hinside
    have hbody : (readBody table.title [] (spread newlineIndented newlineIndented
        (table.columns.map (columnTokens options enums)))).result =
        .ok (table.columns.map (definition options enums), []) :=
      readBody_columns (forall₂_spread table.columns) hc hd fun _ _ => List.not_mem_nil
    simp only [tableTokens, List.tail_cons]
    unfold readTable
    simp only [hskip, hempty, Bool.false_eq_true, if_false, hname, hmark, if_true, hgroup, hitems,
      hbody, Action.result_bind, Action.result_ofExcept, Except.bind]
    rfl

end

end Schemata.Written
