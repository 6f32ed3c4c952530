/-
  Written statements say what they were written from.

  * `says_createEnum`, `says_createTable`, `says_addConstraint`, `says_createIndex`,
    `says_commentOnTable` and `says_commentOnColumn`: the statement is read as the enum type, the
    table, the constraint, the index or the comment;
  * `PlainColumn`, `PlainConstraint` and `PlainIndex` are what that takes: names that quoting keeps,
    and raw texts whose tokens do not run into the rest of the statement.
-/
import Schemata.Proofs.Reading

namespace Schemata.Written

open Token Cursor Log Statement

variable {t : Token} {ts us rest : List Token} {lay : List Char}

/-! ## Outcomes -/

theorem result_strict {index : Nat} {r : Action ParseFault (List Statement)}
    {statements : List Statement} (h : r.result = .ok statements) :
    (strict index ts r).result = .ok statements := by
  rw [strict, Action.result_adapt, h]
  rfl

theorem result_lenient {index : Nat} {r : Except ParseFault (List Statement)}
    {statements : List Statement} (h : r = .ok statements) :
    (lenient index r).result = .ok statements := by
  rw [h]
  rfl

/-! ## Enum types -/

theorem readValues_literals {enumName : String} {pieces : List (List Token)}
    {values seen : List String}
    (h : List.Forall₂ (fun ts v => ∃ lay, ts = indent lay [literalToken [] v]) pieces values)
    (hv : EnumType.repeated? seen values = none) :
    readValues enumName seen pieces = .ok values := by
  induction h generalizing seen with
  | nil => rfl
  | @cons piece v pieces values hp _ ih =>
    obtain ⟨lay, rfl⟩ := hp
    have hs : (literalToken lay v).stringValue = v := stringValue_literalToken lay v
    rw [EnumType.repeated?] at hv
    split at hv
    · cases hv
    · next hn =>
      have hk : (literalToken lay v).kind = .string := rfl
      have : indent lay [literalToken [] v] = [literalToken lay v] := by
        simp [indent, literalToken]
      rw [this, readValues]
      simp only [hs, hk, if_true, hn, ih hv]
      rfl

theorem enclosed_valueTokens (values : List String) : Enclosed never (valueTokens values) := by
  refine enclosed_separated blind_never rfl ?_
  intro ts hts
  obtain ⟨v, -, rfl⟩ := List.mem_map.1 hts
  exact Enclosed.cons rfl rfl rfl Enclosed.nil

theorem items_valueTokens (values : List String) : Token.items (valueTokens values) =
    spread [] sp (values.map fun v => [literalToken [] v]) := by
  refine items_separated fun ts hts => ?_
  obtain ⟨v, -, rfl⟩ := List.mem_map.1 hts
  exact ⟨List.cons_ne_nil _ _, Enclosed.cons rfl rfl rfl Enclosed.nil⟩

theorem readType_enum {schema : Option String} {name : String} {values : List String}
    (h : PlainName schema name) (hv : EnumType.repeated? [] values = none) :
    readType (qualifiedTokens sp schema name ++ word sp "AS" :: word sp "ENUM" ::
      mark sp '(' :: (valueTokens values ++ [mark [] ')'])) =
      .ok [.createEnum schema name values] := by
  have hgroup := group_enclosed [] (o := mark sp '(') (c := mark [] ')') rfl rfl
    (enclosed_valueTokens values)
  have hvalues : readValues name [] (spread [] sp (values.map fun v => [literalToken [] v])) =
      .ok values := readValues_literals (forall₂_spread values) hv
  have haccept (ts : List Token) :
      accept ["AS", "ENUM"] (word sp "AS" :: word sp "ENUM" :: ts) = some ts := rfl
  have hopen (ts : List Token) : atPunct '(' (mark sp '(' :: ts) = true := rfl
  have hname (ts : List Token) : qualifiedName "type name" (qualifiedTokens sp schema name ++
      word sp "AS" :: ts) = .ok ((schema, name), word sp "AS" :: ts) :=
    qualifiedName_qualifiedTokens h rfl
  unfold readType
  simp only [skip_qualifiedTokens, isEmpty_qualifiedTokens, Bool.false_eq_true, if_false,
    hname, bind, Except.bind, haccept, hopen, if_true, hgroup,
    items_valueTokens, hvalues]
  rfl

/-- A written enum type is read as the enum type. -/
theorem says_createEnum {e : EnumType} (h : PlainName e.schema e.name)
    (hv : EnumType.repeated? [] e.values = none) :
    Says (Ddl.createEnum e) (.createEnum e.schema e.name e.values) := by
  refine ⟨enumTokens e, List.cons_ne_nil _ _, fullText_enumTokens e, firm_enumTokens e, ?_, ?_⟩
  · have hvalues := enclosed_group (o := sp) (c := []) (enclosed_valueTokens e.values) Enclosed.nil
    refine Enclosed.closed (Enclosed.consPlain rfl (Enclosed.consPlain rfl ?_))
    exact (enclosed_dottedTokens _).append
      (Enclosed.consPlain rfl (Enclosed.consPlain rfl hvalues))
  · intro lay index
    have hopen : opening (indent lay (enumTokens e)) = .type (enumTokens e).tail.tail := rfl
    rw [readOne, hopen]
    exact result_strict (congrArg (Action.result ∘ Action.ofExcept) (readType_enum h hv))

/-! ## Comments -/

theorem readComment_of_target {schema column : Option String} {name text : String}
    (h : readCommentTarget ts =
      .ok (some ((schema, name, column), [word sp "IS", literalToken sp text]))) :
    readComment ts = .ok [.comment schema name column (some text)] := by
  have his (ts : List Token) : accept ["IS"] (word sp "IS" :: ts) = some ts := rfl
  have hk : (literalToken sp text).kind = .string := rfl
  have hnull : (literalToken sp text).isKeyword "NULL" = false := rfl
  unfold readComment
  simp only [h, bind, Except.bind, his, advance, hnull, hk, stringValue_literalToken]
  rfl

/-- The name that a table is written with is its own, and it is read as it is written. -/
structure PlainTable (key : String) (t : Table) : Prop where
  identity : Ddl.identity key t = (t.schema, t.title)
  name : PlainName t.schema t.title

section
variable {key : String} {table : Table} (h : PlainTable key table)
include h

theorem PlainTable.tokens : tableNameTokens key table = qualifiedTokens sp table.schema table.title := by
  rw [tableNameTokens, h.identity]

theorem PlainTable.qualifiedName (what : String) (hr : atPunct '.' rest = false) :
    qualifiedName what (tableNameTokens key table ++ rest) =
      .ok ((table.schema, table.title), rest) := by
  rw [h.tokens]
  exact qualifiedName_qualifiedTokens h.name hr

/-- A written comment on a table is read as the comment. -/
theorem says_commentOnTable (text : String) : Says (Ddl.commentOnTable key table text)
    (.comment table.schema table.title none (some text)) := by
  refine ⟨tableCommentTokens key table text, List.cons_ne_nil _ _,
    fullText_tableCommentTokens text, firm_commentTokens "TABLE" (by decide) _ text, ?_, ?_⟩
  · have hname : Enclosed isSeparator (tableNameTokens key table) := enclosed_dottedTokens _
    refine Enclosed.closed (Enclosed.consPlain rfl (Enclosed.consPlain rfl
      (Enclosed.consPlain rfl ?_)))
    exact hname.append (Enclosed.consPlain rfl (Enclosed.consPlain rfl Enclosed.nil))
  · intro lay index
    have hopen : opening (indent lay (tableCommentTokens key table text)) =
        .comment (tableCommentTokens key table text).tail.tail := rfl
    rw [readOne, hopen]
    refine result_lenient (readComment_of_target ?_)
    have hname : Cursor.qualifiedName "table name" (tableNameTokens key table ++
        [word sp "IS", literalToken sp text]) =
        .ok ((table.schema, table.title), [word sp "IS", literalToken sp text]) :=
      h.qualifiedName "table name" rfl
    have htable (ts : List Token) : accept ["TABLE"] (word sp "TABLE" :: ts) = some ts := rfl
    simp only [tableCommentTokens, List.tail_cons]
    unfold readCommentTarget
    simp only [htable, hname, bind, Except.bind]
    rfl

theorem says_commentOnColumn {column : String} (hc : Quote.unquote column = column)
    (text : String) : Says (Ddl.commentOnColumn key table column text)
      (.comment table.schema table.title (some column) (some text)) := by
  refine ⟨columnCommentTokens key table column text, List.cons_ne_nil _ _,
    fullText_columnCommentTokens column text, firm_commentTokens "COLUMN" (by decide) _ text, ?_, ?_⟩
  · refine Enclosed.closed (Enclosed.consPlain rfl (Enclosed.consPlain rfl
      (Enclosed.consPlain rfl ?_)))
    exact (enclosed_dottedTokens _).append
      (Enclosed.consPlain rfl (Enclosed.consPlain rfl Enclosed.nil))
  · intro lay index
    have hopen : opening (indent lay (columnCommentTokens key table column text)) =
        .comment (columnCommentTokens key table column text).tail.tail := rfl
    rw [readOne, hopen]
    refine result_lenient (readComment_of_target ?_)
    have hparts : (qualifiedParts table.schema table.title ++ [column]).map Quote.unquote =
        qualifiedParts table.schema table.title ++ [column] := by
      rw [List.map_append, h.name.unquote_parts, List.map_singleton, hc]
    have hcolumn : Name.columnOfParts? (qualifiedParts table.schema table.title ++ [column]) =
        some ⟨table.schema, table.title, column⟩ := by
      unfold qualifiedParts
      rw [h.name.filled_schema]
      cases table.schema <;> rfl
    have hname : nameParts "column name" (dottedTokens sp
        (qualifiedParts table.schema table.title ++ [column]) ++
        [word sp "IS", literalToken sp text]) =
        .ok (qualifiedParts table.schema table.title ++ [column],
          [word sp "IS", literalToken sp text]) := by
      rw [nameParts_dottedTokens (List.append_ne_nil_of_right_ne_nil _ (List.cons_ne_nil column []))
        rfl, hparts]
    have htable (ts : List Token) : accept ["TABLE"] (word sp "COLUMN" :: ts) = none := rfl
    have hword (ts : List Token) : accept ["COLUMN"] (word sp "COLUMN" :: ts) = some ts := rfl
    simp only [columnCommentTokens, List.tail_cons, h.identity]
    unfold readCommentTarget
    simp only [htable, hword, hname, hcolumn, bind, Except.bind]
    rfl

end

/-! ## Constraints -/

/-- The referential actions as texts. -/
def actionTexts : List String := referentialActions.map " ".intercalate

/-- The target of a foreign key is read as it is written. -/
structure PlainReference (r : Reference) : Prop where
  name : PlainName r.schema r.table
  columns : PlainNames r.columns
  onDelete : ∀ a, r.onDelete = some a → a ∈ actionTexts
  onUpdate : ∀ a, r.onUpdate = some a → a ∈ actionTexts

/-- A raw text that is read as it is written: it scans by itself and starts with a token. -/
structure PlainText (s : String) : Prop where
  raw : IsRaw s
  source : source (rawTokens s) = s

/-- What a constraint says is read as it is written, and there is nothing else to it. -/
def PlainBody (c : Constraint) : Prop :=
  match c.kind with
  | .primaryKey => PlainNames c.columns ∧ c.reference = none ∧ c.expression = none
  | .unique => PlainNames c.columns ∧ c.reference = none ∧ c.expression = none
  | .check => c.columns = [] ∧ c.reference = none ∧
    ∃ s, c.expression = some s ∧ PlainText s ∧ Enclosed never (rawTokens s)
  | .foreignKey => PlainNames c.columns ∧ c.expression = none ∧
    ∃ r, c.reference = some r ∧ PlainReference r ∧ r.columns.length = c.columns.length

/-- A constraint is read as it is written. -/
structure PlainConstraint (c : Constraint) : Prop where
  name : ∀ n, c.name = some n → n ≠ "" ∧ Quote.unquote n = n
  body : PlainBody c

theorem actionText_eq {a : String} (ha : a ∈ actionTexts) :
    ∃ ws ∈ referentialActions, a = " ".intercalate ws ∧ (filled (some a)).map Text.upper = some a := by
  obtain ⟨ws, hw, rfl⟩ := List.mem_map.1 ha
  have hall : ∀ ws ∈ referentialActions,
      (filled (some (" ".intercalate ws))).map Text.upper = some (" ".intercalate ws) := by decide
  exact ⟨ws, hw, rfl, hall ws hw⟩

theorem clauseTokens_action {a : String} (ha : a ∈ actionTexts) (words : List String) :
    ∃ ws ∈ referentialActions, a = " ".intercalate ws ∧
      clauseTokens words ((filled (some a)).map Text.upper) =
        words.map (word sp) ++ ws.map (word sp) := by
  obtain ⟨ws, hw, ha, hupper⟩ := actionText_eq ha
  have hwords : ∀ ws ∈ referentialActions, ws ≠ [] ∧ ∀ w ∈ ws, isWord w = true := by decide
  obtain ⟨hne, hall⟩ := hwords ws hw
  refine ⟨ws, hw, ha, ?_⟩
  rw [hupper, clauseTokens, ha, (rawTokens_words hne hall).2]
  obtain ⟨w, ws, rfl⟩ := List.exists_cons_of_ne_nil hne
  rfl

theorem referentialAction_words (rest : List Token) {ws : List String} (hw : ws ∈ referentialActions)
    (hr : atPunct '(' rest = false) :
    referentialAction (ws.map (word sp) ++ rest) = .ok (" ".intercalate ws, rest) := by
  have haccept : acceptFirst referentialActions (ws.map (word sp) ++ rest) = some (ws, rest) := by
    simp only [referentialActions, List.mem_cons, List.not_mem_nil, or_false] at hw
    rcases hw with rfl | rfl | rfl | rfl | rfl <;> rfl
  rw [referentialAction, haccept]
  simp only [hr, Bool.false_eq_true, if_false]

theorem referenceOptions_of_none {r : Reference} (h : referenceOption r ts = .ok none) :
    referenceOptions r ts = .ok (r, ts) := by
  rw [referenceOptions]
  split
  · next he => rw [h] at he; cases he
  · rfl
  · next he => rw [h] at he; cases he

theorem referenceOptions_nil (r : Reference) : referenceOptions r [] = .ok (r, []) :=
  referenceOptions_of_none rfl

theorem referenceOptions_of_some {r r' : Reference}
    (h : referenceOption r ts = .ok (some (r', rest))) :
    referenceOptions r ts = referenceOptions r' rest := by
  rw [referenceOptions]
  split
  · next he => rw [h] at he; cases he
  · next he => rw [h] at he; cases he
  · next he => rw [h] at he; cases he; rfl

theorem referenceOptions_delete {r : Reference} {o : Option String}
    (ho : ∀ a, o = some a → a ∈ actionTexts) (hn : r.onDelete = none)
    (hr : atPunct '(' rest = false) :
    referenceOptions r (clauseTokens ["ON", "DELETE"] ((filled o).map Text.upper) ++ rest) =
      referenceOptions { r with onDelete := o } rest := by
  cases o with
  | none =>
    have : { r with onDelete := none } = r := by rw [← hn]
    rw [this]
    rfl
  | some a =>
    obtain ⟨ws, hw, rfl, ht⟩ := clauseTokens_action (ho a rfl) ["ON", "DELETE"]
    have haccept (ts : List Token) :
        accept ["ON", "DELETE"] (["ON", "DELETE"].map (word sp) ++ ts) = some ts := rfl
    refine referenceOptions_of_some ?_
    rw [ht, List.append_assoc, referenceOption, haccept]
    simp only [referentialAction_words rest hw hr]
    rfl

theorem referenceOptions_update {r : Reference} {o : Option String}
    (ho : ∀ a, o = some a → a ∈ actionTexts) (hn : r.onUpdate = none) :
    referenceOptions r (clauseTokens ["ON", "UPDATE"] ((filled o).map Text.upper)) =
      .ok ({ r with onUpdate := o }, []) := by
  cases o with
  | none =>
    have : { r with onUpdate := none } = r := by rw [← hn]
    rw [this]
    exact referenceOptions_nil r
  | some a =>
    obtain ⟨ws, hw, rfl, ht⟩ := clauseTokens_action (ho a rfl) ["ON", "UPDATE"]
    have hdelete (ts : List Token) :
        accept ["ON", "DELETE"] (["ON", "UPDATE"].map (word sp) ++ ts) = none := rfl
    have hupdate (ts : List Token) :
        accept ["ON", "UPDATE"] (["ON", "UPDATE"].map (word sp) ++ ts) = some ts := rfl
    rw [← referenceOptions_nil]
    refine referenceOptions_of_some ?_
    have := referentialAction_words [] hw rfl
    rw [List.append_nil] at this
    rw [ht, referenceOption, hdelete, hupdate]
    simp only [this]
    rfl

/-- The tokens of the target of a foreign key. -/
theorem references_tokens {r : Reference} (h : PlainReference r) :
    references (qualifiedTokens sp r.schema r.table ++ (columnListTokens r.columns ++
      (clauseTokens ["ON", "DELETE"] ((filled r.onDelete).map Text.upper) ++
        clauseTokens ["ON", "UPDATE"] ((filled r.onUpdate).map Text.upper)))) = .ok (r, []) := by
  have hname (ts : List Token) : qualifiedName "referenced table"
      (qualifiedTokens sp r.schema r.table ++ (columnListTokens r.columns ++ ts)) =
      .ok ((r.schema, r.table), columnListTokens r.columns ++ ts) :=
    qualifiedName_qualifiedTokens h.name rfl
  have hopen (ts : List Token) : atPunct '(' (columnListTokens r.columns ++ ts) = true := rfl
  have hupdate : atPunct '(' (clauseTokens ["ON", "UPDATE"] ((filled r.onUpdate).map Text.upper)) =
      false := by
    cases (filled r.onUpdate).map Text.upper <;> rfl
  rw [references, hname]
  simp only [hopen, if_true, columnList_columnListTokens _ h.columns]
  rw [referenceOptions_delete h.onDelete rfl hupdate, referenceOptions_update h.onUpdate rfl]

theorem accept_bodyTokens (c : Constraint) : accept ["CONSTRAINT"] (bodyTokens c) = none := by
  unfold bodyTokens
  cases c.kind with
  | foreignKey => cases c.reference <;> rfl
  | _ => rfl

/-- The body of a constraint is read as the constraint with the name in front of it. -/
theorem constraintAfterName_bodyTokens {c : Constraint} (h : PlainBody c) :
    constraintAfterName c.name (bodyTokens c) = .ok (some c) := by
  obtain ⟨kind, name, columns, reference, expression⟩ := c
  have hlist (names : List String) (hn : PlainNames names) :
      columnList (columnListTokens names) = .ok (names, []) := by
    have := columnList_columnListTokens [] hn
    rwa [List.append_nil] at this
  unfold constraintAfterName
  cases kind with
  | primaryKey =>
    obtain ⟨hc, rfl, rfl⟩ := h
    have haccept (ts : List Token) :
        accept ["PRIMARY", "KEY"] (word sp "PRIMARY" :: word sp "KEY" :: ts) = some ts := rfl
    simp only [bodyTokens, haccept, hlist _ hc, bind, Except.bind, pure, Except.pure]
  | unique =>
    obtain ⟨hc, rfl, rfl⟩ := h
    have hkey (ts : List Token) : accept ["PRIMARY", "KEY"] (word sp "UNIQUE" :: ts) = none := rfl
    have haccept (ts : List Token) : accept ["UNIQUE"] (word sp "UNIQUE" :: ts) = some ts := rfl
    have hnulls (names : List String) : acceptFirst
        [["NULLS", "NOT", "DISTINCT"], ["NULLS", "DISTINCT"]] (columnListTokens names) = none := rfl
    simp only [bodyTokens, hkey, haccept, hnulls, hlist _ hc, bind, Except.bind, pure, Except.pure]
  | check =>
    obtain ⟨rfl, rfl, s, rfl, hs, hin⟩ := h
    have haccept (ts : List Token) : accept ["PRIMARY", "KEY"] (word sp "CHECK" :: ts) = none ∧
        accept ["UNIQUE"] (word sp "CHECK" :: ts) = none ∧
        accept ["FOREIGN", "KEY"] (word sp "CHECK" :: ts) = none ∧
        accept ["CHECK"] (word sp "CHECK" :: ts) = some ts := ⟨rfl, rfl, rfl, rfl⟩
    have hgroup := group_enclosed [] (o := mark sp '(') (c := mark [] ')') rfl rfl hin
    simp only [bodyTokens, haccept, Option.getD_some, hgroup, hs.source, bind, Except.bind, pure,
      Except.pure]
  | foreignKey =>
    obtain ⟨hc, rfl, r, rfl, hr, hlen⟩ := h
    have haccept (ts : List Token) :
        accept ["PRIMARY", "KEY"] (word sp "FOREIGN" :: word sp "KEY" :: ts) = none ∧
        accept ["UNIQUE"] (word sp "FOREIGN" :: word sp "KEY" :: ts) = none ∧
        accept ["FOREIGN", "KEY"] (word sp "FOREIGN" :: word sp "KEY" :: ts) = some ts :=
      ⟨rfl, rfl, rfl⟩
    have hreferences (ts : List Token) :
        accept ["REFERENCES"] (word sp "REFERENCES" :: ts) = some ts := rfl
    have hne : r.columns.isEmpty = false := by simpa using hr.columns.nonempty
    simp only [bodyTokens, haccept, columnList_columnListTokens _ hc, hreferences,
      references_tokens hr, hne, hlen, Bool.false_eq_true, if_false, ne_eq, not_true_eq_false,
      bind, Except.bind, pure, Except.pure]

theorem constraintName_tokens {o : Option String} (ho : ∀ n, o = some n → n ≠ "" ∧ Quote.unquote n = n)
    (hts : accept ["CONSTRAINT"] ts = none) :
    constraintName (constraintNameTokens o ++ ts) = .ok (o, ts) := by
  cases o with
  | none =>
    show constraintName ts = _
    rw [constraintName, hts]
  | some n =>
    obtain ⟨hne, hu⟩ := ho n rfl
    have hfilled : filled (some n) = some n := filled_eq_self fun he => hne (Option.some.inj he)
    have haccept (ts : List Token) : accept ["CONSTRAINT"] (word sp "CONSTRAINT" :: ts) = some ts :=
      rfl
    have hid : (nameToken sp n).isIdentifier = true := rfl
    rw [constraintNameTokens, hfilled, constraintName]
    simp only [List.cons_append, List.nil_append, haccept, expectName, hid, if_true,
      identifier_nameToken, hu, Except.map]

theorem tableConstraint_tokens {c : Constraint} (h : PlainConstraint c) :
    tableConstraint (constraintNameTokens c.name ++ bodyTokens c) = .ok (some c) := by
  rw [tableConstraint, constraintName_tokens h.name (accept_bodyTokens c)]
  exact constraintAfterName_bodyTokens h.body

theorem isRaw_action {o : Option String} (ho : ∀ a, o = some a → a ∈ actionTexts) :
    IsRawIfAny ((filled o).map Text.upper) := by
  cases o with
  | none => nofun
  | some a =>
    obtain ⟨ws, hw, rfl, hupper⟩ := actionText_eq (ho a rfl)
    have hwords : ∀ ws ∈ referentialActions, ws ≠ [] ∧ ∀ w ∈ ws, isWord w = true := by decide
    rw [hupper]
    rintro _ ⟨⟩
    exact (rawTokens_words (hwords ws hw).1 (hwords ws hw).2).1

theorem PlainConstraint.rawConstraint {c : Constraint} (h : PlainConstraint c) :
    RawConstraint c := by
  obtain ⟨kind, name, columns, reference, expression⟩ := c
  have hb := h.body
  constructor
  · rintro rfl
    obtain ⟨-, -, s, rfl, hs, -⟩ := hb
    exact hs.raw
  · rintro r rfl
    cases kind with
    | foreignKey =>
      obtain ⟨-, -, r', ⟨⟩, hr, -⟩ := hb
      exact isRaw_action hr.onDelete
    | primaryKey => cases hb.2.1
    | unique => cases hb.2.1
    | check => cases hb.2.1
  · rintro r rfl
    cases kind with
    | foreignKey =>
      obtain ⟨-, -, r', ⟨⟩, hr, -⟩ := hb
      exact isRaw_action hr.onUpdate
    | primaryKey => cases hb.2.1
    | unique => cases hb.2.1
    | check => cases hb.2.1

theorem enclosed_action {o : Option String} (ho : ∀ a, o = some a → a ∈ actionTexts)
    (words : List String) :
    Enclosed isSeparator (clauseTokens words ((filled o).map Text.upper)) := by
  cases o with
  | none => exact Enclosed.nil
  | some a =>
    obtain ⟨ws, -, -, ht⟩ := clauseTokens_action (ho a rfl) words
    rw [ht]
    have : Enclosed isSeparator (ws.map (word sp) ++ []) := enclosed_words Enclosed.nil
    rw [List.append_nil] at this
    exact enclosed_words this

theorem enclosed_bodyTokens {c : Constraint} (h : PlainBody c) :
    Enclosed isSeparator (bodyTokens c) := by
  obtain ⟨kind, name, columns, reference, expression⟩ := c
  have hlist := enclosed_columnListTokens columns
  cases kind with
  | primaryKey => exact Enclosed.consPlain rfl (Enclosed.consPlain rfl hlist)
  | unique => exact Enclosed.consPlain rfl hlist
  | check =>
    obtain ⟨rfl, rfl, s, rfl, -, hin⟩ := h
    exact Enclosed.consPlain rfl (enclosed_group hin Enclosed.nil)
  | foreignKey =>
    obtain ⟨-, rfl, r, rfl, hr, -⟩ := h
    have hactions := (enclosed_action hr.onDelete ["ON", "DELETE"]).append
      (enclosed_action hr.onUpdate ["ON", "UPDATE"])
    have hname : Enclosed isSeparator (qualifiedTokens sp r.schema r.table) :=
      enclosed_dottedTokens _
    have htarget := hname.append ((enclosed_columnListTokens r.columns).append hactions)
    refine Enclosed.consPlain rfl (Enclosed.consPlain rfl ?_)
    exact hlist.append (Enclosed.consPlain rfl htarget)

theorem enclosed_addition {c : Constraint} (h : PlainBody c) :
    Enclosed isSeparator (word sp "ADD" :: (constraintNameTokens c.name ++ bodyTokens c)) := by
  refine Enclosed.consPlain rfl ?_
  unfold constraintNameTokens
  cases filled c.name with
  | none => exact enclosed_bodyTokens h
  | some n => exact Enclosed.consPlain rfl (Enclosed.consPlain rfl (enclosed_bodyTokens h))

/-- A written constraint is read as the constraint. -/
theorem says_addConstraint {key : String} {table : Table} {c : Constraint}
    (ht : PlainTable key table) (h : PlainConstraint c) :
    Says (Ddl.addConstraint key table c) (.addConstraint table.schema table.title c) := by
  have haddition := enclosed_addition h.body
  refine ⟨constraintTokens key table c, List.cons_ne_nil _ _,
    fullText_constraintTokens h.rawConstraint, firm_constraintTokens h.rawConstraint, ?_, ?_⟩
  · have hname : Enclosed isSeparator (tableNameTokens key table) := enclosed_dottedTokens _
    refine Enclosed.closed (Enclosed.consPlain rfl (Enclosed.consPlain rfl ?_))
    exact hname.append haddition
  · intro lay index
    have hopen : opening (indent lay (constraintTokens key table c)) =
        .change (constraintTokens key table c).tail.tail := rfl
    rw [readOne, hopen]
    refine result_lenient ?_
    have hname : qualifiedName "table name" (tableNameTokens key table ++ word sp "ADD" ::
        (constraintNameTokens c.name ++ bodyTokens c)) =
        .ok ((table.schema, table.title), word sp "ADD" ::
          (constraintNameTokens c.name ++ bodyTokens c)) := ht.qualifiedName "table name" rfl
    have hitems := items_of_enclosed (List.cons_ne_nil _ _) haddition.comma
    have hadd (ts : List Token) : accept ["ADD"] (word sp "ADD" :: ts) = some ts := rfl
    have hskip : skip ["ONLY"] (skip ["IF", "EXISTS"] (constraintTokens key table c).tail.tail) =
        (constraintTokens key table c).tail.tail := by
      simp only [constraintTokens, List.tail_cons, ht.tokens, skip_qualifiedTokens]
    rw [readChange, hskip]
    simp only [constraintTokens, List.tail_cons, hname, hitems, bind, Except.bind, readActions,
      readAction, hadd, tableConstraint_tokens h]
    rfl

/-! ## Indexes -/

/-- An access method is read as it is written: its capitals are one token. -/
structure PlainMethod (m : String) : Prop where
  nonempty : m ≠ ""
  token : ∃ t, rawTokens (Text.upper m) = [t] ∧ IsRaw (Text.upper m) ∧ t.kind ≠ .punct ∧
    Text.lower (String.ofList t.text) = m

/-- A column of an index is read as it is written. -/
structure PlainItem (s : String) : Prop extends PlainText s where
  enclosed : Enclosed (isPunct ',') (rawTokens s)

/-- The condition of an index is read as it is written and ends with its statement. -/
structure PlainWhere (s : String) : Prop extends PlainText s where
  nonempty : s ≠ ""
  closed : clampedLevel (isPunct ';') 0 (rawTokens s) = some 0

/-- An index is read as it is written. -/
structure PlainIndex (i : Index) : Prop where
  nonempty : i.name ≠ ""
  name : Quote.unquote i.name = i.name
  columns : i.columns ≠ []
  items : ∀ c ∈ i.columns, PlainItem c
  method : ∀ m, i.method = some m → PlainMethod m
  condition : ∀ w, i.condition = some w → PlainWhere w

/-- The tokens of the columns of an index. -/
theorem items_columns {columns : List String} (h : ∀ c ∈ columns, PlainItem c) :
    (Token.items (separated [] sp (columns.map rawTokens))).map source = columns := by
  rw [items_separated, map_spread (k := id), List.map_id]
  · intro c hc lay
    rw [source_indent, (h c hc).source]
    rfl
  · intro ts hts
    obtain ⟨c, hc, rfl⟩ := List.mem_map.1 hts
    exact ⟨(h c hc).raw.scan.1, (h c hc).enclosed⟩

section
variable {i : Index} (h : PlainIndex i)
include h

theorem PlainIndex.filled_method : filled i.method = i.method :=
  filled_eq_self fun hm => (h.method "" hm).nonempty rfl

theorem PlainIndex.filled_condition : filled i.condition = i.condition :=
  filled_eq_self fun hw => (h.condition "" hw).nonempty rfl

theorem PlainIndex.rawIndex : RawIndex i := by
  constructor
  · exact fun c hc => (h.items c hc).raw
  · rw [h.filled_method]
    intro s hs
    obtain ⟨m, hm, rfl⟩ := Option.map_eq_some_iff.1 hs
    obtain ⟨t, -, hraw, -⟩ := (h.method m hm).token
    exact hraw
  · rw [h.filled_condition]
    exact fun w hw => (h.condition w hw).raw

theorem PlainIndex.enclosed_columns :
    Enclosed never (separated [] sp (i.columns.map rawTokens)) := by
  refine enclosed_separated blind_never rfl ?_
  intro ts hts
  obtain ⟨c, hc, rfl⟩ := List.mem_map.1 hts
  exact (h.items c hc).enclosed.never

theorem PlainIndex.enclosed_method :
    Enclosed isSeparator (clauseTokens ["USING"] ((filled i.method).map Text.upper)) := by
  rw [h.filled_method]
  refine enclosed_clauseTokens ?_
  intro s hs
  obtain ⟨m, hm, rfl⟩ := Option.map_eq_some_iff.1 hs
  obtain ⟨t, ht, -, hk, -⟩ := (h.method m hm).token
  rw [ht]
  exact Enclosed.nil.consPlain (beq_eq_false_iff_ne.2 hk)

theorem PlainIndex.closed_condition :
    clampedLevel (isPunct ';') 0 (clauseTokens ["WHERE"] (filled i.condition)) = some 0 := by
  rw [h.filled_condition]
  cases hw : i.condition with
  | none => rfl
  | some w =>
    have := (h.condition w hw).closed
    rw [← clampedLevel_indent sp fun _ _ _ _ => rfl] at this
    exact this

/-- The condition of an index. -/
theorem PlainIndex.read_condition :
    spanElements (isKeyword "WHERE") (clauseTokens ["WHERE"] (filled i.condition)) =
        .ok ([], clauseTokens ["WHERE"] (filled i.condition)) ∧
      (accept ["WHERE"] (clauseTokens ["WHERE"] (filled i.condition))).map source = i.condition := by
  rw [h.filled_condition]
  cases hw : i.condition with
  | none => exact ⟨rfl, rfl⟩
  | some w =>
    refine ⟨rfl, ?_⟩
    have haccept (ts : List Token) : accept ["WHERE"] (word sp "WHERE" :: ts) = some ts := rfl
    simp only [clauseTokens, List.map_cons, List.map_nil, List.cons_append, List.nil_append,
      haccept, Option.map_some, source_indent, (h.condition w hw).source]

/-- The access method of an index. -/
theorem PlainIndex.read_method (rest : List Token) :
    (∃ m t, i.method = some m ∧ Text.lower (String.ofList t.text) = m ∧
      accept ["USING"] (clauseTokens ["USING"] ((filled i.method).map Text.upper) ++
        mark sp '(' :: rest) = some (t :: mark sp '(' :: rest)) ∨
    (i.method = none ∧ clauseTokens ["USING"] ((filled i.method).map Text.upper) = []) := by
  rw [h.filled_method]
  cases hm : i.method with
  | none => exact .inr ⟨rfl, rfl⟩
  | some m =>
    obtain ⟨t, ht, -, -, hl⟩ := (h.method m hm).token
    refine .inl ⟨m, { t with layout := sp ++ t.layout }, rfl, hl, ?_⟩
    rw [Option.map_some, clauseTokens, ht]
    rfl

/-- The tokens of an index after its opening keywords. -/
theorem readIndex_tokens {key : String} {table : Table} (ht : PlainTable key table) :
    readIndex ((if i.unique then [word sp "UNIQUE"] else []) ++
      word sp "INDEX" :: nameToken sp i.name :: word sp "ON" :: (tableNameTokens key table ++
        (clauseTokens ["USING"] ((filled i.method).map Text.upper) ++
          mark sp '(' :: (separated [] sp (i.columns.map rawTokens) ++ mark [] ')' ::
            clauseTokens ["WHERE"] (filled i.condition))))) =
      .ok [.createIndex table.schema table.title i] := by
  obtain ⟨hspan, hwhere⟩ := h.read_condition
  have hgroup := group_enclosed (clauseTokens ["WHERE"] (filled i.condition)) (o := mark sp '(')
    (c := mark [] ')') rfl rfl h.enclosed_columns
  have hcolumns := items_columns h.items
  have hne : i.columns.isEmpty = false := by simpa using h.columns
  have hunique (ts : List Token) : (accept ["UNIQUE"] ((if i.unique then [word sp "UNIQUE"] else []) ++
      word sp "INDEX" :: ts)).isSome = i.unique := by
    cases i.unique <;> rfl
  have hskip (ts : List Token) : skip ["IF", "NOT", "EXISTS"] (skip ["CONCURRENTLY"] (skip ["INDEX"]
      (skip ["UNIQUE"] ((if i.unique then [word sp "UNIQUE"] else []) ++
        word sp "INDEX" :: nameToken sp i.name :: ts)))) = nameToken sp i.name :: ts := by
    cases i.unique <;> rfl
  have hid : (nameToken sp i.name).isIdentifier = true := rfl
  have hat (ts : List Token) : atKeyword ["ON"] (nameToken sp i.name :: ts) = false := rfl
  have hon (ts : List Token) : accept ["ON"] (word sp "ON" :: ts) = some ts := rfl
  have hname : filled (some i.name) = some i.name :=
    filled_eq_self fun he => h.nonempty (Option.some.inj he)
  have honly (ts : List Token) : skip ["ONLY"] (tableNameTokens key table ++ ts) =
      tableNameTokens key table ++ ts := by
    rw [ht.tokens, skip_qualifiedTokens]
  have hpoint (ts : List Token) : atPunct '.' (clauseTokens ["USING"]
      ((filled i.method).map Text.upper) ++ mark sp '(' :: ts) = false := by
    cases (filled i.method).map Text.upper <;> rfl
  have hopen (ts : List Token) : atPunct '(' (mark sp '(' :: ts) = true := rfl
  unfold readIndex
  simp only [hskip, hunique, indexName, indexMethod, hat, expectName, hid, if_true, identifier_nameToken, h.name, hon,
    honly, ht.qualifiedName _ (hpoint _), Except.map, bind, Except.bind, Bool.false_eq_true,
    if_false]
  obtain ⟨m, t, hm, hl, haccept⟩ | ⟨hm, haccept⟩ := h.read_method
    (separated [] sp (i.columns.map rawTokens) ++ mark [] ')' ::
      clauseTokens ["WHERE"] (filled i.condition))
  · simp only [haccept, advance, hl, hopen, Bool.not_true, Bool.false_eq_true, if_false, hgroup,
      hcolumns, hne, hspan, hwhere, hname]
    rw [← hm]
    rfl
  · have husing (ts : List Token) : accept ["USING"] (mark sp '(' :: ts) = none := rfl
    simp only [haccept, List.nil_append, husing, hopen, Bool.not_true, Bool.false_eq_true, if_false,
      hgroup, hcolumns, hne, hspan, hwhere, hname, pure, Except.pure]
    rw [← hm]
    rfl

/-- A written index is read as the index. -/
theorem says_createIndex {key : String} {table : Table} (ht : PlainTable key table) :
    Says (Ddl.createIndex key table i) (.createIndex table.schema table.title i) := by
  refine ⟨indexTokens key table i, List.cons_ne_nil _ _, fullText_indexTokens h.rawIndex,
    firm_indexTokens h.rawIndex, ?_, ?_⟩
  · have heq : indexTokens key table i = (word [] "CREATE" ::
        ((if i.unique then [word sp "UNIQUE"] else []) ++ word sp "INDEX" :: nameToken sp i.name ::
          word sp "ON" :: (tableNameTokens key table ++
            (clauseTokens ["USING"] ((filled i.method).map Text.upper) ++ mark sp '(' ::
              (separated [] sp (i.columns.map rawTokens) ++ [mark [] ')']))))) ++
        clauseTokens ["WHERE"] (filled i.condition) := by simp [indexTokens]
    rw [heq]
    refine Enclosed.closed_append ?_ h.closed_condition
    have hname : Enclosed isSeparator (tableNameTokens key table) := enclosed_dottedTokens _
    have hlist := enclosed_group (o := sp) (c := []) h.enclosed_columns Enclosed.nil
    have hunique : Enclosed isSeparator (if i.unique then [word sp "UNIQUE"] else []) := by
      split
      · exact Enclosed.consPlain rfl Enclosed.nil
      · exact Enclosed.nil
    refine Enclosed.consPlain rfl (hunique.append (Enclosed.consPlain rfl
      (Enclosed.consPlain rfl (Enclosed.consPlain rfl ?_))))
    exact hname.append (h.enclosed_method.append hlist)
  · intro lay index
    have hopen : opening (indent lay (indexTokens key table i)) =
        .index (indexTokens key table i).tail := by
      unfold indexTokens
      cases i.unique <;> rfl
    rw [readOne, hopen]
    exact result_lenient (readIndex_tokens h ht)

end

end Schemata.Written
