/-
  Defaults of columns.

  * `Scans s ts`: the text has these tokens, and its comments end in it; such texts keep their tokens
    where they are put together (`Scans.append`), so that `scan_tableText` has the tokens of a table
    with a column of any name, type and default;
  * `IsDefault` tokens have no comma outside parentheses, and no clause starts outside parentheses
    after their first element; `isDefault_or_comma`: other balanced tokens are a default up to a comma;
  * `readAll_tableText`: a default is taken whole, and the column after it is the next one, just if no
    comma in it stands outside parentheses;
  * `not_readAll_listed`: square brackets do not enclose, so a comma in them ends the column.
-/
import Schemata.Proofs.Columns
import Schemata.Proofs.Seams
import Schemata.Proofs.Spacing
import Schemata.Proofs.Taken

namespace Schemata

open Cursor Log Statement Token Written

variable {s : String} {ts us : List Token} {lay cs rest : List Char}

/-! ## Texts put together -/

/-- The text has the given tokens, and its last comment ends in it. -/
def Scans (s : String) (ts : List Token) : Prop :=
  ∃ closing, scanList s.toList = .ok (ts, closing) ∧ Gap False closing

theorem indent_indent (lay lay' : List Char) (ts : List Token) :
    indent lay (indent lay' ts) = indent (lay ++ lay') ts := by
  cases ts with
  | nil => rfl
  | cons t ts => simp [indent]

theorem indent_append (hne : ts ≠ []) : indent lay (ts ++ us) = indent lay ts ++ us := by
  cases ts with
  | nil => exact absurd rfl hne
  | cons t ts => rfl

/-- Layout in front of a text goes to its first token. -/
theorem scanList_layout (hl : IsLayout lay) (hne : ts ≠ []) (h : scanList cs = .ok (ts, [])) :
    scanList (lay ++ cs) = .ok (indent lay ts, []) := by
  rw [scanList_behind hl, h]
  cases ts with
  | nil => exact absurd rfl hne
  | cons t ts => rfl

/-- A text keeps its tokens in front of a text that starts with a hard character, and leaves layout
    to it. -/
theorem Scans.append (hs : Scans s ts) (hr : Hard rest) (hne : us ≠ [])
    (h : scanList rest = .ok (us, [])) : ∃ lay, scanList (s.toList ++ rest) =
      .ok (ts ++ indent lay us, []) := by
  obtain ⟨closing, hscan, hgap⟩ := hs
  have hrescans : Rescans ts (closing ++ rest) := (rescans_of_scanList hscan).1.append_hard hr
  refine ⟨closing, ?_⟩
  rw [← fullText_append_of_scanList hscan, List.append_assoc, scanList_append hrescans,
    scanList_layout hgap.isLayout hne h]
  rfl

/-- A word in front of a text that starts with a hard character. -/
theorem scanList_word {w : String} (hw : isWord w = true) (hr : Hard rest)
    (h : scanList rest = .ok (us, [])) :
    scanList (w.toList ++ rest) = .ok (word [] w :: us, []) := by
  have hfirm : Firm [word [] w] := firm_word isLayout_nil hw firm_nil startsHard_nil
  have := scanList_append (hfirm.rescans rest hr)
  rw [h] at this
  simpa [word, Except.map, prepend] using this

/-! ## The tokens of a table with a default -/

/-- The text of a table with a column of a name, a type and a default, and another column. -/
def tableText (name type expression : String) : String :=
  "CREATE TABLE t (" ++ name ++ " " ++ type ++ " DEFAULT " ++ expression ++ ", d int)"

/-- The characters of the parts of a text, one of them a word between gaps. -/
theorem toList_parts {head gap spaced tail a b c w : String}
    (h : spaced.toList = gap.toList ++ (w.toList ++ gap.toList)) :
    (head ++ a ++ gap ++ b ++ spaced ++ c ++ tail).toList = head.toList ++ (a.toList ++
      (gap.toList ++ (b.toList ++ (gap.toList ++ (w.toList ++ (gap.toList ++
        (c.toList ++ tail.toList))))))) := by
  simp only [String.toList_append, h, List.append_assoc]

/-- The tokens of a column with a default. -/
def defaultColumn (lay lay' : List Char) (name : Token) (type expression : List Token) :
    List Token :=
  name :: (indent lay type ++ word lay' "DEFAULT" :: indent sp expression)

/-- The tokens of the other column. -/
def otherColumn : List Token := [word sp "d", word sp "int"]

/-- The tokens in front of the columns. -/
def tableHead : List Token := [word [] "CREATE", word sp "TABLE", word sp "t", mark sp '(']

/-- The tokens of the table. -/
def defaultTable (lay : List Char) (column : List Token) : List Token :=
  tableHead ++ (column ++ mark lay ',' :: (otherColumn ++ [mark [] ')']))

theorem toList_tableText (name type expression : String) :
    (tableText name type expression).toList = fullText tableHead ++
      (name.toList ++ (sp ++ (type.toList ++ (sp ++ ("DEFAULT".toList ++ (sp ++
        (expression.toList ++ ", d int)".toList))))))) :=
  toList_parts rfl

/-- The columns may start with any character. -/
theorem rescans_tableHead (cs : List Char) : Rescans tableHead cs := by
  have hwords : Firm [word [] "CREATE", word sp "TABLE", word sp "t"] :=
    firm_word isLayout_nil rfl (firm_word isLayout_sp rfl (firm_word isLayout_sp rfl firm_nil
      startsHard_nil) (startsHard_sp rfl)) (startsHard_sp rfl)
  have hmark : (mark sp '(').Stands cs :=
    stands_mark isLayout_sp rfl fun hc => absurd hc (by decide)
  have hall := rescans_append.2 ⟨hwords.rescans (fullText [mark sp '('] ++ cs) (hard_cons rfl),
    (⟨hmark, trivial⟩ : Rescans [mark sp '('] cs)⟩
  exact hall

theorem scan_otherColumn :
    scanList ", d int)".toList = .ok (mark [] ',' :: (otherColumn ++ [mark [] ')']), []) := by
  have hmark : Firm [mark [] ')'] := firm_mark isLayout_nil rfl (by decide) firm_nil
  have hwords : Firm (otherColumn ++ [mark [] ')']) :=
    firm_word isLayout_sp rfl (firm_word isLayout_sp rfl hmark (startsHard_mark rfl))
      (startsHard_sp rfl)
  exact scanList_of_firm (firm_mark isLayout_nil rfl (by decide) hwords) rfl

theorem hard_otherColumn : Hard ", d int)".toList := hard_cons rfl

/-- A table starts with the tokens of its first column, and the text behind them keeps its own. -/
theorem scan_column {name type : String} {nameTok : Token} {types : List Token}
    (hname : Scans name [nameTok]) (htype : Scans type types) (hne : types ≠ []) (hr : Hard rest)
    (hne' : us ≠ []) (h : scanList rest = .ok (us, [])) :
    ∃ lay lay', scanList (fullText tableHead ++ (name.toList ++ (sp ++ (type.toList ++ rest)))) =
      .ok (tableHead ++ nameTok :: (indent lay types ++ indent lay' us), []) := by
  have hspace : Hard (sp ++ (type.toList ++ rest)) := hard_cons rfl
  obtain ⟨lay', h⟩ := htype.append hr hne' h
  have h := scanList_layout isLayout_sp (by simp [hne]) h
  obtain ⟨lay, h⟩ := hname.append hspace (by simp [hne, indent_eq_nil]) h
  refine ⟨lay ++ sp, lay', ?_⟩
  rw [scanList_append (rescans_tableHead _), h, indent_indent, indent_append hne]
  rfl

/-- The tokens of a table with a default are those of its parts. -/
theorem scan_tableText {name type expression : String} {nameTok : Token}
    {types expressions : List Token} (hname : Scans name [nameTok]) (htype : Scans type types)
    (hexpression : Scans expression expressions) (hne : types ≠ []) (hne' : expressions ≠ []) :
    ∃ lay lay' lay'', scanList (tableText name type expression).toList =
      .ok (defaultTable lay'' (defaultColumn lay lay' nameTok types expressions), []) := by
  have hspace (cs : List Char) : Hard (sp ++ cs) := hard_cons rfl
  obtain ⟨lay'', h⟩ := hexpression.append hard_otherColumn (List.cons_ne_nil _ _) scan_otherColumn
  have h := scanList_layout isLayout_sp (by simp [hne']) h
  have h := scanList_word (w := "DEFAULT") rfl (hspace _) h
  have h := scanList_layout isLayout_sp (List.cons_ne_nil _ _) h
  obtain ⟨lay, lay', h⟩ := scan_column hname htype hne (hspace _) (by simp [indent]) h
  refine ⟨lay, lay' ++ sp ++ [], lay'' ++ [], ?_⟩
  rw [toList_tableText, h, indent_indent, indent_append hne']
  simp [defaultTable, defaultColumn, indent, word, mark]

/-! ## Commas outside parentheses -/

/-- The tokens of a default as a column has it: no comma stands outside parentheses, and no clause
    starts outside parentheses after the first element. -/
structure IsDefault (expression : List Token) : Prop where
  item : Enclosed (isPunct ',') expression
  element : ∃ inner, skipElement expression = .ok inner ∧ Enclosed startsClause inner

/-- Where balanced tokens are not enclosed, one of them stops outside parentheses. -/
theorem exists_of_level_eq_none {stop : Token → Bool} {d d' : Nat} (h : level never d ts = some d')
    (hnone : level stop d ts = none) : ∃ front m back, ts = front ++ m :: back ∧
      level stop d front = some 0 ∧ stop m = true := by
  induction ts generalizing d with
  | nil => cases hnone
  | cons t ts ih =>
    obtain ⟨ho, h⟩ | ⟨ho, hc, hd, h⟩ | ⟨ho, hc, -, h⟩ := level_cons h
    · rw [level_open ho] at hnone
      obtain ⟨front, m, back, rfl, hfront, hm⟩ := ih h hnone
      exact ⟨t :: front, m, back, rfl, (level_open ho).trans hfront, hm⟩
    · rw [level_close ho hc hd] at hnone
      obtain ⟨front, m, back, rfl, hfront, hm⟩ := ih h hnone
      exact ⟨t :: front, m, back, rfl, (level_close ho hc hd).trans hfront, hm⟩
    · by_cases hs : d = 0 ∧ stop t = true
      · exact ⟨[], t, ts, rfl, congrArg some hs.1, hs.2⟩
      · have ht : d = 0 → stop t = false := fun hd => Bool.eq_false_iff.2 fun h => hs ⟨hd, h⟩
        rw [level_other ho hc ht] at hnone
        obtain ⟨front, m, back, rfl, hfront, hm⟩ := ih h hnone
        exact ⟨t :: front, m, back, rfl, (level_other ho hc ht).trans hfront, hm⟩

/-- The first tokens of enclosed ones are enclosed if they are balanced. -/
theorem Enclosed.of_append {stop stop' : Token → Bool} (h : Enclosed stop (ts ++ us))
    (h' : Enclosed stop' ts) : Enclosed stop ts := by
  rw [Enclosed, level_append] at h
  obtain ⟨d, hd, -⟩ := Option.bind_eq_some_iff.1 h
  have hnever : level never 0 ts = some d := level_mono (fun _ _ hf => by cases hf) hd
  rw [h'.never] at hnever
  rw [Enclosed, hd, hnever]

/-- The first element of balanced tokens is a comma, or none stands outside parentheses in it. -/
theorem enclosed_of_skipElement {inner : List Token} (h : skipElement ts = .ok inner)
    (hbalanced : Enclosed never ts) : ∃ element, ts = element ++ inner ∧
      (∀ more, skipElement (element ++ more) = .ok more) ∧
      (Enclosed (isPunct ',') element ∨ ∃ t : Token, element = [t] ∧ t.isPunct ',' = true) := by
  obtain _ | ⟨t, ts⟩ := ts
  · cases h
  rw [skipElement] at h
  split at h
  · next ho =>
    split at h
    · next inside rest hclose =>
      cases h
      obtain ⟨⟨c, hc, rfl⟩, hinside⟩ := of_closeGroup hclose
      refine ⟨t :: (inside ++ [c]), by simp, fun more => ?_, .inl ?_⟩
      · rw [List.cons_append, List.append_assoc, skipElement, if_pos ho, List.singleton_append,
          closeGroup_enclosed hc hinside]
      · exact Enclosed.group ho hc hinside Enclosed.nil
    · cases h
  · next ho =>
    cases h
    refine ⟨[t], rfl, fun more => by rw [List.singleton_append, skipElement, if_neg ho], ?_⟩
    obtain ⟨ho', -⟩ | ⟨-, -, hd, -⟩ | ⟨ho', hc, -, -⟩ := level_cons hbalanced
    · exact absurd ho' ho
    · exact absurd hd (Nat.lt_irrefl 0)
    · cases ht : t.isPunct ',' with
      | true => exact .inr ⟨t, rfl, ht⟩
      | false => exact .inl (Enclosed.cons ho' hc ht Enclosed.nil)

/-- A balanced expression is a default as a whole, or up to a comma outside parentheses, unless that
    comes first. -/
theorem isDefault_or_comma {expression inner : List Token} (hbalanced : Enclosed never expression)
    (hskip : skipElement expression = .ok inner) (hinner : Enclosed startsClause inner) :
    IsDefault expression ∨ ∃ front m back, expression = front ++ m :: back ∧
      m.isPunct ',' = true ∧ (front = [] ∨ IsDefault front) := by
  obtain ⟨element, rfl, hmore, helement | ⟨t, rfl, ht⟩⟩ := enclosed_of_skipElement hskip hbalanced
  · by_cases hitem : Enclosed (isPunct ',') inner
    · exact .inl ⟨helement.append hitem, inner, hskip, hinner⟩
    · have hinside : Enclosed never inner := by
        rw [Enclosed, level_append, helement.never] at hbalanced
        exact hbalanced
      cases hlevel : level (isPunct ',') 0 inner with
      | none =>
        obtain ⟨front, m, back, rfl, hfront, hm⟩ := exists_of_level_eq_none hinside hlevel
        refine .inr ⟨element ++ front, m, back, by simp, hm, .inr ⟨helement.append hfront, front,
          hmore front, ?_⟩⟩
        exact Enclosed.of_append hinner hfront
      | some d =>
        have hnever : level never 0 inner = some d := level_mono (fun _ _ hf => by cases hf) hlevel
        rw [hinside] at hnever
        exact absurd (hlevel.trans hnever.symm) hitem
  · exact .inr ⟨[], t, inner, rfl, ht, .inl rfl⟩

/-! ## Reading the first column -/

/-- The tokens of a name and a type that open a column: they open no constraint of the table and no
    clause about another table, and the type ends neither at a comma nor at a clause. -/
structure OpensColumn (name : Token) (type : List Token) : Prop where
  identifier : name.isIdentifier = true
  constraint : startsConstraint (name :: type) = false
  other : name.isKeywordOf ["LIKE", "EXCLUDE"] = false
  nonempty : type ≠ []
  item : Enclosed (isPunct ',') type
  clause : Enclosed startsClause type

/-- The definition of a column of a name and a type. -/
def plainDefinition (name : Token) (type : List Token) : ColumnDefinition :=
  { name := name.identifier
    typeText := source type
    typeName := plainTypeName type }

/-- The definition of a column with a default. -/
def definitionWithDefault (name : Token) (type expression : List Token) : ColumnDefinition :=
  { name := name.identifier
    typeText := source type
    typeName := plainTypeName type
    defaultText := some (source expression) }

/-- The tokens of a column: a name, a type and clauses. -/
def columnWith (lay : List Char) (name : Token) (type clauses : List Token) : List Token :=
  name :: (indent lay type ++ clauses)

variable {lay' lay'' : List Char} {name : Token} {type expression : List Token}

theorem isPunct_of_isIdentifier {t : Token} (h : t.isIdentifier = true) (c : Char) :
    t.isPunct c = false := by
  rw [Bool.eq_false_iff]
  intro hp
  simp only [isPunct, Bool.and_eq_true, beq_iff_eq] at hp
  simp [isIdentifier, hp.1] at h

section
variable (hcolumn : OpensColumn name type)
include hcolumn

/-- What stops is a mark, so neither the name nor a type without it stops. -/
theorem enclosed_columnWith {stop : Token → Bool} (hs : Blind stop)
    (hword : ∀ t : Token, t.kind ≠ .punct → stop t = false) (htype : Enclosed stop type)
    (h : Enclosed stop us) : Enclosed stop (columnWith lay name type us) := by
  have hname := isPunct_of_isIdentifier hcolumn.identifier
  have hstop : stop name = false := by
    refine hword name fun hk => ?_
    have := hcolumn.identifier
    rw [isIdentifier, hk] at this
    cases this
  exact Enclosed.cons (hname _) (hname _) hstop ((htype.indent hs).append h)

theorem balanced_columnWith (h : Enclosed never us) : Enclosed never (columnWith lay name type us) :=
  enclosed_columnWith hcolumn blind_never (fun _ _ => rfl) hcolumn.item.never h

/-- A column is one item if its clauses are. -/
theorem item_columnWith (h : Enclosed (isPunct ',') us) :
    Enclosed (isPunct ',') (columnWith lay name type us) :=
  enclosed_columnWith hcolumn (blind_isPunct ',') (fun t ht => by simp [isPunct, ht]) hcolumn.item h

/-- The clauses of a column are those behind its type. -/
theorem readColumn_columnWith (hr : spanElementsFrom startsClause 0 us = some ([], us))
    (table : String) : (readColumn table (columnWith lay name type us)).result =
      match (clauses us).fault with
      | some fault => .error fault
      | none => .ok ((clauses us).clauses.foldl ColumnDraft.apply
          { definition := plainDefinition name type }) := by
  have hspan : spanElements (Token.isKeywordOf clauseKeywords) (indent lay type ++ us) =
      .ok (indent lay type, us) :=
    spanElements_enclosed _ (hcolumn.clause.indent blind_startsClause) hr
  have hempty : (indent lay type).isEmpty = false := by
    rw [List.isEmpty_eq_false_iff]
    exact mt indent_eq_nil.1 hcolumn.nonempty
  rw [columnWith, readColumn]
  simp only [hcolumn.identifier, Bool.not_true, Bool.false_eq_true, if_false, hspan, hempty,
    source_indent, plainTypeName_indent, Action.result_bind, Action.result_ofExcept, Except.bind]
  cases (clauses us).fault <;> rfl

/-- Whether a constraint starts is seen from the name and the first token of the type. -/
theorem startsConstraint_columnWith : startsConstraint (columnWith lay name type us) = false := by
  obtain ⟨t, ts, rfl⟩ := List.exists_cons_of_ne_nil hcolumn.nonempty
  exact hcolumn.constraint

/-- A column is the first one of the body. -/
theorem readBody_columnWith (table : String) (more : List (List Token)) :
    (readBody table [] (columnWith lay name type us :: more)).result =
      (readColumn table (columnWith lay name type us)).result.bind fun draft =>
        (readBody table [Quote.fold draft.definition.name] more).result.map fun b =>
          (draft.definition :: b.1, draft.constraints ++ b.2) := by
  have hlike : atKeyword ["LIKE", "EXCLUDE"] (columnWith lay name type us) = false := hcolumn.other
  rw [readBody]
  simp only [startsConstraint_columnWith hcolumn, hlike, Bool.false_eq_true, if_false,
    Action.result_bind, List.contains_nil]
  cases (readColumn table (columnWith lay name type us)).result with
  | error fault => rfl
  | ok draft =>
    show (readBody table [Quote.fold draft.definition.name] more).result.bind _ =
      (readBody table [Quote.fold draft.definition.name] more).result.map _
    cases (readBody table [Quote.fold draft.definition.name] more).result <;> rfl

end

theorem clauses_default (h : IsDefault expression) :
    clauses (word lay' "DEFAULT" :: indent sp expression) =
      ⟨[(none, .default (source expression))], none⟩ := by
  obtain ⟨inner, hskip, hinner⟩ := h.element
  have hname (ts : List Token) : accept ["CONSTRAINT"] (word lay' "DEFAULT" :: ts) = none := rfl
  have hclause (ts : List Token) : clause (word lay' "DEFAULT" :: ts) =
      (defaultExpression ts).map fun r => (.default r.1, r.2) := rfl
  rw [clauses, List.length_cons, clausesFrom, List.isEmpty_cons, hname, hclause,
    defaultExpression_indent hskip hinner]
  simp only [Except.map, clausesFrom_nil]
  rfl

theorem defaultColumn_eq : defaultColumn lay lay' name type expression =
    columnWith lay name type (word lay' "DEFAULT" :: indent sp expression) := rfl

theorem enclosed_default {stop : Token → Bool} (hs : Blind stop)
    (hword : ∀ t : Token, t.kind ≠ .punct → stop t = false) (h : Enclosed stop expression) :
    Enclosed stop (word lay' "DEFAULT" :: indent sp expression) :=
  Enclosed.cons rfl rfl (hword _ fun hk => by cases hk) (h.indent hs)

section
variable (hcolumn : OpensColumn name type)
include hcolumn

theorem balanced_defaultColumn (h : Enclosed never expression) :
    Enclosed never (defaultColumn lay lay' name type expression) :=
  balanced_columnWith hcolumn (enclosed_default blind_never (fun _ _ => rfl) h)

/-- A column is one item if its default is. -/
theorem item_defaultColumn (h : Enclosed (isPunct ',') expression) :
    Enclosed (isPunct ',') (defaultColumn lay lay' name type expression) :=
  item_columnWith hcolumn
    (enclosed_default (blind_isPunct ',') (fun t ht => by simp [isPunct, ht]) h)

/-- The column is the first one of the body, with its default. -/
theorem readBody_defaultColumn (h : IsDefault expression) (table : String)
    (more : List (List Token)) :
    (readBody table [] (defaultColumn lay lay' name type expression :: more)).result =
      (readBody table [Quote.fold name.identifier] more).result.map fun b =>
        (definitionWithDefault name type expression :: b.1, b.2) := by
  rw [defaultColumn_eq, readBody_columnWith hcolumn, readColumn_columnWith hcolumn rfl,
    clauses_default h]
  rfl

/-- Without an expression behind the keyword the body is refused. -/
theorem readBody_defaultColumn_nil (table : String) (more : List (List Token)) :
    (readBody table [] (defaultColumn lay lay' name type [] :: more)).result =
      .error .unexpectedEnd := by
  have hclauses : clauses (word lay' "DEFAULT" :: indent sp []) = ⟨[], some .unexpectedEnd⟩ := rfl
  rw [defaultColumn_eq, readBody_columnWith hcolumn, readColumn_columnWith hcolumn rfl, hclauses]
  rfl

end

theorem defaultColumn_ne_nil : defaultColumn lay lay' name type expression ≠ [] :=
  List.cons_ne_nil _ _

/-! ## Reading the table -/

/-- The definition of the other column. -/
def otherDefinition : ColumnDefinition :=
  { name := "d", typeText := "int", typeName := some (none, "int") }

/-- The other column may stand behind any column of another name. -/
theorem readBody_otherColumn {folded : String} (h : folded ≠ "d") (table : String) :
    (readBody table [folded] [otherColumn]).result = .ok ([otherDefinition], []) := by
  have hstart : startsConstraint otherColumn = false := rfl
  have hlike : atKeyword ["LIKE", "EXCLUDE"] otherColumn = false := rfl
  have hread : (readColumn table otherColumn).result = .ok { definition := otherDefinition } := rfl
  have hfold : Quote.fold otherDefinition.name = "d" := by decide +kernel
  have hseen : [folded].contains "d" = false := by simpa using h.symm
  simp only [readBody, hstart, hlike, Bool.false_eq_true, if_false, Action.result_bind, hread,
    Except.bind, hfold, hseen]
  rfl

/-- The tokens of a table with a body. -/
def tableWith (lay : List Char) (body : List Token) : List Token :=
  tableHead ++ (body ++ [mark lay ')'])

section
variable {body : List Token} (hbody : Enclosed never body)
include hbody

/-- The statement goes up to the end of the text. -/
theorem statements_tableWith : Token.statements (tableWith lay body) = [tableWith lay body] := by
  have henclosed : Enclosed isSeparator (tableWith lay body) := by
    refine Enclosed.consPlain rfl (Enclosed.consPlain rfl (Enclosed.consPlain rfl ?_))
    exact enclosed_group hbody Enclosed.nil
  have hfrom : statementsFrom 0 (tableWith lay body ++ []) = _ :=
    statementsFrom_append henclosed.closed
  rw [List.append_nil, statementsFrom, consAll_cons, List.append_nil] at hfrom
  rw [Token.statements, hfrom]
  rfl

/-- The statement is read as its body is. -/
theorem readOne_tableWith (index : Nat) : (readOne index (tableWith lay body)).result =
    ((readBody "t" [] (Token.items body)).result.map fun b =>
      [.createTable none "t" b.1 b.2]).mapError fun fault =>
        { fault, statement := some (index, source (tableWith lay body)) } := by
  have hopen (ts : List Token) :
      opening (tableHead ++ ts) = .table (word sp "t" :: mark sp '(' :: ts) := rfl
  have hskip (ts : List Token) :
      skip ["IF", "NOT", "EXISTS"] (word sp "t" :: ts) = word sp "t" :: ts := rfl
  have hname (ts : List Token) : qualifiedName "table name" (word sp "t" :: mark sp '(' :: ts) =
      .ok ((none, "t"), mark sp '(' :: ts) := rfl
  have hmark (ts : List Token) : atPunct '(' (mark sp '(' :: ts) = true := rfl
  have hgroup := group_enclosed [] (o := mark sp '(') (c := mark lay ')') rfl rfl hbody
  rw [readOne, tableWith, hopen]
  dsimp only
  rw [strict, Action.result_adapt]
  refine congrArg _ ?_
  unfold readTable
  simp only [hskip, List.isEmpty_cons, Bool.false_eq_true, if_false, hname, hmark, if_true, hgroup,
    Action.result_bind, Action.result_ofExcept, Except.bind]
  cases (readBody "t" [] (Token.items body)).result <;> rfl

/-- The text is read as its body is. -/
theorem readAll_tableWith {text : String} {columns : List ColumnDefinition}
    {constraints : List Constraint} (hscan : scanList text.toList = .ok (tableWith lay body, [])) :
    (readAll text).result = .ok [.createTable none "t" columns constraints] ↔
      (readBody "t" [] (Token.items body)).result = .ok (columns, constraints) := by
  have htokens : Statement.scan text = .ok (tableWith lay body) := by
    rw [Statement.scan, Token.scan, hscan]
    rfl
  rw [readAll, Action.result_bind, Action.result_ofExcept, htokens, Except.bind,
    statements_tableWith hbody, readFrom, Action.result_bind, Action.result_within,
    readOne_tableWith hbody]
  cases (readBody "t" [] (Token.items body)).result with
  | error fault => exact iff_of_false (fun h => by cases h) (fun h => by cases h)
  | ok b =>
    obtain ⟨columns', constraints'⟩ := b
    show Except.ok ([Statement.createTable none "t" columns' constraints'] ++ []) = Except.ok _ ↔ _
    simp

end

/-- The tokens between the parentheses. -/
def defaultBody (lay : List Char) (column : List Token) : List Token :=
  column ++ mark lay ',' :: otherColumn

theorem defaultTable_eq (lay : List Char) (column : List Token) :
    defaultTable lay column = tableWith [] (defaultBody lay column) := by
  simp [defaultTable, tableWith, defaultBody]

theorem enclosed_defaultBody {column : List Token} (h : Enclosed never column) (lay : List Char) :
    Enclosed never (defaultBody lay column) := h.append rfl

/-- The first item of the body ends at the first comma outside parentheses. -/
theorem items_comma {column back : List Token} {m : Token} (hm : m.isPunct ',' = true)
    (hne : column ≠ []) (h : Enclosed (isPunct ',') column) :
    Token.items (column ++ m :: back) = column :: Token.items back := by
  have hmark : itemsFrom ',' 0 (m :: back) = [] :: itemsFrom ',' 0 back := by
    rw [itemsFrom, if_neg (by simp [isPunct_ne hm (by decide : ',' ≠ '(')]),
      if_neg (by simp [isPunct_ne hm (by decide : ',' ≠ ')')]), if_pos (by simp [hm])]
  have hitems := itemsFrom_append (m :: back) h
  rw [Int.natCast_zero, hmark, consAll_cons, List.append_nil] at hitems
  rw [Token.items, hitems]
  simp [Token.items, hne]

/-- A default with a comma outside parentheses is cut off there. -/
theorem readBody_comma {front back : List Token} {m : Token} {columns : List ColumnDefinition}
    (hcolumn : OpensColumn name type) (hm : m.isPunct ',' = true)
    (hfront : front = [] ∨ IsDefault front)
    (hread : (readBody "t" [] (Token.items (defaultBody lay''
      (defaultColumn lay lay' name type (front ++ m :: back))))).result = .ok (columns, [])) :
    columns.head? = some (definitionWithDefault name type front) ∧ front ≠ [] := by
  have hbody : ∃ m' : Token, m'.isPunct ',' = true ∧
      defaultBody lay'' (defaultColumn lay lay' name type (front ++ m :: back)) =
        defaultColumn lay lay' name type front ++ m' :: (back ++ mark lay'' ',' :: otherColumn) := by
    cases front with
    | nil =>
      exact ⟨{ m with layout := sp ++ m.layout }, hm, by simp [defaultBody, defaultColumn, indent]⟩
    | cons t ts => exact ⟨m, hm, by simp [defaultBody, defaultColumn, indent]⟩
  obtain ⟨m', hm', hbody⟩ := hbody
  have henclosed : Enclosed (isPunct ',') front := by
    obtain rfl | h := hfront
    · exact Enclosed.nil
    · exact h.item
  rw [hbody, items_comma hm' defaultColumn_ne_nil (item_defaultColumn hcolumn henclosed)] at hread
  obtain rfl | h := hfront
  · rw [readBody_defaultColumn_nil hcolumn] at hread
    cases hread
  · rw [readBody_defaultColumn hcolumn h] at hread
    obtain ⟨⟨columns', constraints⟩, -, hb⟩ := Action.map_ok hread
    cases hb
    refine ⟨rfl, ?_⟩
    rintro rfl
    obtain ⟨inner, hskip, -⟩ := h.element
    cases hskip

/-- **Defaults are taken whole.** A table has a column of a name, a type and a default, and a column
    `d`. The default is an expression with balanced parentheses, and no clause starts outside of them
    after its first element. The table is read with just these two columns and the text of the
    expression as the default of the first one if and only if no comma in the expression stands
    outside parentheses. -/
theorem readAll_tableText {nameText typeText text : String} {inner : List Token}
    (hname : Scans nameText [name]) (htype : Scans typeText type) (htext : Scans text expression)
    (hcolumn : OpensColumn name type) (hother : Quote.fold name.identifier ≠ "d")
    (hbalanced : Enclosed never expression) (hskip : skipElement expression = .ok inner)
    (hinner : Enclosed startsClause inner) :
    (readAll (tableText nameText typeText text)).result = .ok [.createTable none "t"
        [definitionWithDefault name type expression, otherDefinition] []] ↔
      Enclosed (isPunct ',') expression := by
  have hne : expression ≠ [] := by
    rintro rfl
    cases hskip
  obtain ⟨lay, lay', lay'', hscan⟩ := scan_tableText hname htype htext hcolumn.nonempty hne
  rw [defaultTable_eq] at hscan
  rw [readAll_tableWith (enclosed_defaultBody (balanced_defaultColumn hcolumn hbalanced) lay'') hscan]
  constructor
  · intro hread
    obtain h | ⟨front, m, back, rfl, hm, hfront⟩ := isDefault_or_comma hbalanced hskip hinner
    · exact h.item
    · obtain ⟨hhead, hne⟩ := readBody_comma hcolumn hm hfront hread
      have hsource := congrArg ColumnDefinition.defaultText (Option.some.inj hhead)
      exact absurd (Option.some.inj hsource) (source_append_ne hne hm)
  · intro hitem
    have hdefault : IsDefault expression := ⟨hitem, inner, hskip, hinner⟩
    have hcomma : (mark lay'' ',').isPunct ',' = true := rfl
    have hitems : Token.items otherColumn = [otherColumn] := rfl
    rw [defaultBody, items_comma hcomma defaultColumn_ne_nil (item_defaultColumn hcolumn hitem),
      hitems, readBody_defaultColumn hcolumn hdefault, readBody_otherColumn hother]
    rfl

theorem scans_of_toOption (h : (scanList s.toList).toOption = some (ts, [])) : Scans s ts :=
  ⟨[], toOption_eq_some.1 h, .nil⟩

theorem scans_rawTokens (h : IsRaw s) : Scans s (rawTokens s) := ⟨[], h.scan.2, .nil⟩

/-- A text with tokens up to its end. -/
theorem isRaw_of_any
    (h : (scanList s.toList).toOption.any (fun r => !r.1.isEmpty && r.2.isEmpty) = true) :
    IsRaw s := by
  obtain ⟨⟨ts, closing⟩, hscan, hr⟩ := exists_ok_of_any h
  rw [Bool.and_eq_true, List.isEmpty_iff] at hr
  obtain ⟨hne, rfl⟩ := hr
  exact ⟨ts, by simpa using hne, hscan⟩

/-- A call with commas in a literal, in an inner call and in square brackets, and a cast of it. -/
def nestedDefault : String := "coalesce(f('a, b', 2), (ARRAY[1, 2])) :: text"

/-- It is taken whole. -/
theorem readAll_tableText_nestedDefault :
    (readAll (tableText "\"Unit\"" "varchar(20)" nestedDefault)).result = .ok [.createTable none "t"
      [{ name := "Unit", typeText := "varchar(20)", defaultText := some nestedDefault },
        otherDefinition] []] := by
  have hname : Scans "\"Unit\"" [nameToken [] "Unit"] := scans_of_toOption (by decide +kernel)
  have htype := scans_rawTokens (s := "varchar(20)") (isRaw_of_any (by decide +kernel))
  have htext := scans_rawTokens (s := nestedDefault) (isRaw_of_any (by decide +kernel))
  have hcolumn : OpensColumn (nameToken [] "Unit") (rawTokens "varchar(20)") := by
    constructor
    case item => rw [Enclosed]; decide +kernel
    case clause => rw [Enclosed]; decide +kernel
    all_goals decide +kernel
  have hother : Quote.fold (nameToken [] "Unit").identifier ≠ "d" := by decide +kernel
  have hbalanced : Enclosed never (rawTokens nestedDefault) := by rw [Enclosed]; decide +kernel
  have hskip : skipElement (rawTokens nestedDefault) = .ok (rawTokens nestedDefault).tail := by
    rw [← toOption_eq_some]
    decide +kernel
  have hinner : Enclosed startsClause (rawTokens nestedDefault).tail := by
    rw [Enclosed]
    decide +kernel
  have hitem : Enclosed (isPunct ',') (rawTokens nestedDefault) := by rw [Enclosed]; decide +kernel
  have hdefinition : definitionWithDefault (nameToken [] "Unit") (rawTokens "varchar(20)")
      (rawTokens nestedDefault) =
      { name := "Unit", typeText := "varchar(20)", defaultText := some nestedDefault } := by
    decide +kernel
  rw [← hdefinition]
  exact (readAll_tableText hname htype htext hcolumn hother hbalanced hskip hinner).2 hitem

/-- Parentheses and square brackets are balanced, and no comma stands outside of them; `closing` are
    the marks that close those which are open. -/
def bracketed (closing : List Char) : List Token → Bool
  | [] => closing.isEmpty
  | t :: ts =>
    if t.isPunct '(' then bracketed (')' :: closing) ts
    else if t.isPunct '[' then bracketed (']' :: closing) ts
    else if t.isPunct ')' || t.isPunct ']' then
      closing.head?.any (t.isPunct ·) && bracketed closing.tail ts
    else !(t.isPunct ',' && closing.isEmpty) && bracketed closing ts

/-- A comma in square brackets ends the column: what is left of the list is no column, and the table is
    refused. -/
theorem not_readAll_listed :
    Scans "ARRAY[1, 2]" (rawTokens "ARRAY[1, 2]") ∧ bracketed [] (rawTokens "ARRAY[1, 2]") = true ∧
      Enclosed startsClause (rawTokens "ARRAY[1, 2]") ∧
      ∃ e, (readAll (tableText "c" "int[]" "ARRAY[1, 2]")).result = .error e := by
  refine ⟨scans_rawTokens (isRaw_of_any (by decide +kernel)), by decide +kernel, ?_, ?_⟩
  · rw [Enclosed]
    decide +kernel
  · rw [← toOption_eq_none]
    decide +kernel

end Schemata
