/-
  Reading statements without comments.

  * `Statement.Same` are statements that are the same up to comments in their texts;
  * `Strips.readTable`, `Strips.readType`, `Strips.readChange`, `Strips.readIndex` and
    `Strips.readComment`: each kind of statement is read alike without its comments, and
    `Strips.readOne` puts them together;
  * `readAll_strip`: without dollar-quoted literals, a document that is read is read without its
    comments too, as the same statements.
-/
import Schemata.Proofs.ParsedStatements
import Schemata.Proofs.Stripped

namespace Schemata

open Token Cursor Statement Log Written

variable {ts ts' : List Token} {items items' : List (List Token)}

/-- Pieces of tokens, with and without their comments. -/
abbrev StripsAll : List (List Token) → List (List Token) → Prop :=
  List.Forall₂ fun us us' => us ≠ [] ∧ Strips us us'

/-! ## Tables -/

namespace Token

theorem Strips.startsConstraint (h : Strips ts ts') :
    startsConstraint ts' = startsConstraint ts := by
  rw [h.eq]
  cases ts with
  | nil => rfl
  | cons t rest =>
    have hrest := h.of_run (List.suffix_cons t rest).isInfix
    rw [List.map_cons, Statement.startsConstraint, Statement.startsConstraint, hrest.atPunct,
      hrest.atKeyword, hrest.atKeyword]
    rfl

theorem Strips.plainTypeName (h : Strips ts ts') : plainTypeName ts' = plainTypeName ts := by
  unfold Statement.plainTypeName
  rcases h.nameParts "type name" with ⟨⟨parts, rest⟩, ⟨parts', rest'⟩, h₁, h₂, hparts, hrest⟩ |
      ⟨e, e', h₁, h₂⟩ <;> rw [h₁, h₂]
  dsimp only at hparts hrest
  subst hparts
  rw [hrest.eq]
  cases rest <;> rfl

theorem Strips.readColumn (h : Strips ts ts') (table : String) :
    Alike ColumnDraft.Same (readColumn table ts).result (readColumn table ts').result := by
  rw [h.eq]
  cases ts with
  | nil => exact .error
  | cons t rest =>
    have hrest := h.of_run (List.suffix_cons t rest).isInfix
    have hblind : Blind (isKeywordOf clauseKeywords) := fun _ _ _ _ => rfl
    rw [List.map_cons]
    unfold Statement.readColumn
    dsimp only
    rw [stripped_isIdentifier, stripped_identifier]
    split
    · exact .error
    rw [Action.result_bind, Action.result_bind]
    refine (hrest.spanElements hblind).bind ?_
    rintro ⟨type, more⟩ ⟨type', more'⟩ ⟨htype, hmore⟩
    dsimp only at htype hmore ⊢
    obtain ⟨hclauses, hfault⟩ := hmore.clauses
    rw [htype.isEmpty]
    split
    · exact .error
    rw [Action.result_bind, Action.result_bind, Action.result_monadLift, Action.result_monadLift,
      Except.bind, Except.bind, htype.plainTypeName, htype.source]
    cases hf : (Schemata.clauses more).fault with
    | some fault =>
      rw [hf, Option.isSome_some] at hfault
      obtain ⟨fault', hf'⟩ := Option.isSome_iff_exists.1 hfault
      rw [hf']
      exact .error
    | none =>
      rw [hf, Option.isSome_none, Option.isSome_eq_false_iff, Option.isNone_iff_eq_none] at hfault
      rw [hfault]
      refine .ok (same_foldl_apply hclauses ⟨?_, .nil⟩)
      exact ⟨rfl, rfl, rfl, rfl, rfl, rfl, rfl, .none⟩

end Token

theorem alike_readBody {table : String} {seen : List String} (h : StripsAll items items') :
    Alike (Pairs (List.Forall₂ ColumnDefinition.Same) (List.Forall₂ Constraint.Same))
      (readBody table seen items).result (readBody table seen items').result := by
  induction h generalizing seen with
  | nil => exact .ok ⟨.nil, .nil⟩
  | @cons us us' items items' hu _ ih =>
    have hus := hu.2
    rw [readBody, readBody, hus.startsConstraint, hus.atKeyword]
    split
    · rw [Action.result_bind, Action.result_bind]
      refine hus.tableConstraint.bind fun c c' hc => ?_
      rw [Action.result_bind, Action.result_bind]
      refine ih.bind ?_
      rintro ⟨columns, constraints⟩ ⟨columns', constraints'⟩ ⟨hcolumns, hconstraints⟩
      refine .ok ⟨hcolumns, List.rel_append ?_ hconstraints⟩
      cases hc with
      | none => exact .nil
      | some hc => exact .cons hc .nil
    split
    · rw [Action.result_bind, Action.result_bind]
      exact ih
    · rw [Action.result_bind, Action.result_bind]
      refine (hus.readColumn table).bind fun d d' hd => ?_
      dsimp only
      rw [hd.definition.name]
      split
      · exact .error
      rw [Action.result_bind, Action.result_bind]
      refine ih.bind ?_
      rintro ⟨columns, constraints⟩ ⟨columns', constraints'⟩ ⟨hcolumns, hconstraints⟩
      exact .ok ⟨.cons hd.definition hcolumns, List.rel_append hd.constraints hconstraints⟩

/-! ## Statements -/

/-- The same index up to comments in its columns and its condition; its name may come from them. -/
structure Index.Same (i i' : Index) : Prop where
  columns : i'.columns = i.columns.map Comment.strip
  unique : i'.unique = i.unique
  method : i'.method = i.method
  condition : i'.condition = i.condition.map Comment.strip

/-- The same statement up to comments in its texts. -/
inductive Statement.Same : Statement → Statement → Prop
  | createTable {schema : Option String} {name : String} {columns columns' : List ColumnDefinition}
      {constraints constraints' : List Constraint}
      (hcolumns : List.Forall₂ ColumnDefinition.Same columns columns')
      (hconstraints : List.Forall₂ Constraint.Same constraints constraints') :
      Same (.createTable schema name columns constraints)
        (.createTable schema name columns' constraints')
  | createEnum (schema : Option String) (name : String) (values : List String) :
      Same (.createEnum schema name values) (.createEnum schema name values)
  | addConstraint {schema : Option String} {table : String} {c c' : Constraint} (h : c.Same c') :
      Same (.addConstraint schema table c) (.addConstraint schema table c')
  | createIndex {schema : Option String} {table : String} {i i' : Index} (h : i.Same i') :
      Same (.createIndex schema table i) (.createIndex schema table i')
  | comment (schema : Option String) (table : String) (column text : Option String) :
      Same (.comment schema table column text) (.comment schema table column text)

/-- The same statements up to comments in their texts. -/
abbrev SameStatements : List Statement → List Statement → Prop := List.Forall₂ Statement.Same

namespace Token

theorem Strips.readTable (h : Strips ts ts') :
    Alike SameStatements (readTable ts).result (readTable ts').result := by
  unfold Statement.readTable
  dsimp only
  have hskip := h.skip ["IF", "NOT", "EXISTS"]
  rw [hskip.isEmpty]
  split
  · exact .error
  rw [Action.result_bind, Action.result_bind]
  refine (hskip.qualifiedName "table name").bind ?_
  rintro ⟨⟨schema, name⟩, rest⟩ ⟨⟨schema', name'⟩, rest'⟩ ⟨hname, hrest⟩
  cases hname
  dsimp only at hrest ⊢
  rw [hrest.atPunct, hrest.atKeyword]
  split
  · rw [Action.result_bind, Action.result_bind]
    refine hrest.group.bind ?_
    rintro ⟨body, more⟩ ⟨body', more'⟩ ⟨hbody, -⟩
    dsimp only
    rw [Action.result_bind, Action.result_bind]
    refine (alike_readBody hbody.items).bind ?_
    rintro ⟨columns, constraints⟩ ⟨columns', constraints'⟩ ⟨hcolumns, hconstraints⟩
    exact .ok (.cons (.createTable hcolumns hconstraints) .nil)
  split
  · exact .ok .nil
  · exact .error

end Token

theorem readValues_strips {name : String} {seen : List String} (h : StripsAll items items') :
    readValues name seen items' = readValues name seen items := by
  induction h generalizing seen with
  | nil => rfl
  | @cons us us' items items' hu _ ih =>
    rw [hu.2.eq]
    match us, hu.1 with
    | [t], _ =>
      rw [List.map_cons, List.map_nil, readValues, readValues]
      dsimp only
      rw [ih]
      rfl
    | t :: u :: us, _ => rfl

namespace Token

theorem Strips.readType (h : Strips ts ts') :
    Alike SameStatements (readType ts) (readType ts') := by
  unfold Statement.readType
  dsimp only
  have hskip := h.skip ["IF", "NOT", "EXISTS"]
  rw [hskip.isEmpty]
  split
  · exact .error
  refine (hskip.qualifiedName "type name").bind ?_
  rintro ⟨⟨schema, name⟩, rest⟩ ⟨⟨schema', name'⟩, rest'⟩ ⟨hname, hrest⟩
  cases hname
  dsimp only at hrest ⊢
  rcases hrest.accept ["AS", "ENUM"] with ⟨more, more', h₁, h₂, hmore⟩ | ⟨h₁, h₂⟩ <;>
    simp only [h₁, h₂]
  · rw [hmore.atPunct]
    split
    · refine hmore.group.bind ?_
      rintro ⟨inside, last⟩ ⟨inside', last'⟩ ⟨hinside, -⟩
      dsimp only at hinside ⊢
      rw [readValues_strips hinside.items]
      cases readValues name [] (Token.items inside) with
      | error e => exact .error
      | ok values => exact .ok (.cons (.createEnum schema name values) .nil)
    · exact .error
  · exact .ok .nil

theorem Strips.readAction (h : Strips ts ts') (schema : Option String) (table : String) :
    Alike SameStatements (readAction schema table ts) (readAction schema table ts') := by
  unfold Statement.readAction
  rcases h.accept ["ADD"] with ⟨rest, rest', h₁, h₂, hrest⟩ | ⟨h₁, h₂⟩ <;> simp only [h₁, h₂]
  · refine hrest.tableConstraint.map fun c c' hc => ?_
    cases hc with
    | none => exact .nil
    | some hc => exact .cons (.addConstraint hc) .nil
  · exact .ok .nil

end Token

theorem alike_readActions {schema : Option String} {table : String} (h : StripsAll items items') :
    Alike SameStatements (readActions schema table items) (readActions schema table items') := by
  induction h with
  | nil => exact .ok .nil
  | cons hu _ ih =>
    refine (hu.2.readAction schema table).bind fun l l' hl => ?_
    exact ih.bind fun r r' hr => .ok (List.rel_append hl hr)

namespace Token

theorem Strips.readChange (h : Strips ts ts') :
    Alike SameStatements (readChange ts) (readChange ts') := by
  refine (((h.skip ["IF", "EXISTS"]).skip ["ONLY"]).qualifiedName "table name").bind ?_
  rintro ⟨⟨schema, table⟩, rest⟩ ⟨⟨schema', table'⟩, rest'⟩ ⟨hname, hrest⟩
  cases hname
  exact alike_readActions hrest.items

theorem Strips.indexName (h : Strips ts ts') :
    Alike (Pairs Eq Strips) (indexName ts) (indexName ts') := by
  unfold Statement.indexName
  rw [h.atKeyword]
  split
  · exact .ok ⟨rfl, h⟩
  · exact (h.expectName "index name").map fun x x' hx => ⟨congrArg some hx.1, hx.2⟩

theorem Strips.indexMethod (h : Strips ts ts') :
    Alike (Pairs Eq Strips) (indexMethod ts) (indexMethod ts') := by
  unfold Statement.indexMethod
  rcases h.accept ["USING"] with ⟨rest, rest', h₁, h₂, hrest⟩ | ⟨h₁, h₂⟩ <;> simp only [h₁, h₂]
  · refine hrest.advance.map ?_
    rintro ⟨t, more⟩ ⟨t', more'⟩ ⟨ht, hmore⟩
    dsimp only at ht
    subst ht
    exact ⟨rfl, hmore⟩
  · exact .ok ⟨rfl, h⟩

theorem Strips.mapSource (h : Strips ts ts') : (Token.items ts').map Token.source =
    ((Token.items ts).map Token.source).map Comment.strip := by
  have hitems := h.items
  generalize Token.items ts = pieces at hitems ⊢
  generalize Token.items ts' = pieces' at hitems ⊢
  induction hitems with
  | nil => rfl
  | cons hu _ ih => rw [List.map_cons, hu.2.source, ih]; rfl

theorem Strips.readIndex (h : Strips ts ts') :
    Alike SameStatements (readIndex ts) (readIndex ts') := by
  have hblind : Blind (isKeyword "WHERE") := fun _ _ _ _ => rfl
  have hunique : (Cursor.accept ["UNIQUE"] ts').isSome = (Cursor.accept ["UNIQUE"] ts).isSome := by
    rcases h.accept ["UNIQUE"] with ⟨rest, rest', h₁, h₂, -⟩ | ⟨h₁, h₂⟩ <;> rw [h₁, h₂]
    rfl
  have hskip := (((h.skip ["UNIQUE"]).skip ["INDEX"]).skip ["CONCURRENTLY"]).skip
    ["IF", "NOT", "EXISTS"]
  unfold Statement.readIndex
  dsimp only
  rw [hunique]
  refine hskip.indexName.bind ?_
  rintro ⟨name, rest⟩ ⟨name', rest'⟩ ⟨hname, hrest⟩
  cases hname
  dsimp only at hrest ⊢
  rcases hrest.accept ["ON"] with ⟨more, more', h₁, h₂, hmore⟩ | ⟨h₁, h₂⟩ <;> simp only [h₁, h₂]
  · refine ((hmore.skip ["ONLY"]).qualifiedName "table name").bind ?_
    rintro ⟨⟨schema, table⟩, rest⟩ ⟨⟨schema', table'⟩, rest'⟩ ⟨hname, hrest⟩
    cases hname
    refine hrest.indexMethod.bind ?_
    rintro ⟨method, rest⟩ ⟨method', rest'⟩ ⟨hmethod, hrest⟩
    cases hmethod
    dsimp only at hrest ⊢
    rw [hrest.atPunct]
    split
    · exact .error
    refine hrest.group.bind ?_
    rintro ⟨inside, rest⟩ ⟨inside', rest'⟩ ⟨hinside, hrest⟩
    dsimp only at hinside hrest ⊢
    rw [hinside.mapSource, List.isEmpty_map (f := Comment.strip)]
    split
    · exact .error
    refine (hrest.spanElements hblind).bind ?_
    rintro ⟨front, rest⟩ ⟨front', rest'⟩ ⟨-, hrest⟩
    dsimp only at hrest ⊢
    refine .ok (.cons (.createIndex ⟨rfl, rfl, rfl, ?_⟩) .nil)
    rcases hrest.accept ["WHERE"] with ⟨more, more', h₁, h₂, hmore⟩ | ⟨h₁, h₂⟩ <;> rw [h₁, h₂]
    · exact congrArg some hmore.source
    · rfl
  · exact .error

theorem Strips.readCommentTarget (h : Strips ts ts') :
    Alike (Option.Rel (Pairs Eq Strips)) (readCommentTarget ts) (readCommentTarget ts') := by
  unfold Statement.readCommentTarget
  rcases h.accept ["TABLE"] with ⟨rest, rest', h₁, h₂, hrest⟩ | ⟨h₁, h₂⟩ <;> simp only [h₁, h₂]
  · refine (hrest.qualifiedName "table name").bind ?_
    rintro ⟨⟨schema, table⟩, more⟩ ⟨⟨schema', table'⟩, more'⟩ ⟨hname, hmore⟩
    cases hname
    exact .ok (.some ⟨rfl, hmore⟩)
  rcases h.accept ["COLUMN"] with ⟨rest, rest', h₁, h₂, hrest⟩ | ⟨h₁, h₂⟩ <;> simp only [h₁, h₂]
  · refine (hrest.nameParts "column name").bind ?_
    rintro ⟨parts, more⟩ ⟨parts', more'⟩ ⟨hparts, hmore⟩
    cases hparts
    dsimp only
    split
    · exact .ok (.some ⟨rfl, hmore⟩)
    · exact .error
  · exact .ok .none

theorem Strips.readComment (h : Strips ts ts') :
    Alike SameStatements (readComment ts) (readComment ts') := by
  refine h.readCommentTarget.bind fun x x' hx => ?_
  cases hx with
  | none => exact .ok .nil
  | @some x x' hx =>
    obtain ⟨⟨schema, table, column⟩, rest⟩ := x
    obtain ⟨target', rest'⟩ := x'
    obtain ⟨htarget, hrest⟩ := hx
    cases htarget
    dsimp only at hrest ⊢
    rcases hrest.accept ["IS"] with ⟨more, more', h₁, h₂, hmore⟩ | ⟨h₁, h₂⟩ <;> simp only [h₁, h₂]
    · refine hmore.advance.bind ?_
      rintro ⟨t, last⟩ ⟨t', last'⟩ ⟨ht, -⟩
      dsimp only at ht
      subst ht
      show Alike SameStatements (if t.isKeyword "NULL" then _ else if t.kind = .string then _ else _)
        (if t.isKeyword "NULL" then _ else if t.kind = .string then _ else _)
      split
      · exact .ok (.cons (.comment schema table column none) .nil)
      split
      · exact .ok (.cons (.comment schema table column (some t.stringValue)) .nil)
      · exact .error
    · exact .error

end Token

/-! ## Documents -/

/-- The same kind of statement, with what is left of the tokens after its keywords. -/
inductive Statement.Opening.Strips : Opening → Opening → Prop
  | index {rest rest' : List Token} (h : Token.Strips rest rest') :
      Strips (.index rest) (.index rest')
  | table {rest rest' : List Token} (h : Token.Strips rest rest') :
      Strips (.table rest) (.table rest')
  | type {rest rest' : List Token} (h : Token.Strips rest rest') :
      Strips (.type rest) (.type rest')
  | change {rest rest' : List Token} (h : Token.Strips rest rest') :
      Strips (.change rest) (.change rest')
  | comment {rest rest' : List Token} (h : Token.Strips rest rest') :
      Strips (.comment rest) (.comment rest')
  | other : Strips .other .other

namespace Token

theorem Strips.skipKeyword (h : Strips ts ts') (words : List String) :
    Strips (skipKeyword words ts) (skipKeyword words ts') := by
  unfold Statement.skipKeyword
  rw [h.atKeyword]
  split
  · have htail := h.of_run (List.tail_suffix ts).isInfix
    rwa [List.map_tail, ← h.eq] at htail
  · exact h

theorem Strips.opening (h : Strips ts ts') : (opening ts).Strips (opening ts') := by
  unfold Statement.opening
  rcases h.accept ["CREATE"] with ⟨rest, rest', h₁, h₂, hrest⟩ | ⟨h₁, h₂⟩ <;> simp only [h₁, h₂]
  · rw [hrest.atKeyword]
    split
    · exact .index hrest
    have hskip := (hrest.skipKeyword ["GLOBAL", "LOCAL"]).skipKeyword
      ["TEMP", "TEMPORARY", "UNLOGGED"]
    rcases hskip.accept ["TABLE"] with ⟨more, more', h₃, h₄, hmore⟩ | ⟨h₃, h₄⟩ <;>
      simp only [h₃, h₄]
    · exact .table hmore
    rcases hskip.accept ["TYPE"] with ⟨more, more', h₃, h₄, hmore⟩ | ⟨h₃, h₄⟩ <;>
      simp only [h₃, h₄]
    · exact .type hmore
    · exact .other
  rcases h.accept ["ALTER", "TABLE"] with ⟨rest, rest', h₁, h₂, hrest⟩ | ⟨h₁, h₂⟩ <;>
    simp only [h₁, h₂]
  · exact .change hrest
  rcases h.accept ["COMMENT", "ON"] with ⟨rest, rest', h₁, h₂, hrest⟩ | ⟨h₁, h₂⟩ <;>
    simp only [h₁, h₂]
  · exact .comment hrest
  · exact .other

end Token

theorem alike_lenient {index : Nat} {x y : Except ParseFault (List Statement)}
    (h : Alike SameStatements x y) :
    Alike SameStatements (lenient index x).result (lenient index y).result := by
  rcases h with ⟨a, a', rfl, rfl, hR⟩ | ⟨e, e', rfl, rfl⟩
  · exact .ok hR
  · exact .ok .nil

theorem alike_strict {index : Nat} {x y : Action ParseFault (List Statement)}
    (h : Alike SameStatements x.result y.result) :
    Alike SameStatements (strict index ts x).result (strict index ts' y).result := by
  rw [strict, strict, Action.result_adapt, Action.result_adapt]
  rcases h with ⟨a, a', ha, ha', hR⟩ | ⟨e, e', he, he'⟩
  · rw [ha, ha']
    exact .ok hR
  · rw [he, he']
    exact .error

theorem Token.Strips.readOne (h : Strips ts ts') (index : Nat) :
    Alike SameStatements (readOne index ts).result (readOne index ts').result := by
  have hopening := h.opening
  unfold Statement.readOne
  generalize Statement.opening ts = o at hopening ⊢
  generalize Statement.opening ts' = o' at hopening ⊢
  cases hopening with
  | index hrest => exact alike_lenient hrest.readIndex
  | table hrest => exact alike_strict hrest.readTable
  | type hrest => exact alike_strict hrest.readType
  | change hrest => exact alike_lenient hrest.readChange
  | comment hrest => exact alike_lenient hrest.readComment
  | other => exact .ok .nil

theorem alike_readFrom {index : Nat} (h : StripsAll items items') :
    Alike SameStatements (readFrom index items).result (readFrom index items').result := by
  induction h generalizing index with
  | nil => exact .ok .nil
  | cons hu _ ih =>
    rw [readFrom, readFrom, Action.result_bind, Action.result_bind, Action.result_within,
      Action.result_within]
    refine (hu.2.readOne index).bind fun l l' hl => ?_
    rw [Action.result_bind, Action.result_bind]
    exact ih.bind fun r r' hr => .ok (List.rel_append hl hr)

theorem rescans_of_scan {text : String} (h : Token.scan text = .ok ts) : Rescans ts [] := by
  obtain ⟨⟨us, closing⟩, hlist, rfl⟩ := except_map_eq_ok h
  exact (rescans_of_scanList hlist).1.of_run List.infix_rfl

/-- The document has no literals between dollar tags. -/
def NoDollarQuotes (text : String) : Prop :=
  ∀ ts, Token.scan text = .ok ts → ∀ t ∈ ts, t.isDollarQuoted = false

instance (text : String) : Decidable (NoDollarQuotes text) :=
  match h : Token.scan text with
  | .error e => .isTrue fun ts hts => by rw [h] at hts; cases hts
  | .ok us => decidable_of_iff (∀ t ∈ us, t.isDollarQuoted = false)
      ⟨fun hus ts hts => by rw [h] at hts; cases hts; exact hus, fun hall => hall us h⟩

/-- **Reading without comments.** A document that is read is read without its comments too, and it
    says the same up to comments. -/
theorem readAll_strip {text : String} {statements : List Statement} (hd : NoDollarQuotes text)
    (h : (readAll text).result = .ok statements) :
    ∃ statements', (readAll (Comment.strip text)).result = .ok statements' ∧
      SameStatements statements statements' := by
  obtain ⟨ts, hscan, h⟩ := Action.result_bind_ok h
  rw [Action.result_ofExcept, Statement.scan] at hscan
  cases hts : Token.scan text with
  | error e =>
    rw [hts] at hscan
    cases hscan
  | ok us =>
    rw [hts] at hscan
    cases hscan
    have hstrips : Strips ts (ts.map stripped) := ⟨rescans_of_scan hts, hd ts hts, rfl⟩
    obtain ⟨statements', hread, hsame⟩ := (alike_readFrom hstrips.statements).of_ok h
    refine ⟨statements', ?_, hsame⟩
    rw [readAll, Action.result_bind, Action.result_ofExcept, Statement.scan,
      scan_strip hts (hd ts hts)]
    exact hread

end Schemata
