/-
  The indexes of the tables of a document.

  * `IndexDeclaration` is a statement that creates an index, with the name that the statement gives it
    kept apart from the one that is made up; `declarations` are those of a document, and no other
    statement adds an index (`indexEdits_of_readFrom`);
  * `lastNamed` and `lastOwnNamed` leave of declarations of one name the last one, whoever gave the
    name, or if the statements gave it;
  * `indexes_ofDocument`: the indexes of a table are those of the last declarations of each name, and
    no declaration is lost to another one just if the names of those that should stay are distinct;
  * `not_lastOwnNamed_expressions`: a second index on an expression takes the place of the first.
-/
import Mathlib.Data.List.Induction
import Mathlib.Data.List.Pairwise
import Schemata.Proofs.ParsedStatements
import Schemata.Proofs.Redefining

namespace Schemata

open Cursor Log Statement

/-! ## Items that replace earlier ones -/

section
variable {α : Type} {r s : α → α → Prop} [DecidableRel r] [DecidableRel s]

/-- A new last item is kept, and of those before it the ones that go with it. -/
theorem pwFilter_concat (hr : ∀ x y z, r x z → r x y ∨ r y z) (l : List α) (b : α) :
    (l ++ [b]).pwFilter r = (l.pwFilter r).filter (r · b) ++ [b] := by
  induction l with
  | nil => rfl
  | cons a l ih =>
    rw [List.cons_append]
    by_cases hab : r a b
    · by_cases ha : ∀ x ∈ l.pwFilter r, r a x
      · rw [List.pwFilter_cons_of_pos ha, List.filter_cons_of_pos (by simpa using hab)]
        rw [List.pwFilter_cons_of_pos, ih, List.cons_append]
        rw [ih, List.forall_mem_append]
        exact ⟨fun x hx => ha x (List.mem_filter.1 hx).1, by simpa using hab⟩
      · rw [List.pwFilter_cons_of_neg ha, List.pwFilter_cons_of_neg, ih]
        -- what stands in the way of `a` goes with `b`, since `a` does
        obtain ⟨x, hx, hax⟩ := not_forall₂.1 ha
        have hxb : r x b := (hr a x b hab).resolve_left hax
        exact fun hall => hax (hall x (ih ▸ List.mem_append_left _
          (List.mem_filter.2 ⟨hx, by simpa using hxb⟩)))
    · have hlast : ¬∀ x ∈ (l ++ [b]).pwFilter r, r a x := by
        rw [ih]
        exact fun hall => hab (hall b (List.mem_append_right _ List.mem_cons_self))
      rw [List.pwFilter_cons_of_neg hlast, ih]
      by_cases ha : ∀ x ∈ l.pwFilter r, r a x
      · rw [List.pwFilter_cons_of_pos ha, List.filter_cons_of_neg (by simpa using hab)]
      · rw [List.pwFilter_cons_of_neg ha]

/-- A finer filter leaves the same items if those of the coarser one pass it. -/
theorem pwFilter_eq_of_pairwise (hrs : ∀ x y, r x y → s x y) {l : List α}
    (h : (l.pwFilter s).Pairwise r) : l.pwFilter r = l.pwFilter s := by
  induction l with
  | nil => rfl
  | cons a l ih =>
    by_cases ha : ∀ x ∈ l.pwFilter s, s a x
    · rw [List.pwFilter_cons_of_pos ha, List.pairwise_cons] at h
      rw [List.pwFilter_cons_of_pos ha, List.pwFilter_cons_of_pos, ih h.2]
      rw [ih h.2]
      exact h.1
    · rw [List.pwFilter_cons_of_neg ha] at h
      rw [List.pwFilter_cons_of_neg ha, List.pwFilter_cons_of_neg, ih h]
      rw [ih h]
      exact fun hall => ha fun x hx => hrs a x (hall x hx)

end

/-! ## Declarations -/

/-- A statement that creates an index. -/
structure IndexDeclaration where
  schema : Option String
  table : String
  /-- The name that the statement gives the index, if it gives one. -/
  ownName : Option String
  columns : List String
  unique : Bool
  method : Option String
  condition : Option String

namespace IndexDeclaration

variable {d e : IndexDeclaration} {ds : List IndexDeclaration}

/-- The key of the table. -/
def key (d : IndexDeclaration) : String := Name.key d.schema d.table

/-- The name of the index: its own, or one that is made up from the table and the columns. -/
def name (d : IndexDeclaration) : String :=
  d.ownName.getD (defaultIndexName d.table d.columns)

/-- The index that is created. -/
def index (d : IndexDeclaration) : Index where
  name := d.name
  columns := d.columns
  unique := d.unique
  method := d.method
  condition := d.condition

/-- The declaration as a statement. -/
def statement (d : IndexDeclaration) : Statement := .createIndex d.schema d.table d.index

/-- The declarations that are left if one replaces those before it of its name. -/
def lastNamed (ds : List IndexDeclaration) : List IndexDeclaration :=
  ds.pwFilter fun d e => d.name ≠ e.name

/-- The declarations that are left if one with a name of its own replaces those before it that were
    given the same name. -/
def lastOwnNamed (ds : List IndexDeclaration) : List IndexDeclaration :=
  ds.pwFilter fun d e => d.ownName = none ∨ d.ownName ≠ e.ownName

theorem pairwise_lastNamed (ds : List IndexDeclaration) :
    (lastNamed ds).Pairwise fun d e => d.name ≠ e.name :=
  List.pairwise_pwFilter ds

theorem lastNamed_concat (ds : List IndexDeclaration) (d : IndexDeclaration) :
    lastNamed (ds ++ [d]) = (lastNamed ds).filter (fun e => e.name != d.name) ++ [d] := by
  have hne : ∀ x y z : IndexDeclaration, x.name ≠ z.name → x.name ≠ y.name ∨ y.name ≠ z.name := by
    intro x y z hxz
    by_cases hxy : x.name = y.name
    · exact .inr (hxy ▸ hxz)
    · exact .inl hxy
  rw [lastNamed, pwFilter_concat hne, lastNamed]
  congr 2
  funext e
  by_cases h : e.name = d.name <;> simp [h]

/-- Declarations that should stay are left just if their names are distinct. -/
theorem lastNamed_eq_iff : lastNamed ds = lastOwnNamed ds ↔
    (lastOwnNamed ds).Pairwise fun d e => d.name ≠ e.name := by
  refine ⟨fun h => h ▸ pairwise_lastNamed ds, pwFilter_eq_of_pairwise fun d e hne => ?_⟩
  rw [or_iff_not_imp_left]
  intro hown heq
  obtain ⟨n, hn⟩ := Option.ne_none_iff_exists'.1 hown
  exact hne (by rw [name, name, ← heq, hn, Option.getD_some, Option.getD_some])

end IndexDeclaration

/-! ## Reading declarations -/

namespace Statement

variable {ts : List Token} {l : List Statement}

/-- The name that a statement gives its index, if it gives one that is not empty. -/
def ownIndexName? (ts : List Token) : Option String :=
  match indexName (skip ["IF", "NOT", "EXISTS"]
    (skip ["CONCURRENTLY"] (skip ["INDEX"] (skip ["UNIQUE"] ts)))) with
  | .ok (name, _) => filled name
  | .error _ => none

/-- The declaration of a well-formed statement that creates an index. -/
def declaration? (ts : List Token) : Option IndexDeclaration :=
  match opening ts with
  | .index rest =>
    match readIndex rest with
    | .ok [.createIndex schema table i] =>
      some { schema, table, ownName := ownIndexName? rest, columns := i.columns,
             unique := i.unique, method := i.method, condition := i.condition }
    | _ => none
  | _ => none

/-- A well-formed statement that creates an index is read as its declaration. -/
theorem statement_of_readIndex {rest : List Token} (ho : opening ts = .index rest)
    (h : readIndex rest = .ok l) : ∃ d, declaration? ts = some d ∧ l = [d.statement] := by
  have hread := h
  unfold readIndex at h
  obtain ⟨⟨name, more⟩, hname, h⟩ := Action.bind_ok h
  dsimp only at h
  split at h
  · cases h
  obtain ⟨⟨⟨schema, table⟩, more₁⟩, -, h⟩ := Action.bind_ok h
  obtain ⟨⟨method, more₂⟩, -, h⟩ := Action.bind_ok h
  dsimp only at h
  split at h
  · cases h
  obtain ⟨⟨inside, after⟩, -, h⟩ := Action.bind_ok h
  dsimp only at h
  split at h
  · cases h
  obtain ⟨⟨passed, last⟩, -, h⟩ := Action.bind_ok h
  cases h
  have hown : ownIndexName? rest = filled name := by
    rw [ownIndexName?, hname]
  refine ⟨_, by rw [declaration?, ho]; dsimp only; rw [hread], ?_⟩
  rw [IndexDeclaration.statement, IndexDeclaration.index, IndexDeclaration.name]
  dsimp only
  rw [hown]

/-! ### Statements that add no index -/

theorem indexEdits_of_readTable (h : (readTable ts).result = .ok l) :
    l.flatMap Schema.indexEdits = [] := by
  unfold readTable at h
  dsimp only at h
  split at h
  · cases h
  obtain ⟨⟨⟨schema, name⟩, more⟩, -, h⟩ := Action.result_bind_ok h
  dsimp only at h
  split at h
  · obtain ⟨⟨body, last⟩, -, h⟩ := Action.result_bind_ok h
    obtain ⟨⟨columns, constraints⟩, -, h⟩ := Action.result_bind_ok h
    cases h
    rfl
  split at h
  · cases h
    rfl
  · cases h

theorem indexEdits_of_readType (h : readType ts = .ok l) : l.flatMap Schema.indexEdits = [] := by
  unfold readType at h
  dsimp only at h
  split at h
  · cases h
  obtain ⟨⟨⟨schema, name⟩, more⟩, -, h⟩ := Action.bind_ok h
  dsimp only at h
  split at h
  · cases h
    rfl
  split at h
  · obtain ⟨⟨inside, last⟩, -, h⟩ := Action.bind_ok h
    obtain ⟨values, -, h⟩ := Action.bind_ok h
    cases h
    rfl
  · cases h

theorem indexEdits_of_readActions {schema : Option String} {table : String}
    {items : List (List Token)} (h : readActions schema table items = .ok l) :
    l.flatMap Schema.indexEdits = [] := by
  induction items generalizing l with
  | nil =>
    cases h
    rfl
  | cons ts items ih =>
    rw [readActions] at h
    obtain ⟨first, hfirst, h⟩ := Action.bind_ok h
    obtain ⟨more, hmore, h⟩ := Action.bind_ok h
    cases h
    rw [List.flatMap_append, ih hmore, List.append_nil]
    unfold readAction at hfirst
    split at hfirst
    · cases hfirst
      rfl
    · obtain ⟨o, -, rfl⟩ := except_map_eq_ok hfirst
      cases o <;> rfl

theorem indexEdits_of_readComment (h : readComment ts = .ok l) :
    l.flatMap Schema.indexEdits = [] := by
  obtain ⟨target, -, h⟩ := Action.bind_ok h
  split at h
  · cases h
    rfl
  split at h
  · cases h
  obtain ⟨⟨t, more⟩, -, h⟩ := Action.bind_ok h
  dsimp only at h
  split at h
  · cases h
    rfl
  split at h
  · cases h
    rfl
  · cases h

/-! ### Documents -/

/-- The edit of a table by a declared index. -/
def IndexDeclaration.edit (d : IndexDeclaration) : Schema.TableEdit :=
  (d.key, fun t => t.addIndex d.index)

theorem lenient_ok {index : Nat} {r : Except ParseFault (List Statement)}
    (h : (lenient index r).result = .ok l) : r = .ok l ∨ (∃ fault, r = .error fault) ∧ l = [] := by
  cases r with
  | ok l' =>
    cases h
    exact .inl rfl
  | error fault =>
    cases h
    exact .inr ⟨⟨fault, rfl⟩, rfl⟩

/-- A statement adds the index that it declares, if it is well formed and declares one. -/
theorem indexEdits_of_readOne {index : Nat} (h : (readOne index ts).result = .ok l) :
    l.flatMap Schema.indexEdits = ((declaration? ts).toList.map IndexDeclaration.edit) := by
  have hnone : (∀ rest, opening ts ≠ .index rest) → declaration? ts = none := by
    intro hother
    rw [declaration?]
    split
    · next rest ho => exact absurd ho (hother rest)
    · rfl
  rw [readOne] at h
  cases ho : opening ts with
  | index rest =>
    rw [ho] at h
    obtain h | ⟨⟨fault, hfault⟩, rfl⟩ := lenient_ok h
    · obtain ⟨d, hd, rfl⟩ := statement_of_readIndex ho h
      rw [hd]
      rfl
    · rw [declaration?, ho]
      dsimp only
      rw [hfault]
      rfl
  | table rest =>
    rw [ho] at h
    rw [hnone (by simp [ho]), indexEdits_of_readTable (of_strict h)]
    rfl
  | type rest =>
    rw [ho] at h
    rw [hnone (by simp [ho]), indexEdits_of_readType (of_strict h)]
    rfl
  | change rest =>
    rw [ho] at h
    rw [hnone (by simp [ho])]
    obtain h | ⟨-, rfl⟩ := lenient_ok h
    · obtain ⟨⟨⟨schema, table⟩, more⟩, -, h⟩ := Action.bind_ok h
      exact indexEdits_of_readActions h
    · rfl
  | comment rest =>
    rw [ho] at h
    rw [hnone (by simp [ho])]
    obtain h | ⟨-, rfl⟩ := lenient_ok h
    · exact indexEdits_of_readComment h
    · rfl
  | other =>
    rw [ho] at h
    cases h
    rw [hnone (by simp [ho])]
    rfl

/-- The statements of a document add the indexes that they declare, in their order. -/
theorem indexEdits_of_readFrom {index : Nat} {pieces : List (List Token)}
    (h : (readFrom index pieces).result = .ok l) : l.flatMap Schema.indexEdits =
      (pieces.filterMap declaration?).map IndexDeclaration.edit := by
  induction pieces generalizing index l with
  | nil =>
    cases h
    rfl
  | cons ts pieces ih =>
    rw [readFrom] at h
    obtain ⟨first, hfirst, h⟩ := Action.result_bind_ok h
    obtain ⟨more, hmore, h⟩ := Action.result_bind_ok h
    cases h
    rw [Action.result_within] at hfirst
    rw [List.flatMap_append, ih hmore, indexEdits_of_readOne hfirst, List.filterMap_cons]
    cases declaration? ts <;> rfl

/-- The declarations of a document. -/
def declarations (text : String) : List IndexDeclaration :=
  match scan text with
  | .ok ts => (Token.statements ts).filterMap declaration?
  | .error _ => []

theorem indexEdits_of_readAll {text : String} (h : (readAll text).result = .ok l) :
    l.flatMap Schema.indexEdits = (declarations text).map IndexDeclaration.edit := by
  obtain ⟨ts, hscan, h⟩ := Action.result_bind_ok h
  rw [Action.result_ofExcept] at hscan
  rw [declarations, hscan]
  exact indexEdits_of_readFrom h

end Statement

/-! ## Indexes of tables -/

open IndexDeclaration

/-- Declarations leave the last index of each name. -/
theorem Table.indexes_foldl_addIndex {t : Table} (ht : t.indexes = [])
    (ds : List IndexDeclaration) :
    (ds.foldl (fun t d => t.addIndex d.index) t).indexes = (lastNamed ds).map (·.index) := by
  induction ds using List.reverseRecOn with
  | nil => exact ht
  | append_singleton ds d ih =>
    rw [List.foldl_concat, Table.addIndex, ih, lastNamed_concat, List.map_append, List.filter_map]
    rfl

theorem Table.indexes_takeComment {t : Table} (column text : Option String) :
    (t.takeComment column text).indexes = t.indexes := by
  cases column <;> rfl

namespace Schema

variable {l : List Statement} {k : String} {t : Table}

/-- A table is defined without indexes. -/
theorem indexes_withTables {enums : OrderedMap EnumType}
    (h : (withTables l { enums }).tables.get? k = some t) : t.indexes = [] := by
  obtain ⟨schema, name, columns, constraints, -, -, rfl⟩ := exists_of_get?_withTables h
  rfl

/-- Only indexes change the indexes of a table. -/
theorem indexes_edited {ds : List IndexDeclaration}
    (hds : l.flatMap indexEdits = ds.map IndexDeclaration.edit)
    (ht : t.indexes = []) : (edited l k t).indexes =
      (lastNamed (ds.filter fun d => d.key == k)).map (·.index) := by
  have hplain : (edited l k t).indexes = (edited l k t).plain.indexes := rfl
  rw [hplain, plain_edited, lateEdits, List.filter_append, List.foldl_append, hds, List.filter_map,
    List.foldl_map, ← Table.indexes_foldl_addIndex (t := t.plain) ht]
  refine List.foldlRecOn (motive := fun (u : Table) => u.indexes = _) _ _ rfl fun u hu e he => ?_
  obtain ⟨column, text, hcomment⟩ := mem_commentEdits (List.mem_filter.1 he).1
  rw [hcomment, Table.indexes_takeComment, hu]

/-- **The indexes of a document.** A table of the schema has the indexes that the document declares for
    it, of each name the last one. So a declaration is lost only to a later one that was given the same
    name, just if the names of all that should stay are distinct, made up or not. -/
theorem indexes_ofDocument {text : String} {s : Schema} (h : (ofDocument text).result = .ok s)
    (ht : s.tables.get? k = some t) :
    let declared := (declarations text).filter fun d => d.key == k
    t.indexes = (lastNamed declared).map (·.index) ∧
    (t.indexes = (lastOwnNamed declared).map (·.index) ↔
      (lastOwnNamed declared).Pairwise fun d e => d.name ≠ e.name) := by
  intro declared
  have hindexes : t.indexes = (lastNamed declared).map (·.index) := by
    rw [ofDocument, Action.result_within] at h
    obtain ⟨l, hread, h⟩ := Action.result_bind_ok h
    obtain ⟨s', hbuild, h⟩ := Action.result_bind_ok h
    cases h
    obtain ⟨-, rfl⟩ := result_ofStatements.1 hbuild
    rw [get?_described, Option.map_eq_some_iff] at ht
    obtain ⟨defined, hdefined, rfl⟩ := ht
    exact indexes_edited (indexEdits_of_readAll hread) (indexes_withTables hdefined)
  refine ⟨hindexes, fun hown => ?_, fun hdistinct => ?_⟩
  · have hnames : (t.indexes.map (·.name)).Pairwise (· ≠ ·) := by
      rw [hindexes, List.map_map, List.pairwise_map]
      exact pairwise_lastNamed declared
    rw [hown, List.map_map, List.pairwise_map] at hnames
    exact hnames
  · rw [hindexes, lastNamed_eq_iff.2 hdistinct]

/-- A document with indexes that are given names and others, one of them malformed. -/
def indexedDocument : String :=
  "CREATE TABLE t (a int);
CREATE INDEX i ON t (a);
CREATE INDEX ON t (a, -a);
CREATE INDEX ON t;
CREATE INDEX i ON t USING hash (a);"

/-- The table has all of its indexes, except for the one whose name is given again. -/
theorem indexes_ofDocument_indexedDocument :
    ∃ s t, (ofDocument indexedDocument).result = .ok s ∧ s.tables.get? "t" = some t ∧
      t.indexes = (lastOwnNamed ((declarations indexedDocument).filter fun d => d.key == "t")).map
        (·.index) ∧
      t.indexes.map (·.name) = ["t_a_expr_idx", "i"] := by
  have hok : ((ofDocument indexedDocument).result.toOption.any fun s =>
      (s.tables.get? "t").any fun t =>
        t.indexes.map (·.name) == ["t_a_expr_idx", "i"]) = true := by
    decide +kernel
  have hdistinct : (lastOwnNamed ((declarations indexedDocument).filter fun d =>
      d.key == "t")).Pairwise fun d e => d.name ≠ e.name := by
    decide +kernel
  obtain ⟨s, hs, h⟩ := exists_ok_of_any hok
  obtain ⟨t, ht, hnames⟩ := (Option.any_eq_true _ _).1 h
  exact ⟨s, t, hs, ht, (indexes_ofDocument hs ht).2.2 hdistinct, beq_iff_eq.1 hnames⟩

/-- A document with indexes on two expressions. -/
def expressionDocument : String :=
  "CREATE TABLE t (a int, b int); CREATE INDEX ON t (lower(a)); CREATE INDEX ON t (lower(b));"

/-- Neither of these indexes was given a name, and one of them is lost. -/
theorem not_lastOwnNamed_expressions :
    ((declarations expressionDocument).map fun d => (d.key, d.ownName, d.columns)) =
        [("t", none, ["lower(a)"]), ("t", none, ["lower(b)"])] ∧
      ∃ s t, (ofDocument expressionDocument).result = .ok s ∧ s.tables.get? "t" = some t ∧
        t.indexes = [{ name := "t_expr_idx", columns := ["lower(b)"] }] := by
  have hok : ((ofDocument expressionDocument).result.toOption.any fun s =>
      (s.tables.get? "t").any fun t =>
        t.indexes == [{ name := "t_expr_idx", columns := ["lower(b)"] }]) = true := by
    decide +kernel
  obtain ⟨s, hs, h⟩ := exists_ok_of_any hok
  obtain ⟨t, ht, hindexes⟩ := (Option.any_eq_true _ _).1 h
  exact ⟨by decide +kernel, s, t, hs, ht, beq_iff_eq.1 hindexes⟩

end Schema

end Schemata
