/-
  What the statements of a document are like.

  * `ParsedStatement` says what holds of every statement: its parts are parsed parts, the columns of a
    table have distinct names, and an index has a name and columns;
  * `of_readBody`, `of_readIndex` and their companions: each reader gives such statements;
  * `parsed_readAll`: so does reading a document.
-/
import Schemata.Proofs.Parsed

namespace Schemata.Statement

open Token Cursor Log Written

variable {ts us rest : List Token}

/-! ## Tables -/

theorem of_readColumn {table : String} {d : ColumnDraft} (hts : Rescans ts [])
    (h : (readColumn table ts).result = .ok d) : ParsedDraft d := by
  unfold readColumn at h
  split at h
  · cases h
  next t more =>
  dsimp only at h
  split at h
  · cases h
  obtain ⟨⟨type, last⟩, hspan, h⟩ := Action.result_bind_ok h
  rw [Action.result_ofExcept] at hspan
  dsimp only at h
  split at h
  · cases h
  obtain ⟨_, -, h⟩ := Action.result_bind_ok h
  split at h
  · cases h
  cases h
  have hlast := (suffix_of_spanElements hspan).trans (List.suffix_cons t more)
  refine parsedDraft_foldl (parsedClause_clausesFrom (hts.of_run hlast.isInfix)) ⟨?_, ?_⟩
  · intro s hs
    cases hs
  · exact fun c hc => absurd hc List.not_mem_nil

/-- What holds of the body of a table. -/
structure ParsedBody (seen : List String) (columns : List ColumnDefinition)
    (constraints : List Constraint) : Prop where
  definition : ∀ d ∈ columns, ParsedDefinition d
  constraint : ∀ c ∈ constraints, ParsedConstraint c
  distinct : (columns.map fun d => Quote.fold d.name).Nodup
  unseen : ∀ d ∈ columns, Quote.fold d.name ∉ seen

theorem ParsedBody.nil {seen : List String} : ParsedBody seen [] [] :=
  ⟨fun _ hd => absurd hd List.not_mem_nil, fun _ hc => absurd hc List.not_mem_nil,
    List.nodup_nil, fun _ hd => absurd hd List.not_mem_nil⟩

section
variable {seen : List String} {columns : List ColumnDefinition} {constraints : List Constraint}

/-- A body with more constraints in front. -/
theorem ParsedBody.prepend {more : List Constraint} (h : ParsedBody seen columns constraints)
    (hmore : ∀ c ∈ more, ParsedConstraint c) : ParsedBody seen columns (more ++ constraints) := by
  refine ⟨h.definition, fun c hc => ?_, h.distinct, h.unseen⟩
  rcases List.mem_append.1 hc with hc | hc
  · exact hmore c hc
  · exact h.constraint c hc

/-- A body with one more column in front, whose name is new. -/
theorem ParsedBody.column {d : ColumnDefinition} (hd : ParsedDefinition d)
    (hnew : Quote.fold d.name ∉ seen)
    (h : ParsedBody (Quote.fold d.name :: seen) columns constraints) :
    ParsedBody seen (d :: columns) constraints := by
  have hother : ∀ e ∈ columns, Quote.fold e.name ≠ Quote.fold d.name ∧ Quote.fold e.name ∉ seen :=
    fun e he => not_or.1 (mt List.mem_cons.2 (h.unseen e he))
  refine ⟨List.forall_mem_cons.2 ⟨hd, h.definition⟩, h.constraint, ?_,
    List.forall_mem_cons.2 ⟨hnew, fun e he => (hother e he).2⟩⟩
  rw [List.map_cons, List.nodup_cons]
  refine ⟨fun hm => ?_, h.distinct⟩
  obtain ⟨e, he, hfold⟩ := List.mem_map.1 hm
  exact (hother e he).1 hfold

end

theorem of_readBody {table : String} {seen : List String} {items : List (List Token)}
    {columns : List ColumnDefinition} {constraints : List Constraint}
    (hitems : ∀ ts ∈ items, Rescans ts [])
    (h : (readBody table seen items).result = .ok (columns, constraints)) :
    ParsedBody seen columns constraints := by
  induction items generalizing seen columns constraints with
  | nil =>
    cases h
    exact .nil
  | cons ts items ih =>
    obtain ⟨hts, hmore⟩ := List.forall_mem_cons.1 hitems
    rw [readBody] at h
    split at h
    · obtain ⟨constraint, hconstraint, h⟩ := Action.result_bind_ok h
      rw [Action.result_ofExcept] at hconstraint
      obtain ⟨⟨columns', constraints'⟩, hbody, h⟩ := Action.result_bind_ok h
      cases h
      refine (ih hmore hbody).prepend fun c hc => ?_
      obtain rfl : constraint = some c := Option.mem_toList.1 hc
      exact of_tableConstraint hts hconstraint
    split at h
    · obtain ⟨_, -, h⟩ := Action.result_bind_ok h
      exact ih hmore h
    · obtain ⟨draft, hdraft, h⟩ := Action.result_bind_ok h
      dsimp only at h
      split at h
      · cases h
      next hseen =>
      obtain ⟨⟨columns', constraints'⟩, hbody, h⟩ := Action.result_bind_ok h
      cases h
      have hcolumn := of_readColumn hts hdraft
      rw [List.contains_iff_mem] at hseen
      exact ((ih hmore hbody).column hcolumn.definition hseen).prepend hcolumn.constraints

/-! ## Indexes -/

/-- The columns of an index are items of a list, and all its texts scan by themselves. -/
structure ParsedIndex (i : Index) : Prop where
  name : i.name ≠ ""
  columns : i.columns ≠ []
  items : ∀ c ∈ i.columns, PlainItem c
  condition : ∀ w, i.condition = some w → w ≠ "" → PlainText w

/-- What holds of a statement. -/
def ParsedStatement : Statement → Prop
  | .createTable _ _ columns constraints => ParsedBody [] columns constraints
  | .addConstraint _ _ c => ParsedConstraint c
  | .createIndex _ _ i => ParsedIndex i
  | _ => True

theorem of_readTable {statements : List Statement} (hts : Rescans ts [])
    (h : (readTable ts).result = .ok statements) : ∀ x ∈ statements, ParsedStatement x := by
  unfold readTable at h
  dsimp only at h
  split at h
  · cases h
  obtain ⟨⟨⟨schema, name⟩, more⟩, hname, h⟩ := Action.result_bind_ok h
  rw [Action.result_ofExcept] at hname
  have hmore := (suffix_of_qualifiedName hname).trans (suffix_skip _ _)
  dsimp only at h
  split at h
  · obtain ⟨⟨body, last⟩, hgroup, h⟩ := Action.result_bind_ok h
    obtain ⟨⟨columns, constraints⟩, hbody, h⟩ := Action.result_bind_ok h
    cases h
    rw [Action.result_ofExcept] at hgroup
    intro x hx
    obtain rfl := List.mem_singleton.1 hx
    refine of_readBody (fun us hu => hts.of_run ?_) hbody
    exact (run_of_mem_items hu).2.trans ((of_group hgroup).1.trans hmore.isInfix)
  split at h
  · cases h
    exact fun x hx => absurd hx List.not_mem_nil
  · cases h

/-- The default name of an index has letters. -/
theorem defaultIndexName_ne_empty (table : String) (columns : List String) :
    defaultIndexName table columns ≠ "" := by
  have hone : ∀ parts : List String, "_".intercalate (table :: (parts ++ ["idx"])) ≠ "" := by
    intro parts hempty
    cases hparts : parts ++ ["idx"] with
    | nil => simp at hparts
    | cons part more =>
      rw [hparts, String.intercalate_cons_cons] at hempty
      have := congrArg String.toList hempty
      simp at this
  exact hone _

theorem suffix_of_indexName {name : Option String} (h : indexName ts = .ok (name, rest)) :
    rest <:+ ts := by
  unfold indexName at h
  split at h
  · cases h
    exact List.suffix_rfl
  · obtain ⟨⟨n, l⟩, hn, he⟩ := except_map_eq_ok h
    cases he
    exact suffix_of_expectName hn

theorem suffix_of_indexMethod {method : Option String} (h : indexMethod ts = .ok (method, rest)) :
    rest <:+ ts := by
  unfold indexMethod at h
  split at h
  · next ha =>
    obtain ⟨⟨t, l⟩, hadvance, he⟩ := except_map_eq_ok h
    cases he
    exact (suffix_of_advance hadvance).trans (suffix_of_accept ha)
  · cases h
    exact List.suffix_rfl

theorem of_readIndex {statements : List Statement} (hts : Rescans ts [])
    (h : readIndex ts = .ok statements) : ∀ x ∈ statements, ParsedStatement x := by
  unfold readIndex at h
  obtain ⟨⟨name, more⟩, hname, h⟩ := Action.bind_ok h
  have hmore := (suffix_of_indexName hname).trans
    ((suffix_skip _ _).trans ((suffix_skip _ _).trans ((suffix_skip _ _).trans (suffix_skip _ _))))
  dsimp only at h
  split at h
  · cases h
  next l hon =>
  obtain ⟨⟨⟨schema, table⟩, l'⟩, htable, h⟩ := Action.bind_ok h
  obtain ⟨⟨method, l''⟩, hmethod, h⟩ := Action.bind_ok h
  have hsuffix := (suffix_of_indexMethod hmethod).trans ((suffix_of_qualifiedName htable).trans
    ((suffix_skip _ _).trans ((suffix_of_accept hon).trans hmore)))
  dsimp only at h
  split at h
  · cases h
  obtain ⟨⟨inside, after⟩, hgroup, h⟩ := Action.bind_ok h
  obtain ⟨hinside, hafter, henclosed⟩ := of_group hgroup
  dsimp only at h
  split at h
  · cases h
  next hne =>
  obtain ⟨⟨passed, last⟩, hspan, h⟩ := Action.bind_ok h
  cases h
  intro x hx
  obtain rfl := List.mem_singleton.1 hx
  refine ⟨?_, ?_, fun c hc => ?_, fun w hw hempty => ?_⟩
  · dsimp only
    cases hfilled : filled name with
    | none => exact defaultIndexName_ne_empty _ _
    | some n =>
      obtain ⟨-, hn⟩ := Option.filter_eq_some_iff.1 hfilled
      rintro rfl
      cases hn
  · simpa using hne
  · obtain ⟨item, hitem, rfl⟩ := List.mem_map.1 hc
    obtain ⟨hitem', hrun⟩ := run_of_mem_items hitem
    obtain ⟨hplain, htokens⟩ :=
      plainText_source (hts.of_run (hrun.trans (hinside.trans hsuffix.isInfix))) hitem'
    refine ⟨hplain, ?_⟩
    rw [htokens, enclosed_bare (blind_isPunct ',')]
    exact enclosed_of_mem_items henclosed hitem
  · obtain ⟨us, hwhere, rfl⟩ := Option.map_eq_some_iff.1 hw
    have hus : us ≠ [] := by
      rintro rfl
      exact hempty rfl
    refine (plainText_source (hts.of_run ?_) hus).1
    exact ((suffix_of_accept hwhere).trans ((suffix_of_spanElements hspan).trans
      (hafter.trans hsuffix))).isInfix

/-! ## Documents -/

theorem of_readType {statements : List Statement} (h : readType ts = .ok statements) :
    ∀ x ∈ statements, ParsedStatement x := by
  unfold readType at h
  dsimp only at h
  split at h
  · cases h
  obtain ⟨⟨⟨schema, name⟩, more⟩, -, h⟩ := Action.bind_ok h
  dsimp only at h
  split at h
  · cases h
    exact fun x hx => absurd hx List.not_mem_nil
  split at h
  · obtain ⟨⟨inside, last⟩, -, h⟩ := Action.bind_ok h
    obtain ⟨values, -, h⟩ := Action.bind_ok h
    cases h
    intro x hx
    obtain rfl := List.mem_singleton.1 hx
    trivial
  · cases h

theorem of_readActions {schema : Option String} {table : String} {items : List (List Token)}
    {statements : List Statement} (hitems : ∀ ts ∈ items, Rescans ts [])
    (h : readActions schema table items = .ok statements) : ∀ x ∈ statements, ParsedStatement x := by
  induction items generalizing statements with
  | nil =>
    cases h
    exact fun x hx => absurd hx List.not_mem_nil
  | cons ts items ih =>
    rw [readActions] at h
    obtain ⟨first, hfirst, h⟩ := Action.bind_ok h
    obtain ⟨more, hmore, h⟩ := Action.bind_ok h
    cases h
    intro x hx
    rcases List.mem_append.1 hx with hx | hx
    · unfold readAction at hfirst
      split at hfirst
      · cases hfirst
        exact absurd hx List.not_mem_nil
      next l ha =>
      obtain ⟨o, hconstraint, rfl⟩ := except_map_eq_ok hfirst
      obtain ⟨c, hc, rfl⟩ := List.mem_map.1 hx
      rw [Option.mem_toList] at hc
      obtain rfl : o = some c := hc
      have hts := hitems ts List.mem_cons_self
      exact of_tableConstraint (hts.of_run (suffix_of_accept ha).isInfix) hconstraint
    · exact ih (fun us hu => hitems us (List.mem_cons_of_mem ts hu)) hmore x hx

theorem of_readChange {statements : List Statement} (hts : Rescans ts [])
    (h : readChange ts = .ok statements) : ∀ x ∈ statements, ParsedStatement x := by
  obtain ⟨⟨⟨schema, table⟩, more⟩, hname, h⟩ := Action.bind_ok h
  have hmore := (suffix_of_qualifiedName hname).trans ((suffix_skip _ _).trans (suffix_skip _ _))
  refine of_readActions (fun us hu => hts.of_run ?_) h
  exact (run_of_mem_items hu).2.trans hmore.isInfix

theorem of_readComment {statements : List Statement} (h : readComment ts = .ok statements) :
    ∀ x ∈ statements, ParsedStatement x := by
  obtain ⟨target, -, h⟩ := Action.bind_ok h
  split at h
  · cases h
    exact fun x hx => absurd hx List.not_mem_nil
  split at h
  · cases h
  obtain ⟨⟨t, more⟩, -, h⟩ := Action.bind_ok h
  dsimp only at h
  intro x hx
  split at h
  · cases h
    obtain rfl := List.mem_singleton.1 hx
    trivial
  split at h
  · cases h
    obtain rfl := List.mem_singleton.1 hx
    trivial
  · cases h

/-- The tokens after the opening keywords. -/
def Opening.tokens : Opening → List Token
  | .index rest => rest
  | .table rest => rest
  | .type rest => rest
  | .change rest => rest
  | .comment rest => rest
  | .other => []

theorem suffix_skipKeyword (words : List String) (ts : List Token) :
    skipKeyword words ts <:+ ts := by
  unfold skipKeyword
  split
  · exact List.tail_suffix ts
  · exact List.suffix_rfl

theorem suffix_opening (ts : List Token) : (opening ts).tokens <:+ ts := by
  unfold opening
  split
  · next more ha =>
    have hmore := suffix_of_accept ha
    split
    · exact hmore
    · have hskip : skipKeyword ["TEMP", "TEMPORARY", "UNLOGGED"]
          (skipKeyword ["GLOBAL", "LOCAL"] more) <:+ ts :=
        (suffix_skipKeyword _ _).trans ((suffix_skipKeyword _ _).trans hmore)
      dsimp only
      split
      · next ht => exact (suffix_of_accept ht).trans hskip
      · split
        · next ht => exact (suffix_of_accept ht).trans hskip
        · exact List.nil_suffix
  · split
    · next ha => exact suffix_of_accept ha
    · split
      · next ha => exact suffix_of_accept ha
      · exact List.nil_suffix

theorem of_lenient {index : Nat} {r : Except ParseFault (List Statement)}
    {statements : List Statement} (hr : ∀ l, r = .ok l → ∀ x ∈ l, ParsedStatement x)
    (h : (lenient index r).result = .ok statements) : ∀ x ∈ statements, ParsedStatement x := by
  cases r with
  | ok l =>
    cases h
    exact hr _ rfl
  | error fault =>
    cases h
    exact fun x hx => absurd hx List.not_mem_nil

theorem of_strict {index : Nat} {r : Action ParseFault (List Statement)}
    {statements : List Statement} (h : (strict index ts r).result = .ok statements) :
    r.result = .ok statements := by
  rw [strict, Action.result_adapt] at h
  cases hr : r.result with
  | error e => rw [hr] at h; cases h
  | ok l => rw [hr] at h; cases h; rfl

theorem of_readOne {index : Nat} {statements : List Statement} (hts : Rescans ts [])
    (h : (readOne index ts).result = .ok statements) : ∀ x ∈ statements, ParsedStatement x := by
  have hrest := hts.of_run (suffix_opening ts).isInfix
  unfold readOne at h
  cases ho : opening ts with
  | index more =>
    rw [ho] at h hrest
    exact of_lenient (fun _ hl => of_readIndex hrest hl) h
  | table more =>
    rw [ho] at h hrest
    exact of_readTable hrest (of_strict h)
  | type more =>
    rw [ho] at h
    exact of_readType (of_strict h)
  | change more =>
    rw [ho] at h hrest
    exact of_lenient (fun _ hl => of_readChange hrest hl) h
  | comment more =>
    rw [ho] at h
    exact of_lenient (fun _ hl => of_readComment hl) h
  | other =>
    rw [ho] at h
    cases h
    exact fun x hx => absurd hx List.not_mem_nil

theorem of_readFrom {index : Nat} {pieces : List (List Token)} {statements : List Statement}
    (hpieces : ∀ ts ∈ pieces, Rescans ts []) (h : (readFrom index pieces).result = .ok statements) :
    ∀ x ∈ statements, ParsedStatement x := by
  induction pieces generalizing index statements with
  | nil =>
    cases h
    exact fun x hx => absurd hx List.not_mem_nil
  | cons ts pieces ih =>
    rw [readFrom] at h
    obtain ⟨first, hfirst, h⟩ := Action.result_bind_ok h
    obtain ⟨more, hmore, h⟩ := Action.result_bind_ok h
    cases h
    rw [Action.result_within] at hfirst
    intro x hx
    rcases List.mem_append.1 hx with hx | hx
    · exact of_readOne (hpieces ts List.mem_cons_self) hfirst x hx
    · exact ih (fun us hu => hpieces us (List.mem_cons_of_mem ts hu)) hmore x hx

/-- **Reading a document.** Every statement that is read has the parts of its kind, and its raw texts
    scan by themselves. -/
theorem parsed_readAll {text : String} {statements : List Statement}
    (h : (readAll text).result = .ok statements) : ∀ x ∈ statements, ParsedStatement x := by
  obtain ⟨ts, hscan, h⟩ := Action.result_bind_ok h
  rw [Action.result_ofExcept, Statement.scan, Token.scan] at hscan
  cases hlist : scanList text.toList with
  | error e =>
    rw [hlist] at hscan
    cases hscan
  | ok r =>
    rw [hlist] at hscan
    cases hscan
    obtain ⟨hrescans, -⟩ := rescans_of_scanList hlist
    exact of_readFrom (fun us hu => hrescans.of_run (run_of_mem_statements hu)) h

end Schemata.Statement
