/-
  What the parts of read statements are like.

  * `ParsedConstraint` and `ParsedDefinition` say what holds of every constraint and every column that
    is read: a constraint has the parts of its kind and no others, and raw texts scan by themselves;
  * `of_tableConstraint`, `of_clause`, `ParsedDraft.apply`: each reader gives such parts.
-/
import Schemata.Proofs.Columns
import Schemata.Proofs.Cutting
import Schemata.Proofs.Taken

namespace Schemata

open Token Cursor Log Written

variable {ts us rest : List Token}

/-! ## Raw texts -/

/-- The text that a run of scanned tokens spans is read as it is written. -/
theorem plainText_source (h : Rescans ts []) (hne : ts ≠ []) :
    PlainText (source ts) ∧ rawTokens (source ts) = bare ts := by
  obtain ⟨hraw, htokens⟩ := isRaw_source h hne
  exact ⟨⟨hraw, by rw [htokens, source_bare]⟩, htokens⟩

theorem enclosed_bare {stop : Token → Bool} (hs : Blind stop) :
    Enclosed stop (bare ts) ↔ Enclosed stop ts := by
  obtain ⟨lay, hlay⟩ := exists_indent_bare ts
  have hlevel : level stop 0 (indent lay (bare ts)) = level stop 0 (bare ts) := level_indent hs
  rw [Enclosed, ← hlevel, hlay, Enclosed]

/-- The text of a condition is empty or balanced. -/
def ParsedCondition (s : String) : Prop := s ≠ "" → PlainText s ∧ Enclosed never (rawTokens s)

theorem parsedCondition_source (h : Rescans ts []) (he : Enclosed never ts) :
    ParsedCondition (source ts) := by
  intro hs
  have hne : ts ≠ [] := by
    rintro rfl
    exact hs rfl
  obtain ⟨hplain, htokens⟩ := plainText_source h hne
  exact ⟨hplain, by rw [htokens]; exact (enclosed_bare blind_never).2 he⟩

/-- The text of a default is one element and what follows it up to a clause, where it is balanced. -/
structure ParsedDefault (s : String) : Prop extends PlainText s where
  element : Enclosed never (rawTokens s) →
    ∃ rest, skipElement (rawTokens s) = .ok rest ∧ Enclosed startsClause rest

theorem skipElement_bare (ts : List Token) : skipElement (bare ts) = skipElement ts := by
  obtain ⟨lay, hlay⟩ := exists_indent_bare ts
  rw [← skipElement_indent lay, hlay]

theorem of_defaultExpression {s : String} (hts : Rescans ts [])
    (h : defaultExpression ts = .ok (s, rest)) : ParsedDefault s ∧ rest <:+ ts := by
  unfold defaultExpression at h
  split at h
  · cases h
  next more hskip =>
  split at h
  · cases h
  next front after hspan =>
  cases h
  obtain ⟨element, rfl, hne, helement, hone⟩ := of_skipElement hskip
  obtain rfl := eq_append_of_spanElements hspan
  have htake : (element ++ (front ++ rest)).take
      ((element ++ (front ++ rest)).length - rest.length) = element ++ front := by
    rw [← List.append_assoc, List.length_append, Nat.add_sub_cancel, List.take_left]
  have hrescans : Rescans (element ++ front) [] :=
    hts.of_run ⟨[], rest, by rw [List.nil_append, List.append_assoc]⟩
  rw [htake]
  obtain ⟨hplain, htokens⟩ := plainText_source hrescans (by simp [hne])
  refine ⟨⟨hplain, fun he => ⟨front, ?_, ?_⟩⟩, ⟨element ++ front, by rw [List.append_assoc]⟩⟩
  · rw [htokens, skipElement_bare, helement]
  · rw [htokens, enclosed_bare blind_never, Enclosed, level_append] at he
    refine enclosed_of_spanElements hspan ?_
    rcases hone with ⟨t, rfl, ho⟩ | hgroup
    · cases hc : t.isPunct ')' with
      | true =>
        simp [level, ho, hc] at he
      | false =>
        rw [level_other ho hc fun _ => rfl] at he
        exact he
    · rw [hgroup] at he
      exact he

theorem suffix_of_generated (h : generated ts = .ok rest) : rest <:+ ts := by
  unfold generated at h
  split at h
  · cases h
  next words l hfirst =>
  have hl := (suffix_of_acceptFirst hfirst).2
  split at h
  · cases h
  next l' ha =>
  have hl' := (suffix_of_accept ha).trans hl
  split at h
  · next l'' hidentity =>
    have hl'' := (suffix_of_accept hidentity).trans hl'
    split at h
    · obtain ⟨⟨inside, last⟩, hgroup, rfl⟩ := except_map_eq_ok h
      exact (of_group hgroup).2.1.trans hl''
    · cases h
      exact hl''
  · obtain ⟨⟨inside, last⟩, hgroup, he⟩ := except_map_eq_ok h
    have hlast := (of_group hgroup).2.1.trans hl'
    dsimp only at he
    split at he
    · next hstored =>
      cases he
      exact (suffix_of_acceptFirst hstored).2.trans hlast
    · cases he
      exact hlast

/-! ## References -/

/-- The actions of a foreign key are among those that there are. -/
structure ParsedReference (r : Reference) : Prop where
  onDelete : ∀ a, r.onDelete = some a → a ∈ actionTexts
  onUpdate : ∀ a, r.onUpdate = some a → a ∈ actionTexts

theorem parsedReference_of_none {r : Reference} (hd : r.onDelete = none) (hu : r.onUpdate = none) :
    ParsedReference r := by
  constructor
  · intro a h
    rw [hd] at h
    cases h
  · intro a h
    rw [hu] at h
    cases h

theorem of_referentialAction {a : String} (h : referentialAction ts = .ok (a, rest)) :
    a ∈ actionTexts ∧ rest <:+ ts := by
  unfold referentialAction at h
  split at h
  · cases h
  next words more hfirst =>
  obtain ⟨hwords, hmore⟩ := suffix_of_acceptFirst hfirst
  split at h
  · split at h
    · next hgroup =>
      cases h
      exact ⟨List.mem_map_of_mem hwords, (of_group hgroup).2.1.trans hmore⟩
    · cases h
  · cases h
    exact ⟨List.mem_map_of_mem hwords, hmore⟩

/-- An option adds at most an action. -/
theorem of_referenceOption {r r' : Reference} (hr : ParsedReference r)
    (h : referenceOption r ts = .ok (some (r', rest))) :
    ParsedReference r' ∧ r'.columns = r.columns ∧ rest <:+ ts := by
  unfold referenceOption at h
  split at h
  · next ha =>
    obtain ⟨⟨a, l⟩, haction, he⟩ := except_map_eq_ok h
    cases he
    obtain ⟨hmem, hsuffix⟩ := of_referentialAction haction
    refine ⟨⟨?_, hr.onUpdate⟩, rfl, hsuffix.trans (suffix_of_accept ha)⟩
    rintro _ ⟨⟩
    exact hmem
  split at h
  · next ha =>
    obtain ⟨⟨a, l⟩, haction, he⟩ := except_map_eq_ok h
    cases he
    obtain ⟨hmem, hsuffix⟩ := of_referentialAction haction
    refine ⟨⟨hr.onDelete, ?_⟩, rfl, hsuffix.trans (suffix_of_accept ha)⟩
    rintro _ ⟨⟩
    exact hmem
  split at h
  · next ha =>
    obtain ⟨⟨t, l⟩, hadvance, he⟩ := except_map_eq_ok h
    cases he
    exact ⟨hr, rfl, (suffix_of_advance hadvance).trans (suffix_of_accept ha)⟩
  split at h
  · next ha =>
    cases h
    exact ⟨hr, rfl, (suffix_of_acceptFirst ha).2⟩
  split at h
  · next ha =>
    obtain ⟨⟨t, l⟩, hadvance, he⟩ := except_map_eq_ok h
    cases he
    exact ⟨hr, rfl, (suffix_of_advance hadvance).trans (suffix_of_accept ha)⟩
  · cases h

theorem of_referenceOptions {r r' : Reference} (hr : ParsedReference r)
    (h : referenceOptions r ts = .ok (r', rest)) :
    ParsedReference r' ∧ r'.columns = r.columns ∧ rest <:+ ts := by
  fun_induction referenceOptions r ts with
  | case1 => cases h
  | case2 => cases h; exact ⟨hr, rfl, List.suffix_rfl⟩
  | case3 r ts r₁ rest₁ hone ih =>
    obtain ⟨hr₁, hcolumns, hsuffix⟩ := of_referenceOption hr hone
    obtain ⟨hr', hcolumns', hsuffix'⟩ := ih hr₁ h
    exact ⟨hr', hcolumns'.trans hcolumns, hsuffix'.trans hsuffix⟩

theorem of_columnList {columns : List String} (h : columnList ts = .ok (columns, rest)) :
    columns ≠ [] ∧ rest <:+ ts := by
  unfold columnList at h
  split at h
  · cases h
  next inside more hgroup =>
  split at h
  · cases h
  next hne =>
  cases h
  exact ⟨hne, (of_group hgroup).2.1⟩

theorem of_references {r : Reference} (h : references ts = .ok (r, rest)) :
    ParsedReference r ∧ rest <:+ ts := by
  unfold references at h
  split at h
  · cases h
  next schema table more hname =>
  have hmore := suffix_of_qualifiedName hname
  split at h
  · split at h
    · cases h
    next columns last hcolumns =>
    obtain ⟨hr, -, hsuffix⟩ := of_referenceOptions (parsedReference_of_none rfl rfl) h
    exact ⟨hr, hsuffix.trans ((of_columnList hcolumns).2.trans hmore)⟩
  · obtain ⟨hr, -, hsuffix⟩ := of_referenceOptions (parsedReference_of_none rfl rfl) h
    exact ⟨hr, hsuffix.trans hmore⟩

/-! ## Constraints -/

/-- A constraint has the parts of its kind and no others. -/
structure ParsedConstraint (c : Constraint) : Prop where
  columns : c.kind ≠ .check → c.columns ≠ []
  noColumns : c.kind = .check → c.columns = []
  noReference : c.kind ≠ .foreignKey → c.reference = none
  noExpression : c.kind ≠ .check → c.expression = none
  reference : c.kind = .foreignKey →
    ∃ r, c.reference = some r ∧ ParsedReference r ∧ r.columns.length = c.columns.length
  expression : c.kind = .check → ∃ s, c.expression = some s ∧ ParsedCondition s

/-- A constraint that is a list of columns. -/
theorem parsedConstraint_columns {kind : ConstraintKind} {name : Option String}
    {columns : List String} (hk : kind = .primaryKey ∨ kind = .unique) (hne : columns ≠ []) :
    ParsedConstraint { kind, name, columns } := by
  refine ⟨fun _ => hne, fun hc => ?_, fun _ => rfl, fun _ => rfl, fun hf => ?_, fun hc => ?_⟩
  · rcases hk with rfl | rfl <;> cases hc
  · rcases hk with rfl | rfl <;> cases hf
  · rcases hk with rfl | rfl <;> cases hc

theorem parsedConstraint_reference {name : Option String} {columns : List String} {r : Reference}
    (hr : ParsedReference r) (hne : columns ≠ []) (hl : r.columns.length = columns.length) :
    ParsedConstraint { kind := .foreignKey, name, columns, reference := some r } :=
  ⟨fun _ => hne, fun hc => (by cases hc), fun hf => absurd rfl hf, fun _ => rfl,
    fun _ => ⟨r, rfl, hr, hl⟩, fun hc => (by cases hc)⟩

theorem parsedConstraint_check {name : Option String} {s : String} (hs : ParsedCondition s) :
    ParsedConstraint { kind := .check, name, expression := some s } :=
  ⟨fun hc => absurd rfl hc, fun _ => rfl, fun _ => rfl, fun hc => absurd rfl hc,
    fun hf => (by cases hf), fun _ => ⟨s, rfl, hs⟩⟩

theorem suffix_of_constraintName {name : Option String} (h : constraintName ts = .ok (name, rest)) :
    rest <:+ ts := by
  unfold constraintName at h
  split at h
  · next ha =>
    obtain ⟨⟨n, l⟩, hn, he⟩ := except_map_eq_ok h
    cases he
    exact (suffix_of_expectName hn).trans (suffix_of_accept ha)
  · cases h
    exact List.suffix_rfl

theorem of_constraintAfterName {name : Option String} {c : Constraint} (hts : Rescans ts [])
    (h : constraintAfterName name ts = .ok (some c)) : ParsedConstraint c := by
  unfold constraintAfterName at h
  split at h
  · obtain ⟨⟨columns, l⟩, hcolumns, h⟩ := Action.bind_ok h
    cases h
    exact parsedConstraint_columns (.inl rfl) (of_columnList hcolumns).1
  split at h
  · obtain ⟨⟨columns, l⟩, hcolumns, h⟩ := Action.bind_ok h
    cases h
    exact parsedConstraint_columns (.inr rfl) (of_columnList hcolumns).1
  split at h
  · obtain ⟨⟨columns, l⟩, hcolumns, h⟩ := Action.bind_ok h
    dsimp only at h
    split at h
    · cases h
    obtain ⟨⟨r, l'⟩, hr, h⟩ := Action.bind_ok h
    dsimp only at h
    split at h
    · cases h
    split at h
    · cases h
    next hl =>
    cases h
    exact parsedConstraint_reference (of_references hr).1 (of_columnList hcolumns).1
      (Decidable.not_not.1 hl)
  split at h
  · next ha =>
    obtain ⟨⟨inside, l⟩, hgroup, h⟩ := Action.bind_ok h
    cases h
    obtain ⟨hinside, -, henclosed⟩ := of_group hgroup
    refine parsedConstraint_check (parsedCondition_source ?_ henclosed)
    exact hts.of_run (hinside.trans (suffix_of_accept ha).isInfix)
  · cases h

theorem of_tableConstraint {c : Constraint} (hts : Rescans ts [])
    (h : tableConstraint ts = .ok (some c)) : ParsedConstraint c := by
  obtain ⟨⟨name, more⟩, hname, h⟩ := Action.bind_ok h
  exact of_constraintAfterName (hts.of_run (suffix_of_constraintName hname).isInfix) h

/-! ## Columns -/

/-- What holds of a clause of a column. -/
def ParsedClause : Clause → Prop
  | .references target => ParsedReference target
  | .check expression => ParsedCondition expression
  | .default expression => ParsedDefault expression
  | _ => True

theorem of_clause {c : Clause} (hts : Rescans ts []) (h : clause ts = .ok (c, rest)) :
    ParsedClause c ∧ rest <:+ ts := by
  unfold clause at h
  split at h
  · next ha => cases h; exact ⟨trivial, suffix_of_accept ha⟩
  split at h
  · next ha => cases h; exact ⟨trivial, suffix_of_accept ha⟩
  split at h
  · next ha => cases h; exact ⟨trivial, suffix_of_accept ha⟩
  split at h
  · next ha => cases h; exact ⟨trivial, suffix_of_accept ha⟩
  split at h
  · next ha =>
    obtain ⟨⟨r, l⟩, hr, he⟩ := except_map_eq_ok h
    cases he
    obtain ⟨hparsed, hsuffix⟩ := of_references hr
    exact ⟨hparsed, hsuffix.trans (suffix_of_accept ha)⟩
  split at h
  · next ha =>
    obtain ⟨⟨inside, l⟩, hgroup, he⟩ := except_map_eq_ok h
    cases he
    obtain ⟨hinside, hsuffix, henclosed⟩ := of_group hgroup
    have hrescans := hts.of_run (hinside.trans (suffix_of_accept ha).isInfix)
    exact ⟨parsedCondition_source hrescans henclosed, hsuffix.trans (suffix_of_accept ha)⟩
  split at h
  · next ha =>
    obtain ⟨⟨e, l⟩, hdefault, he⟩ := except_map_eq_ok h
    cases he
    have hrescans := hts.of_run (suffix_of_accept ha).isInfix
    obtain ⟨hparsed, hsuffix⟩ := of_defaultExpression hrescans hdefault
    exact ⟨hparsed, hsuffix.trans (suffix_of_accept ha)⟩
  split at h
  · next ha =>
    obtain ⟨⟨parts, l⟩, hparts, he⟩ := except_map_eq_ok h
    cases he
    exact ⟨trivial, (suffix_of_nameParts hparts).trans (suffix_of_accept ha)⟩
  split at h
  · next ha =>
    obtain ⟨l, hgenerated, he⟩ := except_map_eq_ok h
    cases he
    exact ⟨trivial, (suffix_of_generated hgenerated).trans (suffix_of_accept ha)⟩
  · obtain ⟨l, hskip, he⟩ := except_map_eq_ok h
    cases he
    obtain ⟨element, rfl, -⟩ := of_skipElement hskip
    exact ⟨trivial, List.suffix_append _ _⟩

theorem parsedClause_clausesFrom {fuel : Nat} {name : Option String} (hts : Rescans ts []) :
    ∀ x ∈ (clausesFrom fuel name ts).clauses, ParsedClause x.2 := by
  induction fuel generalizing name ts with
  | zero => exact fun x hx => absurd hx List.not_mem_nil
  | succ fuel ih =>
    rw [clausesFrom]
    split
    · exact fun x hx => absurd hx List.not_mem_nil
    split
    · next more ha =>
      have hmore := hts.of_run (suffix_of_accept ha).isInfix
      split
      · next hn => exact ih (hmore.of_run (suffix_of_expectName hn).isInfix)
      · exact fun x hx => absurd hx List.not_mem_nil
    · split
      · next c more hc =>
        obtain ⟨hparsed, hmore⟩ := of_clause hts hc
        intro x hx
        rcases List.mem_cons.1 hx with rfl | hx
        · exact hparsed
        · exact ih (hts.of_run hmore.isInfix) x hx
      · exact fun x hx => absurd hx List.not_mem_nil

/-- The default of a column definition scans by itself. -/
def ParsedDefinition (d : ColumnDefinition) : Prop :=
  ∀ s, d.defaultText = some s → ParsedDefault s

/-- What holds of a column under construction. -/
structure ParsedDraft (d : ColumnDraft) : Prop where
  definition : ParsedDefinition d.definition
  constraints : ∀ c ∈ d.constraints, ParsedConstraint c

theorem ParsedDraft.addNamed {d : ColumnDraft} {kind : ConstraintKind} (name : Option String)
    (hk : kind = .primaryKey ∨ kind = .unique) (h : ParsedDraft d) :
    ParsedDraft (d.addNamed kind name) := by
  unfold ColumnDraft.addNamed
  split
  · refine ⟨h.definition, fun c hc => ?_⟩
    rcases List.mem_append.1 hc with hc | hc
    · exact h.constraints c hc
    · obtain rfl := List.mem_singleton.1 hc
      exact parsedConstraint_columns hk (List.cons_ne_nil _ _)
  · exact h

theorem ParsedDraft.apply {d : ColumnDraft} {x : Option String × Clause} (hx : ParsedClause x.2)
    (h : ParsedDraft d) : ParsedDraft (d.apply x) := by
  obtain ⟨name, c⟩ := x
  cases c with
  | notNull => exact ⟨h.definition, h.constraints⟩
  | primaryKey =>
    exact ParsedDraft.addNamed name (.inl rfl) ⟨h.definition, h.constraints⟩
  | unique =>
    exact ParsedDraft.addNamed name (.inr rfl) ⟨h.definition, h.constraints⟩
  | references target =>
    simp only [ColumnDraft.apply]
    split
    · next hadded =>
      refine ⟨h.definition, fun c hc => ?_⟩
      rcases List.mem_append.1 hc with hc | hc
      · exact h.constraints c hc
      · obtain rfl := List.mem_singleton.1 hc
        refine parsedConstraint_reference hx (List.cons_ne_nil _ _) ?_
        rw [Bool.and_eq_true, Reference.columnText?] at hadded
        split at hadded
        · next hcolumns => rw [hcolumns]; rfl
        · cases hadded.1
    · exact ⟨h.definition, h.constraints⟩
  | check expression =>
    refine ⟨h.definition, fun c hc => ?_⟩
    rcases List.mem_append.1 hc with hc | hc
    · exact h.constraints c hc
    · obtain rfl := List.mem_singleton.1 hc
      exact parsedConstraint_check hx
  | default expression =>
    refine ⟨?_, h.constraints⟩
    rintro _ ⟨⟩
    exact hx
  | ignored => exact h

theorem parsedDraft_foldl {l : List (Option String × Clause)} {d : ColumnDraft}
    (hl : ∀ x ∈ l, ParsedClause x.2) (h : ParsedDraft d) :
    ParsedDraft (l.foldl ColumnDraft.apply d) := by
  induction l generalizing d with
  | nil => exact h
  | cons x l ih =>
    exact ih (fun y hy => hl y (List.mem_cons_of_mem x hy)) (h.apply (hl x List.mem_cons_self))

end Schemata
