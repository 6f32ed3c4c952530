/-
  Column flags in the constraints that a table is written with.

  * A table `StatesKeys` if it has no primary key of its own or one with columns, and it
    `StatesReference` of a column if it has no foreign key of its own on just that column or one that is
    complete;
  * `flags_allConstraints`: the constraints of a table come in the order of their kinds, no implied one
    repeats one of the table's own, and all flags are shown, those of keys and references as far as the
    table states these itself;
  * `allConstraints_halfTold`: a constraint that is not complete hides the flag and is not written.
-/
import Schemata.Proofs.Folding

namespace Schemata

namespace Table

variable {t : Table} {col : Column} {c d : Constraint}

/-! ## Complete constraints -/

/-- The table has no primary key of its own, or one that says something. -/
def StatesKeys (t : Table) : Prop :=
  t.constraintsOf .primaryKey ≠ [] → ∃ c ∈ t.constraintsOf .primaryKey, isWritable c = true

/-- The table has no foreign key of its own on just the column, or one that says something. -/
def StatesReference (t : Table) (col : Column) : Prop :=
  [col.folded] ∈ t.constrained .foreignKey →
    ∃ c ∈ t.constraintsOf .foreignKey, c.columnKey = [col.folded] ∧ isWritable c = true

theorem mem_constraintsOf {kind : ConstraintKind} :
    c ∈ t.constraintsOf kind ↔ c ∈ t.constraints ∧ c.kind = kind := by
  rw [constraintsOf, List.mem_filter, beq_iff_eq]

theorem mem_constrained {kind : ConstraintKind} {key : List String} :
    key ∈ t.constrained kind ↔ ∃ c ∈ t.constraints, c.kind = kind ∧ c.columnKey = key := by
  simp only [constrained, List.mem_map, mem_constraintsOf, and_assoc]

/-! ## The list of all constraints -/

theorem allConstraints_perm (t : Table) :
    t.allConstraints.Perm (t.constraints.filter isWritable ++ t.impliedConstraints) :=
  Constraint.byKind_perm _

theorem mem_allConstraints_of_own (hc : c ∈ t.constraints) (hw : isWritable c = true) :
    c ∈ t.allConstraints :=
  t.allConstraints_perm.mem_iff.2 (List.mem_append_left _ (List.mem_filter.2 ⟨hc, hw⟩))

theorem mem_allConstraints_of_implied (hc : c ∈ t.impliedConstraints) : c ∈ t.allConstraints :=
  t.allConstraints_perm.mem_iff.2 (List.mem_append_right _ hc)

/-- Constraints are listed in the order of their kinds. -/
theorem pairwise_rank_allConstraints (t : Table) :
    t.allConstraints.Pairwise fun c d => c.kind.rank ≤ d.kind.rank :=
  (Constraint.pairwise_byKind _).imp fun h => by simpa [Constraint.rankLE] using h

/-- What is implied is not said by the table itself. -/
theorem ne_of_mem_impliedConstraints (hc : c ∈ t.impliedConstraints) (hd : d ∈ t.constraints)
    (hkind : d.kind = c.kind) : d.columnKey ≠ c.columnKey := by
  obtain hc | ⟨col, -, hc | hc⟩ := mem_impliedConstraints.1 hc
  · obtain ⟨hnone, -, rfl⟩ := mem_impliedKey.1 hc
    have hmem : d ∈ t.constraintsOf .primaryKey := mem_constraintsOf.2 ⟨hd, hkind⟩
    rw [hnone] at hmem
    cases hmem
  · obtain ⟨text, r, -, hown, -, rfl⟩ := mem_impliedForeignKey.1 hc
    exact fun hkey => hown (mem_constrained.2 ⟨d, hd, hkind, hkey⟩)
  · obtain ⟨-, hown, rfl⟩ := mem_impliedUnique.1 hc
    exact fun hkey => hown (mem_constrained.2 ⟨d, hd, hkind, hkey⟩)

/-! ## Flags -/

/-- A flagged key column has a primary key, its own or the implied one. -/
theorem exists_primaryKey (hcol : col ∈ t.columns) (hkey : col.primaryKey = true)
    (hs : t.StatesKeys) : ∃ c ∈ t.allConstraints, c.kind = .primaryKey := by
  by_cases hnone : t.constraintsOf .primaryKey = []
  · have htitle : col.title ∈ t.primaryKeyColumns :=
      List.mem_map_of_mem (List.mem_filter.2 ⟨hcol, hkey⟩)
    have himplied : ({ kind := .primaryKey, columns := t.primaryKeyColumns } : Constraint) ∈
        t.impliedConstraints :=
      mem_impliedConstraints.2 (.inl (mem_impliedKey.2 ⟨hnone, List.ne_nil_of_mem htitle, rfl⟩))
    exact ⟨_, mem_allConstraints_of_implied himplied, rfl⟩
  · obtain ⟨c, hc, hw⟩ := hs hnone
    obtain ⟨hc, hkind⟩ := mem_constraintsOf.1 hc
    exact ⟨c, mem_allConstraints_of_own hc hw, hkind⟩

/-- A unique constraint on a column has columns, so it says something. -/
theorem isWritable_of_unique (hkind : c.kind = .unique) (hkey : c.columnKey = [col.folded]) :
    isWritable c = true := by
  have hne : c.columns ≠ [] := by
    intro hnil
    rw [Constraint.columnKey, hnil] at hkey
    cases hkey
  simpa [isWritable, hkind] using hne

/-- A unique column has a unique constraint on just itself. -/
theorem exists_unique (hcol : col ∈ t.columns) (hunique : col.unique = true) :
    ∃ c ∈ t.allConstraints, c.kind = .unique ∧ c.columnKey = [col.folded] := by
  by_cases hown : [col.folded] ∈ t.constrained .unique
  · obtain ⟨c, hc, hkind, hkey⟩ := mem_constrained.1 hown
    exact ⟨c, mem_allConstraints_of_own hc (isWritable_of_unique hkind hkey), hkind, hkey⟩
  · have himplied : ({ kind := .unique, columns := [col.title] } : Constraint) ∈
        t.impliedConstraints :=
      mem_impliedConstraints.2 (.inr ⟨col, hcol, .inr (mem_impliedUnique.2 ⟨hunique, hown, rfl⟩)⟩)
    exact ⟨_, mem_allConstraints_of_implied himplied, rfl, rfl⟩

/-- A text that names a column is not empty. -/
theorem filled_of_column {o : Option String} {r : Name.ColumnRef}
    (h : o.bind Name.column? = some r) : ∃ text, filled o = some text ∧ Name.column? text = some r := by
  obtain ⟨text, rfl, hr⟩ := Option.bind_eq_some_iff.1 h
  have hne : text ≠ "" := by
    rintro rfl
    cases hr
  exact ⟨text, by simp [filled, Option.filter, hne], hr⟩

/-- A column whose reference names a column has a foreign key on just itself. -/
theorem exists_foreignKey (hcol : col ∈ t.columns) {r : Name.ColumnRef}
    (hr : col.foreignKey.bind Name.column? = some r) (hs : t.StatesReference col) :
    ∃ c ∈ t.allConstraints, c.kind = .foreignKey ∧ c.columnKey = [col.folded] := by
  by_cases hown : [col.folded] ∈ t.constrained .foreignKey
  · obtain ⟨c, hc, hkey, hw⟩ := hs hown
    obtain ⟨hc, hkind⟩ := mem_constraintsOf.1 hc
    exact ⟨c, mem_allConstraints_of_own hc hw, hkind, hkey⟩
  · obtain ⟨text, htext, hname⟩ := filled_of_column hr
    have himplied := mem_impliedConstraints.2 (.inr ⟨col, hcol, .inl
      (mem_impliedForeignKey.2 ⟨text, r, htext, hown, hname, rfl⟩)⟩)
    exact ⟨_, mem_allConstraints_of_implied himplied, rfl, rfl⟩

/-- **Flags are shown in constraints.** The constraints that a table is written with are its own
    complete ones and those that are implied, in the order of their kinds. No implied one is of the
    kind and on the columns of one of the table's own. Every flag of a column has its constraint:
    a unique column always, a key column if the own primary keys are stated, and a column that refers
    to a column if the own foreign keys on it are. -/
theorem flags_allConstraints (t : Table) :
    (t.allConstraints.Perm (t.constraints.filter isWritable ++ t.impliedConstraints) ∧
      t.allConstraints.Pairwise fun c d => c.kind.rank ≤ d.kind.rank) ∧
    (∀ c ∈ t.impliedConstraints, ∀ d ∈ t.constraints, d.kind = c.kind →
      d.columnKey ≠ c.columnKey) ∧
    ∀ col ∈ t.columns,
      (col.primaryKey = true → t.StatesKeys → ∃ c ∈ t.allConstraints, c.kind = .primaryKey) ∧
      (col.unique = true →
        ∃ c ∈ t.allConstraints, c.kind = .unique ∧ c.columnKey = [col.folded]) ∧
      ∀ r, col.foreignKey.bind Name.column? = some r → t.StatesReference col →
        ∃ c ∈ t.allConstraints, c.kind = .foreignKey ∧ c.columnKey = [col.folded] := by
  refine ⟨⟨t.allConstraints_perm, t.pairwise_rank_allConstraints⟩, ?_, fun col hcol => ?_⟩
  · exact fun c hc d hd hkind => ne_of_mem_impliedConstraints hc hd hkind
  · exact ⟨exists_primaryKey hcol, exists_unique hcol, fun r => exists_foreignKey hcol⟩

/-- A table with flags of all kinds. Beside constraints that say nothing it has a primary key with
    columns and a complete foreign key. -/
def docket : Table :=
  { title := "docket"
    columns :=
      [{ title := "Id", required := true, primaryKey := true },
        { title := "mail", unique := true },
        { title := "owner", unique := true, foreignKey := some "app.users.id" },
        { title := "before", foreignKey := some "docket.id" }]
    constraints :=
      [{ kind := .check, name := some "blank" },
        { kind := .unique, name := some "empty" },
        { kind := .unique, columns := ["\"owner\""] },
        { kind := .foreignKey, columns := ["before"] },
        { kind := .foreignKey, name := some "chain", columns := ["BEFORE"],
          reference := some { table := "docket", columns := ["id"], onDelete := some "CASCADE" } },
        { kind := .primaryKey },
        { kind := .primaryKey, name := some "by id", columns := ["ID"] }] }

/-- Each flag of the docket is shown, by one of its own constraints or by an implied one. -/
theorem flags_allConstraints_docket :
    (docket.StatesKeys ∧ ∀ col ∈ docket.columns, docket.StatesReference col) ∧
      docket.allConstraints.map (fun c => (c.kind, c.columnKey)) =
        [(.primaryKey, ["id"]), (.foreignKey, ["before"]), (.foreignKey, ["owner"]),
          (.unique, ["owner"]), (.unique, ["mail"])] ∧
      ∀ col ∈ docket.columns,
        (col.primaryKey = true → ∃ c ∈ docket.allConstraints, c.kind = .primaryKey) ∧
        (col.unique = true →
          ∃ c ∈ docket.allConstraints, c.kind = .unique ∧ c.columnKey = [col.folded]) ∧
        ∀ r, col.foreignKey.bind Name.column? = some r →
          ∃ c ∈ docket.allConstraints, c.kind = .foreignKey ∧ c.columnKey = [col.folded] := by
  have hkeys : docket.StatesKeys := by
    unfold StatesKeys
    decide +kernel
  have hreferences : ∀ col ∈ docket.columns, docket.StatesReference col := by
    unfold StatesReference
    decide +kernel
  refine ⟨⟨hkeys, hreferences⟩, by decide +kernel, fun col hcol => ?_⟩
  obtain ⟨hkey, hunique, hreference⟩ := (flags_allConstraints docket).2.2 col hcol
  exact ⟨fun h => hkey h hkeys, hunique, fun r h => hreference r h (hreferences col hcol)⟩

/-- A key column that refers to another table. The primary key of the table has no columns, and its
    foreign key does not say what it refers to. -/
def halfTold : Table :=
  { title := "t"
    columns := [{ title := "a", required := true, primaryKey := true, foreignKey := some "u.id" }]
    constraints := [{ kind := .primaryKey }, { kind := .foreignKey, columns := ["a"] }] }

/-- Neither flag of that column is shown: the constraints of the table stand in the way of implied
    ones, and are not written themselves. -/
theorem allConstraints_halfTold :
    (∃ col ∈ halfTold.columns, col.primaryKey = true ∧
      col.foreignKey.bind Name.column? = some ⟨none, "u", "id"⟩) ∧
    halfTold.allConstraints = [] := by
  decide +kernel

end Table

end Schemata
