/-
  From flags and constraints to statements and back.

  * A table that is `cleared` has no flags and no constraints, whatever its columns are besides;
  * `foldlM_addConstraint`: constraints on columns that a table has are added to it one after the
    other, and nothing is noted;
  * `foldlM_allConstraints`: all constraints that a consistent table is written with, added to it when
    it is cleared, give its columns back, and its own constraints by kind.
-/
import Schemata.Proofs.Folding

namespace Schemata

open Log

variable {s : Schema} {key : String} {t : Table} {c : Constraint} {cs : List Constraint}

/-- The column without the flags that constraints imply; that it is required is left. -/
def Column.cleared (col : Column) : Column :=
  { col with primaryKey := false, unique := false, foreignKey := none }

/-- The table without flags and constraints. -/
def Table.cleared (t : Table) : Table :=
  { t with columns := t.columns.map Column.cleared, constraints := [] }

theorem Column.cleared_spec (col : Column) : col.cleared.Cleared col := ⟨rfl, rfl, rfl, rfl, rfl⟩

theorem Column.withFlags_cleared (col : Column) : col.cleared.withFlags col = col := rfl

theorem Table.folded_cleared (t : Table) :
    t.cleared.columns.map Column.folded = t.columns.map Column.folded := by
  rw [cleared, List.map_map]
  rfl

namespace Schema

/-! ## Adding constraints -/

theorem setTable_setTable (s : Schema) (key : String) (t u : Table) :
    (s.setTable key t).setTable key u = s.setTable key u := by
  simp only [setTable, OrderedMap.insert_insert]

/-- A constraint on columns that a table has is added to it, and nothing is noted. -/
theorem addConstraint_setTable
    (hk : ∀ n ∈ c.columns, Quote.fold n ∈ t.columns.map Column.folded) :
    (s.setTable key t).addConstraint key c = pure (s.setTable key (t.takeConstraint c)) := by
  have hthere : (s.setTable key t).tables.get? key = some t := by
    rw [setTable, OrderedMap.get?_insert, if_pos rfl]
  have hunknown := Table.isEmpty_unknown hk
  unfold addConstraint
  simp only [hthere, hunknown, if_true, setTable_setTable, Table.takeConstraint]

/-- Constraints on columns that a table has are added to it one after the other. -/
theorem foldlM_addConstraint (hd : (t.columns.map Column.folded).Nodup)
    (hk : ∀ c ∈ cs, ∀ n ∈ c.columns, Quote.fold n ∈ t.columns.map Column.folded) :
    cs.foldlM (fun s c => s.addConstraint key c) (s.setTable key t) =
      pure (s.setTable key ((cs.map Table.takeConstraint).foldl (fun u f => f u) t)) := by
  induction cs generalizing t with
  | nil => rfl
  | cons c cs ih =>
    have hkc := hk c List.mem_cons_self
    have hfolded := Table.folded_takeConstraint hd hkc
    have hrest := ih (t := t.takeConstraint c) (hfolded ▸ hd) fun d hm =>
      hfolded ▸ hk d (List.mem_cons_of_mem c hm)
    rw [List.foldlM_cons, addConstraint_setTable hkc, pure_bind, hrest]
    rfl

/-! ## There and back -/

/-- **Flags from constraints.** All constraints that a consistent table is written with, added to it
    when it is cleared, give its columns back exactly as they were, and its own constraints sorted
    by kind, those of one kind in their order. -/
theorem foldlM_allConstraints (h : Consistent t) (s : Schema) (key : String) :
    t.allConstraints.foldlM (fun s c => s.addConstraint key c) (s.setTable key t.cleared) =
      pure (s.setTable key
        { t with constraints := t.constraints.mergeSort Constraint.rankLE }) := by
  have hfolded := Table.folded_cleared t
  have hknown := Table.known_of_mem_allConstraints h
  have hback := Table.foldl_allConstraints h (u := t.cleared)
    (fun col _ => col.cleared_spec) rfl rfl
  rw [foldlM_addConstraint (hfolded ▸ h.titles) (hfolded ▸ hknown), hback,
    ← Constraint.byKind_eq_mergeSort]
  simp only [Column.withFlags_cleared, List.map_id', Table.cleared]

/-- A table with constraints of all kinds in no order, on columns that are called in several ways. Two
    foreign keys are on one column, and the later one says where it refers to. -/
def ledger : Table :=
  { title := "ledger"
    columns :=
      [{ title := "Id", required := true, primaryKey := true },
        { title := "day", required := true, primaryKey := true },
        { title := "owner", unique := true, foreignKey := some "app.users.id" },
        { title := "mail", unique := true, required := true },
        { title := "before", foreignKey := some "old.ledger.id" }]
    constraints :=
      [{ kind := .check, expression := some "day > 0" },
        { kind := .unique, columns := ["DAY", "owner"] },
        { kind := .foreignKey, name := some "later", columns := ["before"],
          reference := some { table := "ledger", columns := ["id"] } },
        { kind := .unique, name := some "\"Later on\"", columns := ["\"owner\""] },
        { kind := .foreignKey, columns := ["BEFORE"],
          reference := some { schema := some "old", table := "ledger", columns := ["id"],
                              onDelete := some "CASCADE" } },
        { kind := .primaryKey, name := some "by day", columns := ["day", "ID"] },
        { kind := .foreignKey, columns := ["Day", "id"],
          reference := some { table := "days", columns := ["day", "id"] } }] }

theorem consistent_ledger : Consistent ledger where
  titles := by decide +kernel
  required := by decide +kernel
  writable := by decide +kernel
  unfolded := by decide +kernel
  known := by decide +kernel
  apart := by decide +kernel
  matched := by decide +kernel
  keys := by decide +kernel
  uniques := by decide +kernel
  targets := by decide +kernel
  references := by decide +kernel

/-- The ledger is written with two constraints more than it has, since flags imply that `owner` refers
    and that `mail` is unique; all of them together give it back. -/
theorem foldlM_allConstraints_ledger :
    Consistent ledger ∧
      ledger.allConstraints.map Constraint.columnKey =
        [["day", "id"], ["before"], ["before"], ["day", "id"], ["owner"], ["day", "owner"], ["owner"],
          ["mail"], []] ∧
      ledger.allConstraints.foldlM (fun s c => s.addConstraint "ledger" c)
          (({} : Schema).setTable "ledger" ledger.cleared) =
        pure (({} : Schema).setTable "ledger"
          { ledger with constraints := ledger.constraints.mergeSort Constraint.rankLE }) := by
  refine ⟨consistent_ledger, ?_, foldlM_allConstraints consistent_ledger {} "ledger"⟩
  decide +kernel

end Schema

end Schemata
