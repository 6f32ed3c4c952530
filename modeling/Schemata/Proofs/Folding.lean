/-
  Constraints and column flags.  Some of what constraints say is kept in flags of the columns, and a
  table is written with the constraints that its flags imply.

  * `foldl_takeConstraint`: a run of constraints flags every column by itself and keeps those
    constraints that say more than flags;
  * `Consistent` tables have flags that agree with their constraints;
  * `foldl_allConstraints`: a consistent table without flags and constraints gets them back from all
    constraints that it is written with.
-/
import Mathlib.Data.List.Nodup
import Schemata.Ddl.Constraints
import Schemata.Proofs.Building
import Schemata.Proofs.Orders

namespace Schemata

/-! ## Flags of one column -/

/-- A reference to a single column has a text that names it. -/
theorem Reference.exists_columnText {r : Reference} (h : r.columns.length = 1) :
    ∃ text, filled r.columnText? = some text := by
  obtain ⟨n, hn⟩ := List.length_eq_one_iff.1 h
  refine ⟨Name.columnText r.schema r.table n, ?_⟩
  rw [Reference.columnText?, hn]
  simp [filled, Option.filter, Name.columnText]

namespace Constraint

/-- Whether the constraint is a primary key that covers a column. -/
def coversKey (c : Constraint) (folded : String) : Bool :=
  c.kind == .primaryKey && c.columnKey.contains folded

/-- Whether the constraint says that a column is unique. -/
def coversUnique (c : Constraint) (folded : String) : Bool :=
  c.kind == .unique && c.columnKey == [folded]

/-- The column that a foreign key on a single column refers to. -/
def target? (c : Constraint) (folded : String) : Option String :=
  if c.kind == .foreignKey && c.columnKey == [folded] then
    filled (c.reference.bind Reference.columnText?)
  else none

theorem coversKey_iff {c : Constraint} {folded : String} :
    c.coversKey folded = true ↔ c.kind = .primaryKey ∧ folded ∈ c.columnKey := by
  rw [coversKey, Bool.and_eq_true, beq_iff_eq, List.contains_iff_mem]

theorem coversUnique_iff {c : Constraint} {folded : String} :
    c.coversUnique folded = true ↔ c.kind = .unique ∧ c.columnKey = [folded] := by
  rw [coversUnique, Bool.and_eq_true, beq_iff_eq, beq_iff_eq]

theorem target?_eq_some_iff {c : Constraint} {folded text : String} :
    c.target? folded = some text ↔ c.kind = .foreignKey ∧ c.columnKey = [folded] ∧
      filled (c.reference.bind Reference.columnText?) = some text := by
  unfold target?
  split
  · next h =>
    rw [Bool.and_eq_true, beq_iff_eq, beq_iff_eq] at h
    simp only [h, true_and]
  · next h =>
    rw [Bool.and_eq_true, beq_iff_eq, beq_iff_eq] at h
    simp only [reduceCtorEq, false_iff]
    exact fun ht => h ⟨ht.1, ht.2.1⟩

/-- The constraints with one more; what flags say is not kept, nor what is there already. -/
def keep (ds : List Constraint) (c : Constraint) : List Constraint :=
  match filled c.name with
  | some name => ds.filter (fun d => !Table.constraintNamed name d) ++ [c]
  | none => if !c.isFolded && !ds.contains c then ds ++ [c] else ds

end Constraint

namespace Column

/-- The title in the form in which names are compared. -/
def folded (c : Column) : String := Quote.fold c.title

/-- The column with the flags that a constraint implies for it. -/
def flag (col : Column) (c : Constraint) : Column :=
  { col with
    primaryKey := col.primaryKey || c.coversKey col.folded
    required := col.required || c.coversKey col.folded
    unique := col.unique || c.coversUnique col.folded
    foreignKey := (c.target? col.folded).or col.foreignKey }

@[simp] theorem folded_flag (col : Column) (c : Constraint) : (col.flag c).folded = col.folded := rfl

theorem flag_eq_self {col : Column} {c : Constraint} (hk : c.coversKey col.folded = false)
    (hu : c.coversUnique col.folded = false) (ht : c.target? col.folded = none) :
    col.flag c = col := by
  simp [flag, hk, hu, ht]

theorem flag_eq_of_coversKey {col : Column} {c : Constraint} (hk : c.coversKey col.folded = true)
    (hu : c.coversUnique col.folded = false) (ht : c.target? col.folded = none) :
    col.flag c = { col with primaryKey := true, required := true } := by
  simp [flag, hk, hu, ht]

theorem flag_eq_of_coversUnique {col : Column} {c : Constraint}
    (hk : c.coversKey col.folded = false) (hu : c.coversUnique col.folded = true)
    (ht : c.target? col.folded = none) : col.flag c = { col with unique := true } := by
  simp [flag, hk, hu, ht]

theorem flag_eq_of_target? {col : Column} {c : Constraint} {text : String}
    (hk : c.coversKey col.folded = false) (hu : c.coversUnique col.folded = false)
    (ht : c.target? col.folded = some text) : col.flag c = { col with foreignKey := some text } := by
  simp [flag, hk, hu, ht]

/-- The flags that several constraints imply. -/
theorem foldl_flag (col : Column) (cs : List Constraint) : cs.foldl flag col =
    { col with
      primaryKey := col.primaryKey || cs.any (·.coversKey col.folded)
      required := col.required || cs.any (·.coversKey col.folded)
      unique := col.unique || cs.any (·.coversUnique col.folded)
      foreignKey := (cs.filterMap (·.target? col.folded)).getLast?.or col.foreignKey } := by
  induction cs generalizing col with
  | nil => simp
  | cons c cs ih =>
    rw [List.foldl_cons, ih]
    simp only [folded_flag, List.any_cons, List.filterMap_cons]
    cases ht : c.target? col.folded with
    | none => simp [flag, ht, Bool.or_assoc]
    | some text =>
      simp only [flag, ht, Bool.or_assoc, List.getLast?_cons, Option.some_or]
      cases (cs.filterMap (·.target? col.folded)).getLast? <;> simp

end Column

/-! ## Tables -/

namespace Table

variable {t : Table} {cs : List Constraint}

theorem updateFirst_eq_map {f : Column → Column} {l : List Column} (k : String)
    (hd : (l.map Column.folded).Nodup) :
    updateFirst (hasName k) f l = l.map fun c => if c.folded = k then f c else c := by
  induction l with
  | nil => rfl
  | cons c l ih =>
    rw [List.map_cons, List.nodup_cons] at hd
    by_cases hc : c.folded = k
    · have hh : hasName k c = true := by simpa [hasName, Column.folded] using hc
      have hother : (l.map fun c => if c.folded = k then f c else c) = l := by
        conv_rhs => rw [← List.map_id l]
        refine List.map_congr_left fun d hdm => ?_
        have : d.folded ≠ k := fun hdk => hd.1 (List.mem_map.2 ⟨d, hdm, hdk.trans hc.symm⟩)
        rw [if_neg this, id]
      rw [updateFirst, if_pos hh, List.map_cons, if_pos hc, hother]
    · have hh : ¬hasName k c = true := by simpa [hasName, Column.folded] using hc
      rw [updateFirst, if_neg hh, List.map_cons, if_neg hc, ih hd.2]

theorem updateColumn_eq {f : Column → Column} (name : String)
    (hd : (t.columns.map Column.folded).Nodup) : t.updateColumn name f =
      { t with columns := t.columns.map fun c => if c.folded = Quote.fold name then f c else c } := by
  rw [updateColumn, updateFirst_eq_map _ hd]

theorem foldl_updateColumn {f : Column → Column} (hf : ∀ c, (f c).folded = c.folded)
    (hff : ∀ c, f (f c) = f c) (names : List String) (hd : (t.columns.map Column.folded).Nodup) :
    names.foldl (fun t n => t.updateColumn n f) t =
      { t with columns := t.columns.map fun c =>
                if c.folded ∈ names.map Quote.fold then f c else c } := by
  induction names generalizing t with
  | nil => simp
  | cons n names ih =>
    have hfolded : ∀ c : Column, (if c.folded = Quote.fold n then f c else c).folded = c.folded := by
      intro c
      split
      · exact hf c
      · rfl
    have hd' : ((t.updateColumn n f).columns.map Column.folded).Nodup := by
      rw [updateColumn_eq n hd, List.map_map]
      simpa only [Function.comp_def, hfolded] using hd
    rw [List.foldl_cons, ih hd', updateColumn_eq n hd, List.map_map]
    refine congrArg (fun columns => { t with columns }) (List.map_congr_left fun c _ => ?_)
    simp only [Function.comp_apply, hfolded, List.map_cons, List.mem_cons]
    by_cases hn : c.folded = Quote.fold n
    · simp only [hn, if_true, true_or, hff, ite_self]
    · simp only [hn, if_false, false_or]

theorem fold_eq_iff {n k : String} : [Quote.fold n] = [k] ↔ k ∈ [n].map Quote.fold := by
  rw [List.map_singleton, List.mem_singleton, List.singleton_inj, eq_comm]

/-- Updates of named columns flag every column, if they do what a constraint implies for these and it
    implies nothing for others. -/
theorem foldl_updateColumn_flag {f : Column → Column} {c : Constraint} {names : List String}
    (hf : ∀ col, (f col).folded = col.folded) (hff : ∀ col, f (f col) = f col)
    (hd : (t.columns.map Column.folded).Nodup)
    (hin : ∀ col : Column, col.folded ∈ names.map Quote.fold → col.flag c = f col)
    (hout : ∀ col : Column, col.folded ∉ names.map Quote.fold → col.flag c = col) :
    names.foldl (fun t n => t.updateColumn n f) t =
      { t with columns := t.columns.map fun col => col.flag c } := by
  rw [foldl_updateColumn hf hff names hd]
  refine congrArg (fun columns => { t with columns }) (List.map_congr_left fun col _ => ?_)
  split
  · next h => exact (hin col h).symm
  · next h => exact (hout col h).symm

theorem setFlags_eq_self {c : Constraint} (h : t.setFlags c = t)
    (hc : ∀ col : Column, col.flag c = col) :
    t.setFlags c = { t with columns := t.columns.map fun col => col.flag c } := by
  rw [h]
  simp only [hc, List.map_id']

/-- A constraint flags every column by itself. -/
theorem setFlags_eq (c : Constraint) (hd : (t.columns.map Column.folded).Nodup) :
    t.setFlags c = { t with columns := t.columns.map fun col => col.flag c } := by
  obtain ⟨kind, name, columns, reference, expression⟩ := c
  cases kind with
  | primaryKey =>
    refine foldl_updateColumn_flag (fun _ => rfl) (fun _ => rfl) hd (fun col h => ?_) fun col h => ?_
    · exact Column.flag_eq_of_coversKey (Constraint.coversKey_iff.2 ⟨rfl, h⟩) rfl rfl
    · refine Column.flag_eq_self (Bool.eq_false_iff.2 fun hkey => h ?_) rfl rfl
      exact (Constraint.coversKey_iff.1 hkey).2
  | unique =>
    match columns with
    | [] => exact setFlags_eq_self rfl fun col => Column.flag_eq_self rfl rfl rfl
    | [n] =>
      show [n].foldl (fun t n => t.updateColumn n fun col => { col with unique := true }) t = _
      refine foldl_updateColumn_flag (fun _ => rfl) (fun _ => rfl) hd (fun col h => ?_)
        fun col h => ?_
      · refine Column.flag_eq_of_coversUnique rfl ?_ rfl
        exact Constraint.coversUnique_iff.2 ⟨rfl, fold_eq_iff.2 h⟩
      · refine Column.flag_eq_self rfl (Bool.eq_false_iff.2 fun hunique => h ?_) rfl
        exact fold_eq_iff.1 (Constraint.coversUnique_iff.1 hunique).2
    | n :: m :: more =>
      refine setFlags_eq_self rfl fun col => Column.flag_eq_self rfl ?_ rfl
      simp [Constraint.coversUnique, Constraint.columnKey]
  | foreignKey =>
    match columns with
    | [] => exact setFlags_eq_self rfl fun col => Column.flag_eq_self rfl rfl rfl
    | [n] =>
      have hflags : t.setFlags ⟨.foreignKey, name, [n], reference, expression⟩ =
          match filled (reference.bind Reference.columnText?) with
          | some text => t.updateColumn n fun col => { col with foreignKey := some text }
          | none => t := rfl
      cases htext : filled (reference.bind Reference.columnText?) with
      | none =>
        refine setFlags_eq_self (by rw [hflags, htext]) fun col => Column.flag_eq_self rfl rfl ?_
        simp [Constraint.target?, htext]
      | some text =>
        rw [hflags, htext]
        show [n].foldl (fun t n => t.updateColumn n fun col => { col with foreignKey := some text })
          t = _
        refine foldl_updateColumn_flag (fun _ => rfl) (fun _ => rfl) hd (fun col h => ?_)
          fun col h => ?_
        · refine Column.flag_eq_of_target? rfl rfl ?_
          exact Constraint.target?_eq_some_iff.2 ⟨rfl, fold_eq_iff.2 h, htext⟩
        · refine Column.flag_eq_self rfl rfl (Option.eq_none_iff_forall_ne_some.2 fun _ ht => h ?_)
          exact fold_eq_iff.1 (Constraint.target?_eq_some_iff.1 ht).2.1
    | n :: m :: more =>
      refine setFlags_eq_self rfl fun col => Column.flag_eq_self rfl rfl ?_
      simp [Constraint.target?, Constraint.columnKey]
  | check => exact setFlags_eq_self rfl fun col => Column.flag_eq_self rfl rfl rfl

theorem keepConstraint_eq (c : Constraint) :
    t.keepConstraint c = { t with constraints := Constraint.keep t.constraints c } := by
  unfold keepConstraint Constraint.keep
  cases filled c.name with
  | some name => rfl
  | none =>
    dsimp only
    split <;> rfl

theorem isEmpty_unknown {c : Constraint}
    (hk : ∀ n ∈ c.columns, Quote.fold n ∈ t.columns.map Column.folded) :
    (c.columns.filter fun n => (t.findColumn? n).isNone).isEmpty = true := by
  rw [List.isEmpty_iff, List.filter_eq_nil_iff]
  intro n hn hnone
  obtain ⟨col, hcol, hfold⟩ := List.mem_map.1 (hk n hn)
  rw [Option.isNone_iff_eq_none, findColumn?, List.find?_eq_none] at hnone
  exact hnone col hcol (by simpa [hasName, Column.folded] using hfold)

/-- A constraint flags every column by itself and is kept if flags do not say it. -/
theorem takeConstraint_eq {c : Constraint} (hd : (t.columns.map Column.folded).Nodup)
    (hk : ∀ n ∈ c.columns, Quote.fold n ∈ t.columns.map Column.folded) :
    takeConstraint c t = { t with
      columns := t.columns.map fun col => col.flag c
      constraints := Constraint.keep t.constraints c } := by
  rw [takeConstraint, if_pos (isEmpty_unknown hk), setFlags_eq c hd, keepConstraint_eq]

/-- A constraint does not change what columns are called. -/
theorem folded_takeConstraint {c : Constraint} (hd : (t.columns.map Column.folded).Nodup)
    (hk : ∀ n ∈ c.columns, Quote.fold n ∈ t.columns.map Column.folded) :
    (takeConstraint c t).columns.map Column.folded = t.columns.map Column.folded := by
  rw [takeConstraint_eq hd hk, List.map_map]
  rfl

/-- A run of constraints flags every column by itself and keeps what flags do not say. -/
theorem foldl_takeConstraint (hd : (t.columns.map Column.folded).Nodup)
    (hk : ∀ c ∈ cs, ∀ n ∈ c.columns, Quote.fold n ∈ t.columns.map Column.folded) :
    (cs.map takeConstraint).foldl (fun u f => f u) t =
      { t with
        columns := t.columns.map fun col => cs.foldl Column.flag col
        constraints := cs.foldl Constraint.keep t.constraints } := by
  induction cs generalizing t with
  | nil => simp
  | cons c cs ih =>
    have hkc := hk c List.mem_cons_self
    have hfolded := folded_takeConstraint hd hkc
    rw [List.map_cons, List.foldl_cons, ih (hfolded ▸ hd) fun d hdm => hfolded ▸ hk d
      (List.mem_cons_of_mem c hdm), takeConstraint_eq hd hkc, List.map_map]
    rfl

end Table

/-! ## Constraints that are kept -/

namespace Constraint

variable {c d : Constraint} {ds L : List Constraint}

/-- One of the two does not replace the other: their names differ, or both have none and they are
    not the same. -/
def Apart (c d : Constraint) : Prop :=
  match filled c.name, filled d.name with
  | some n, some m => Quote.fold n ≠ Quote.fold m
  | none, none => c ≠ d
  | _, _ => True

instance (c d : Constraint) : Decidable (Apart c d) :=
  match hn : filled c.name, hm : filled d.name with
  | some n, some m => decidable_of_iff (Quote.fold n ≠ Quote.fold m) (by simp only [Apart, hn, hm])
  | none, none => decidable_of_iff (c ≠ d) (by simp only [Apart, hn, hm])
  | some _, none => .isTrue (by simp only [Apart, hn, hm])
  | none, some _ => .isTrue (by simp only [Apart, hn, hm])

theorem Apart.symm (h : Apart c d) : Apart d c := by
  unfold Apart at h ⊢
  cases hn : filled c.name <;> cases hm : filled d.name <;> rw [hn, hm] at h
  · exact Ne.symm h
  · trivial
  · trivial
  · exact Ne.symm h

theorem keep_of_isFolded (h : c.isFolded = true) : keep ds c = ds := by
  have hname : filled c.name = none := by
    cases hn : filled c.name with
    | none => rfl
    | some n => simp [isFolded, hn] at h
  simp [keep, hname, h]

theorem keep_of_apart (h : c.isFolded = false) (hd : ∀ d ∈ ds, Apart d c) :
    keep ds c = ds ++ [c] := by
  unfold keep
  cases hn : filled c.name with
  | none =>
    have : ds.contains c = false := by
      rw [Bool.eq_false_iff, ne_eq, List.contains_iff_mem]
      intro hm
      have := hd c hm
      simp [Apart, hn] at this
    simp only [h, this, Bool.not_false, Bool.and_self, if_true]
  | some n =>
    have : ds.filter (fun d => !Table.constraintNamed n d) = ds := by
      refine List.filter_eq_self.2 fun d hdm => ?_
      have := hd d hdm
      unfold Apart at this
      cases hm : filled d.name with
      | none => simp [Table.constraintNamed, hm]
      | some m =>
        rw [hm, hn] at this
        simpa [Table.constraintNamed, hm] using this
    simp only [this]

/-- What flags carry is left out, all else is kept in its order. -/
theorem foldl_keep (h : (ds ++ L.filter fun c => !c.isFolded).Pairwise Apart) :
    L.foldl keep ds = ds ++ L.filter fun c => !c.isFolded := by
  induction L generalizing ds with
  | nil => simp
  | cons c L ih =>
    rw [List.foldl_cons]
    cases hc : c.isFolded with
    | true =>
      rw [List.filter_cons_of_neg (by simp [hc])] at h ⊢
      rw [keep_of_isFolded hc, ih h]
    | false =>
      rw [List.filter_cons_of_pos (by simp [hc])] at h ⊢
      have hd : ∀ d ∈ ds, Apart d c := fun d hd =>
        (List.pairwise_append.1 h).2.2 d hd c List.mem_cons_self
      rw [keep_of_apart hc hd, ih (by simpa using h)]
      simp

end Constraint

/-! ## Consistent tables -/

open Constraint (byKind)

/-- The flags of the columns agree with the constraints, which say more than flags could. -/
structure Consistent (t : Table) : Prop where
  titles : (t.columns.map Column.folded).Nodup
  required : ∀ col ∈ t.columns, col.primaryKey = true → col.required = true
  writable : ∀ c ∈ t.constraints, Table.isWritable c = true
  unfolded : ∀ c ∈ t.constraints, c.isFolded = false
  known : ∀ c ∈ t.constraints, ∀ n ∈ c.columns, Quote.fold n ∈ t.columns.map Column.folded
  apart : t.constraints.Pairwise Constraint.Apart
  /-- A foreign key refers to as many columns as it covers. -/
  matched : ∀ c ∈ t.constraints, c.kind = .foreignKey → ∀ r, c.reference = some r →
    r.columns.length = c.columns.length
  /-- Primary keys, if there are any, cover just the key columns. -/
  keys : t.constraintsOf .primaryKey ≠ [] → ∀ col ∈ t.columns,
    t.constraints.any (·.coversKey col.folded) = col.primaryKey
  uniques : ∀ c ∈ t.constraints, ∀ col ∈ t.columns, c.coversUnique col.folded = true →
    col.unique = true
  /-- The last foreign key on a single column gives its target. -/
  targets : ∀ col ∈ t.columns, ∀ text,
    (t.constraints.filterMap (·.target? col.folded)).getLast? = some text →
      col.foreignKey = some text
  /-- Any other target is the text of a column. -/
  references : ∀ col ∈ t.columns, [col.folded] ∉ t.constrained .foreignKey → ∀ text,
    col.foreignKey = some text → ∃ r, Name.column? text = some r ∧
      Name.columnText r.schema r.table r.column = text

namespace Table

variable {t u : Table}

theorem allConstraints_eq (h : ∀ c ∈ t.constraints, isWritable c = true) :
    t.allConstraints = byKind (t.constraints ++ t.impliedConstraints) := by
  have : t.constraints.filter isWritable = t.constraints := List.filter_eq_self.2 h
  show byKind (t.constraints.filter isWritable ++ t.impliedConstraints) = _
  rw [this]

/-! ### Implied constraints -/

theorem mem_impliedKey {c : Constraint} : c ∈ t.impliedKey ↔
    t.constraintsOf .primaryKey = [] ∧ t.primaryKeyColumns ≠ [] ∧
      c = { kind := .primaryKey, columns := t.primaryKeyColumns } := by
  unfold impliedKey
  split <;> simp_all

theorem mem_impliedForeignKey {own : List (List String)} {col : Column} {c : Constraint} :
    c ∈ impliedForeignKey own col ↔ ∃ text r, filled col.foreignKey = some text ∧
      [col.folded] ∉ own ∧ Name.column? text = some r ∧
      c = { kind := .foreignKey, columns := [col.title],
            reference := some { schema := r.schema, table := r.table, columns := [r.column] } } := by
  unfold impliedForeignKey Column.folded
  split
  · simp [*]
  · split
    · simp_all
    · split <;> simp_all

theorem mem_impliedUnique {own : List (List String)} {col : Column} {c : Constraint} :
    c ∈ impliedUnique own col ↔
      col.unique = true ∧ [col.folded] ∉ own ∧ c = { kind := .unique, columns := [col.title] } := by
  unfold impliedUnique Column.folded
  split <;> simp_all

theorem mem_impliedConstraints {c : Constraint} : c ∈ t.impliedConstraints ↔
    c ∈ t.impliedKey ∨ ∃ col ∈ t.columns, c ∈ impliedForeignKey (t.constrained .foreignKey) col ∨
      c ∈ impliedUnique (t.constrained .unique) col := by
  simp [impliedConstraints]

theorem columnText?_singleton (r : Name.ColumnRef) :
    (some { schema := r.schema, table := r.table, columns := [r.column] }).bind
      Reference.columnText? = some (Name.columnText r.schema r.table r.column) := rfl

theorem isFolded_of_mem_impliedConstraints {c : Constraint} (h : c ∈ t.impliedConstraints) :
    c.isFolded = true := by
  obtain h | ⟨col, -, h | h⟩ := mem_impliedConstraints.1 h
  · obtain ⟨-, hne, rfl⟩ := mem_impliedKey.1 h
    have : t.primaryKeyColumns.isEmpty = false := List.isEmpty_eq_false_iff.2 hne
    simp [Constraint.isFolded, filled, this]
  · obtain ⟨text, r, -, -, -, rfl⟩ := mem_impliedForeignKey.1 h
    rfl
  · obtain ⟨-, -, rfl⟩ := mem_impliedUnique.1 h
    rfl

theorem known_of_mem_impliedConstraints {c : Constraint} (h : c ∈ t.impliedConstraints) :
    ∀ n ∈ c.columns, Quote.fold n ∈ t.columns.map Column.folded := by
  intro n hn
  obtain h | ⟨col, hcol, h | h⟩ := mem_impliedConstraints.1 h
  · obtain ⟨-, -, rfl⟩ := mem_impliedKey.1 h
    obtain ⟨col, hcol, rfl⟩ := List.mem_map.1 hn
    exact List.mem_map_of_mem (List.mem_filter.1 hcol).1
  · obtain ⟨text, r, -, -, -, rfl⟩ := mem_impliedForeignKey.1 h
    rw [List.mem_singleton.1 hn]
    exact List.mem_map_of_mem hcol
  · obtain ⟨-, -, rfl⟩ := mem_impliedUnique.1 h
    rw [List.mem_singleton.1 hn]
    exact List.mem_map_of_mem hcol

/-! ### Flags from all constraints -/

section
variable {col : Column} (h : Consistent t) (hcol : col ∈ t.columns)
include h hcol

theorem any_coversKey :
    (t.constraints ++ t.impliedConstraints).any (·.coversKey col.folded) = col.primaryKey := by
  have himplied : t.impliedConstraints.any (·.coversKey col.folded) = true ↔
      t.constraintsOf .primaryKey = [] ∧ col.primaryKey = true := by
    rw [List.any_eq_true]
    constructor
    · rintro ⟨c, hc, hcover⟩
      obtain hc | ⟨col', -, hc | hc⟩ := mem_impliedConstraints.1 hc
      · obtain ⟨hnone, -, rfl⟩ := mem_impliedKey.1 hc
        obtain ⟨title, htitle, hfold⟩ := List.mem_map.1 (Constraint.coversKey_iff.1 hcover).2
        obtain ⟨col', hcol', rfl⟩ := List.mem_map.1 htitle
        obtain ⟨hmem, hkey⟩ := List.mem_filter.1 hcol'
        obtain rfl := List.inj_on_of_nodup_map h.titles hmem hcol hfold
        exact ⟨hnone, hkey⟩
      · obtain ⟨text, r, -, -, -, rfl⟩ := mem_impliedForeignKey.1 hc
        cases (Constraint.coversKey_iff.1 hcover).1
      · obtain ⟨-, -, rfl⟩ := mem_impliedUnique.1 hc
        cases (Constraint.coversKey_iff.1 hcover).1
    · rintro ⟨hnone, hkey⟩
      have hmem : col ∈ t.columns.filter (·.primaryKey) := List.mem_filter.2 ⟨hcol, hkey⟩
      have hne : t.primaryKeyColumns ≠ [] := fun he =>
        List.not_mem_nil (he ▸ List.mem_map_of_mem hmem : col.title ∈ [])
      refine ⟨_, mem_impliedConstraints.2 (.inl (mem_impliedKey.2 ⟨hnone, hne, rfl⟩)), ?_⟩
      exact Constraint.coversKey_iff.2 ⟨rfl, List.mem_map_of_mem (List.mem_map_of_mem hmem)⟩
  rw [List.any_append]
  by_cases hnone : t.constraintsOf .primaryKey = []
  · have hown : t.constraints.any (·.coversKey col.folded) = false := by
      rw [List.any_eq_false]
      intro c hc hcover
      have hkind := (Constraint.coversKey_iff.1 hcover).1
      exact List.not_mem_nil (hnone ▸ List.mem_filter.2 ⟨hc, beq_iff_eq.2 hkind⟩ : c ∈ [])
    rw [hown, Bool.false_or, Bool.eq_iff_iff, himplied]
    exact and_iff_right hnone
  · have hnot : t.impliedConstraints.any (·.coversKey col.folded) = false := by
      rw [Bool.eq_false_iff, ne_eq, himplied]
      exact fun hh => hnone hh.1
    rw [hnot, Bool.or_false, h.keys hnone col hcol]

theorem any_coversUnique :
    (t.constraints ++ t.impliedConstraints).any (·.coversUnique col.folded) = col.unique := by
  rw [Bool.eq_iff_iff, List.any_eq_true]
  constructor
  · rintro ⟨c, hc, hcover⟩
    rcases List.mem_append.1 hc with hc | hc
    · exact h.uniques c hc col hcol hcover
    · obtain hc | ⟨col', hcol', hc | hc⟩ := mem_impliedConstraints.1 hc
      · obtain ⟨-, -, rfl⟩ := mem_impliedKey.1 hc
        cases (Constraint.coversUnique_iff.1 hcover).1
      · obtain ⟨text, r, -, -, -, rfl⟩ := mem_impliedForeignKey.1 hc
        cases (Constraint.coversUnique_iff.1 hcover).1
      · obtain ⟨hunique, -, rfl⟩ := mem_impliedUnique.1 hc
        have hfold : col'.folded = col.folded :=
          List.singleton_inj.1 (Constraint.coversUnique_iff.1 hcover).2
        obtain rfl := List.inj_on_of_nodup_map h.titles hcol' hcol hfold
        exact hunique
  · intro hunique
    by_cases hown : [col.folded] ∈ t.constrained .unique
    · obtain ⟨c, hc, hkey⟩ := List.mem_map.1 hown
      obtain ⟨hc, hkind⟩ := List.mem_filter.1 hc
      exact ⟨c, List.mem_append_left _ hc, Constraint.coversUnique_iff.2 ⟨beq_iff_eq.1 hkind, hkey⟩⟩
    · refine ⟨{ kind := .unique, columns := [col.title] }, List.mem_append_right _ ?_, ?_⟩
      · exact mem_impliedConstraints.2
          (.inr ⟨col, hcol, .inr (mem_impliedUnique.2 ⟨hunique, hown, rfl⟩)⟩)
      · exact Constraint.coversUnique_iff.2 ⟨rfl, rfl⟩

omit hcol in
/-- A foreign key on the column alone has a target. -/
theorem exists_target (hown : [col.folded] ∈ t.constrained .foreignKey) :
    t.constraints.filterMap (·.target? col.folded) ≠ [] := by
  obtain ⟨c, hc, hkey⟩ := List.mem_map.1 hown
  obtain ⟨hc, hkind⟩ := List.mem_filter.1 hc
  rw [beq_iff_eq] at hkind
  have hwritable := h.writable c hc
  simp only [isWritable, hkind, Bool.and_eq_true, Option.any_eq_true] at hwritable
  obtain ⟨-, r, hr, -⟩ := hwritable
  have hlen : c.columns.length = 1 := by
    have := congrArg List.length hkey
    simpa [Constraint.columnKey] using this
  obtain ⟨text, htext⟩ := Reference.exists_columnText ((h.matched c hc hkind r hr).trans hlen)
  have htarget : c.target? col.folded = some text :=
    Constraint.target?_eq_some_iff.2 ⟨hkind, hkey, by rw [hr, Option.bind_some, htext]⟩
  intro hnil
  have hmem : text ∈ t.constraints.filterMap (·.target? col.folded) :=
    List.mem_filterMap.2 ⟨c, hc, htarget⟩
  rw [hnil] at hmem
  cases hmem

/-- The target that implied foreign keys give is the one of the column. -/
theorem target_of_implied {text : String}
    (htext : text ∈ t.impliedConstraints.filterMap (·.target? col.folded)) :
    [col.folded] ∉ t.constrained .foreignKey ∧ col.foreignKey = some text := by
  obtain ⟨c, hc, htarget⟩ := List.mem_filterMap.1 htext
  obtain ⟨hkind, hkey, hsame⟩ := Constraint.target?_eq_some_iff.1 htarget
  obtain hc | ⟨col', hcol', hc | hc⟩ := mem_impliedConstraints.1 hc
  · obtain ⟨-, -, rfl⟩ := mem_impliedKey.1 hc
    cases hkind
  · obtain ⟨text', r, hfilled, hown, hr, rfl⟩ := mem_impliedForeignKey.1 hc
    have hfold : col'.folded = col.folded := List.singleton_inj.1 hkey
    obtain rfl := List.inj_on_of_nodup_map h.titles hcol' hcol hfold
    obtain ⟨hsome, -⟩ := Option.filter_eq_some_iff.1 hfilled
    obtain ⟨r', hr', hback⟩ := h.references col' hcol hown text' hsome
    obtain rfl : r = r' := Option.some.inj (hr.symm.trans hr')
    simp only [columnText?_singleton, hback] at hsame
    exact ⟨hown, hsome.trans (Option.filter_eq_some_iff.1 hsame).1⟩
  · obtain ⟨-, -, rfl⟩ := mem_impliedUnique.1 hc
    cases hkind

theorem exists_implied_target {text : String} (hown : [col.folded] ∉ t.constrained .foreignKey)
    (htext : col.foreignKey = some text) :
    text ∈ t.impliedConstraints.filterMap (·.target? col.folded) := by
  obtain ⟨r, hr, hback⟩ := h.references col hcol hown text htext
  have hfilled : filled (some text) = some text := by
    rw [← hback]
    simp [filled, Option.filter, Name.columnText]
  refine List.mem_filterMap.2 ⟨_, mem_impliedConstraints.2 (.inr ⟨col, hcol, .inl
    (mem_impliedForeignKey.2 ⟨text, r, htext ▸ hfilled, hown, hr, rfl⟩)⟩), ?_⟩
  refine Constraint.target?_eq_some_iff.2 ⟨rfl, rfl, ?_⟩
  simp only [columnText?_singleton, hback, hfilled]

theorem getLast?_target :
    ((t.constraints ++ t.impliedConstraints).filterMap (·.target? col.folded)).getLast? =
      col.foreignKey := by
  rw [List.filterMap_append, List.getLast?_append]
  by_cases hown : [col.folded] ∈ t.constrained .foreignKey
  · have himplied : t.impliedConstraints.filterMap (·.target? col.folded) = [] :=
      List.eq_nil_iff_forall_not_mem.2 fun text htext => (target_of_implied h hcol htext).1 hown
    rw [himplied, List.getLast?_nil, Option.none_or]
    cases hlast : (t.constraints.filterMap (·.target? col.folded)).getLast? with
    | none => exact absurd (List.getLast?_eq_none_iff.1 hlast) (exists_target h hown)
    | some text => exact (h.targets col hcol text hlast).symm
  · have hnone : t.constraints.filterMap (·.target? col.folded) = [] := by
      refine List.filterMap_eq_nil_iff.2 fun c hc => ?_
      rw [Constraint.target?, if_neg]
      intro hc'
      rw [Bool.and_eq_true, beq_iff_eq (a := c.columnKey)] at hc'
      exact hown (List.mem_map.2 ⟨c, List.mem_filter.2 ⟨hc, hc'.1⟩, hc'.2⟩)
    rw [hnone, List.getLast?_nil, Option.or_none]
    cases hlast : (t.impliedConstraints.filterMap (·.target? col.folded)).getLast? with
    | some text => exact (target_of_implied h hcol (List.mem_of_getLast? hlast)).2.symm
    | none =>
      cases hkey : col.foreignKey with
      | none => rfl
      | some text =>
        have := exists_implied_target h hcol hown hkey
        rw [List.getLast?_eq_none_iff.1 hlast] at this
        cases this

end

end Table

/-! ## All constraints together -/

/-- A column without the flags that constraints imply. -/
structure Column.Cleared (b col : Column) : Prop where
  title : b.title = col.title
  required : b.required = col.required
  primaryKey : b.primaryKey = false
  unique : b.unique = false
  foreignKey : b.foreignKey = none

/-- The column with the flags of another one. -/
def Column.withFlags (b col : Column) : Column :=
  { b with primaryKey := col.primaryKey, unique := col.unique, foreignKey := col.foreignKey }

namespace Constraint

theorem filterMap_byKind {α : Type} (kind : ConstraintKind) {f : Constraint → Option α}
    (hf : ∀ c, c.kind ≠ kind → f c = none) (cs : List Constraint) :
    (byKind cs).filterMap f = cs.filterMap f := by
  have hone (kind' : ConstraintKind) : (cs.filter fun c => c.kind == kind').filterMap f =
      if kind = kind' then cs.filterMap f else [] := by
    rw [List.filterMap_filter]
    split
    · next h =>
      refine List.filterMap_congr fun c _ => ?_
      split
      · rfl
      · next hc => exact (hf c fun he => hc (by simp [he, h])).symm
    · next h =>
      refine List.filterMap_eq_nil_iff.2 fun c _ => ?_
      split
      · next hc => exact hf c fun he => h (he.symm.trans (eq_of_beq hc))
      · rfl
  simp only [byKind, ConstraintKind.all, List.flatMap_cons, List.flatMap_nil, List.append_nil,
    List.filterMap_append, hone]
  cases kind <;> simp

theorem filter_byKind (p : Constraint → Bool) (cs : List Constraint) :
    (byKind cs).filter p = byKind (cs.filter p) := by
  simp only [byKind, List.filter_flatMap, List.filter_filter, Bool.and_comm]

end Constraint

namespace Table

variable {t u : Table}

theorem foldl_flag_allConstraints {b col : Column} (h : Consistent t) (hcol : col ∈ t.columns)
    (hb : b.Cleared col) : t.allConstraints.foldl Column.flag b = b.withFlags col := by
  have hfold : b.folded = col.folded := congrArg Quote.fold hb.title
  have hkey : t.allConstraints.any (·.coversKey col.folded) = col.primaryKey := by
    rw [allConstraints_eq h.writable, (Constraint.byKind_perm _).any_eq, any_coversKey h hcol]
  have hunique : t.allConstraints.any (·.coversUnique col.folded) = col.unique := by
    rw [allConstraints_eq h.writable, (Constraint.byKind_perm _).any_eq, any_coversUnique h hcol]
  have htarget : (t.allConstraints.filterMap (·.target? col.folded)).getLast? = col.foreignKey := by
    rw [allConstraints_eq h.writable, Constraint.filterMap_byKind .foreignKey,
      getLast?_target h hcol]
    intro c hc
    simp [Constraint.target?, hc]
  have hrequired : (col.required || col.primaryKey) = col.required := by
    cases hpk : col.primaryKey with
    | false => simp
    | true => simp [h.required col hcol hpk]
  rw [Column.foldl_flag, hfold, hkey, hunique, htarget, hb.primaryKey, hb.unique, hb.foreignKey,
    hb.required, Bool.false_or, Bool.false_or, Option.or_none, hrequired, ← hb.required]
  rfl

/-- All constraints that a consistent table is written with are on its own columns. -/
theorem known_of_mem_allConstraints (h : Consistent t) :
    ∀ c ∈ t.allConstraints, ∀ n ∈ c.columns, Quote.fold n ∈ t.columns.map Column.folded := by
  intro c hc
  rw [allConstraints_eq h.writable, (Constraint.byKind_perm _).mem_iff] at hc
  rcases List.mem_append.1 hc with hc | hc
  · exact h.known c hc
  · exact known_of_mem_impliedConstraints hc

/-- **Folding and deriving constraints.** A consistent table whose flags and constraints are cleared
    gets them back from all constraints that it is written with, its own ones by kind. -/
theorem foldl_allConstraints (h : Consistent t) {clear : Column → Column}
    (hclear : ∀ col ∈ t.columns, (clear col).Cleared col) (hu : u.columns = t.columns.map clear)
    (hc : u.constraints = []) :
    (t.allConstraints.map takeConstraint).foldl (fun u f => f u) u =
      { u with
        columns := t.columns.map fun col => (clear col).withFlags col
        constraints := byKind t.constraints } := by
  have hfolded : u.columns.map Column.folded = t.columns.map Column.folded := by
    rw [hu, List.map_map]
    exact List.map_congr_left fun col hcol => congrArg Quote.fold (hclear col hcol).title
  have hknown : ∀ c ∈ t.allConstraints, ∀ n ∈ c.columns,
      Quote.fold n ∈ u.columns.map Column.folded := by
    rw [hfolded]
    exact known_of_mem_allConstraints h
  have hkept : t.allConstraints.filter (fun c => !c.isFolded) = byKind t.constraints := by
    rw [allConstraints_eq h.writable, Constraint.filter_byKind, List.filter_append,
      List.filter_eq_self.2 fun c hc => by simpa using h.unfolded c hc,
      List.filter_eq_nil_iff.2 fun c hc => by simp [isFolded_of_mem_impliedConstraints hc],
      List.append_nil]
  have hapart : (byKind t.constraints).Pairwise Constraint.Apart :=
    ((Constraint.byKind_perm _).pairwise_iff Constraint.Apart.symm).2 h.apart
  rw [foldl_takeConstraint (hfolded ▸ h.titles) hknown, hc, Constraint.foldl_keep, hkept, hu,
    List.map_map, List.nil_append]
  · refine congrArg (fun columns => { u with columns, constraints := byKind t.constraints }) ?_
    exact List.map_congr_left fun col hcol => foldl_flag_allConstraints h hcol (hclear col hcol)
  · rw [hkept]
    exact hapart

end Table

end Schemata
