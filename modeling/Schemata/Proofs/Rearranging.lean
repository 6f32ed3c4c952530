/-
  The order of statements.

  * A statement has a concern: the enum type that it defines, the table that it defines or
    constrains, the table that it adds an index to or the one that it comments on;
  * `Rearranged` lists have the same statements, those of one concern in the same order;
  * what a schema gets under a key depends on the statements of few concerns
    (`filter_flatMap_concern`), and a column is built from the contents of the enum types, whatever
    their order (`buildColumn_congr`);
  * `Schema.ofStatements_rearranged`: rearranged statements describe the same schema.
-/
import Mathlib.Data.List.Nodup
import Schemata.Proofs.Building

namespace Schemata

open Log

/-! ## Concerns -/

/-- What a statement is about, and in which role. -/
inductive Concern where
  | enumType (key : String)
  /-- The columns and the constraints of a table. -/
  | table (key : String)
  | index (key : String)
  | comment (key : String)
deriving DecidableEq, Repr

/-- The concern of a statement. -/
def Statement.concern : Statement → Concern
  | .createEnum schema name _ => .enumType (Name.key schema name)
  | .createTable schema name _ _ => .table (Name.key schema name)
  | .addConstraint schema table _ => .table (Name.key schema table)
  | .createIndex schema table _ => .index (Name.key schema table)
  | .comment schema table _ _ => .comment (Name.key schema table)

/-- The statements of a concern, in their order. -/
def concerning (c : Concern) (l : List Statement) : List Statement :=
  l.filter fun x => x.concern = c

/-- The same statements; those of one concern keep their order. -/
structure Rearranged (l m : List Statement) : Prop where
  perm : l.Perm m
  order : ∀ c, concerning c l = concerning c m

namespace Rearranged

variable {l m : List Statement} {x y : Statement}

theorem symm (h : Rearranged l m) : Rearranged m l := ⟨h.perm.symm, fun c => (h.order c).symm⟩

theorem trans {n : List Statement} (h : Rearranged l m) (h' : Rearranged m n) : Rearranged l n :=
  ⟨h.perm.trans h'.perm, fun c => (h.order c).trans (h'.order c)⟩

theorem cons (x : Statement) (h : Rearranged l m) : Rearranged (x :: l) (x :: m) := by
  refine ⟨h.perm.cons x, fun c => ?_⟩
  rw [concerning, concerning, List.filter_cons, List.filter_cons, ← concerning, ← concerning,
    h.order c]

/-- Neighbours of different concerns may change places. -/
theorem swap (h : x.concern ≠ y.concern) (l : List Statement) :
    Rearranged (x :: y :: l) (y :: x :: l) := by
  refine ⟨List.Perm.swap y x l, fun c => ?_⟩
  unfold concerning
  by_cases hx : x.concern = c
  · have hy : y.concern ≠ c := fun hy => h (hx.trans hy.symm)
    simp [hx, hy]
  · simp [hx, List.filter_cons]

end Rearranged

/-- What statements say under a key comes from the statements of one concern. -/
theorem filter_flatMap_concern {β : Type} {g : Statement → List (String × β)}
    (concern : String → Concern) (hinj : concern.Injective)
    (hg : ∀ x, ∀ e ∈ g x, x.concern = concern e.1) (l : List Statement) (k : String) :
    (l.flatMap g).filter (fun e => e.1 == k) = (concerning (concern k) l).flatMap g := by
  unfold concerning
  induction l with
  | nil => rfl
  | cons x l ih =>
    rw [List.flatMap_cons, List.filter_append, ih, List.filter_cons]
    by_cases hx : x.concern = concern k
    · have hall : (g x).filter (fun e => e.1 == k) = g x := by
        refine List.filter_eq_self.2 fun e he => beq_iff_eq.2 (hinj ?_)
        exact (hg x e he).symm.trans hx
      rw [hall, if_pos (by simpa using hx)]
      rfl
    · have hnone : (g x).filter (fun e => e.1 == k) = [] := by
        refine List.filter_eq_nil_iff.2 fun e he hk => hx ?_
        rw [hg x e he, beq_iff_eq.1 hk]
      rw [hnone, if_neg (by simpa using hx)]
      rfl

/-- Rearranged statements say the same under each key. -/
theorem Rearranged.filter_flatMap {β : Type} {g : Statement → List (String × β)}
    {l m : List Statement} (h : Rearranged l m) (concern : String → Concern)
    (hinj : concern.Injective) (hg : ∀ x, ∀ e ∈ g x, x.concern = concern e.1) (k : String) :
    (l.flatMap g).filter (fun e => e.1 == k) = (m.flatMap g).filter fun e => e.1 == k := by
  rw [filter_flatMap_concern concern hinj hg, filter_flatMap_concern concern hinj hg, h.order]

/-! ## Maps -/

namespace OrderedMap

variable {α : Type} {a b : OrderedMap α}

/-- The last entry for a key is the one that stays. -/
theorem get?_insertAll_eq (l : List (String × α)) (k : String) : (a.insertAll l).get? k =
    ((l.filter fun e => e.1 == k).getLast?.map Prod.snd).or (a.get? k) := by
  induction l generalizing a with
  | nil => rfl
  | cons e l ih =>
    rw [insertAll, List.foldl_cons, ← insertAll, ih, get?_insert]
    by_cases hk : e.1 = k
    · rw [if_pos hk, List.filter_cons_of_pos (by simpa using hk), List.getLast?_cons]
      cases (l.filter fun e => e.1 == k).getLast? <;> rfl
    · rw [if_neg hk, List.filter_cons_of_neg (by simpa using hk)]

end OrderedMap

/-! ## Columns -/

namespace Schema

variable {enums enums' : OrderedMap EnumType}

theorem soleEnumNamed?_congr (h : enums.Equiv enums') (name : String) :
    soleEnumNamed? enums name = soleEnumNamed? enums' name := by
  have hperm := h.perm_values.filter fun e => Quote.fold e.name == Quote.fold name
  unfold soleEnumNamed?
  -- a list with the same members as a list of one is that list
  split
  · next e he =>
    rw [he, List.singleton_perm] at hperm
    rw [← hperm]
  · next hnone =>
    split
    · next e he =>
      rw [he, List.perm_singleton] at hperm
      exact absurd hperm (hnone e)
    · rfl

theorem resolveEnum?_congr (h : enums.Equiv enums') (typeName : Option String × String)
    (tableSchema : Option String) :
    resolveEnum? enums typeName tableSchema = resolveEnum? enums' typeName tableSchema := by
  unfold resolveEnum?
  simp only [h _, soleEnumNamed?_congr h]

theorem buildColumn_congr (h : enums.Equiv enums') (tableSchema : Option String)
    (d : ColumnDefinition) : buildColumn enums tableSchema d = buildColumn enums' tableSchema d := by
  unfold buildColumn
  simp only [resolveEnum?_congr h]

theorem tableOf_congr (h : enums.Equiv enums') (x : Statement) : tableOf enums x = tableOf enums' x := by
  cases x with
  | createTable schema name columns constraints =>
    rw [tableOf, tableOf, List.map_congr_left fun d _ => buildColumn_congr h schema d]
  | _ => rfl

/-! ## Schemas -/

variable {l m : List Statement}

/-- The enum type that a statement defines, under its key. -/
def keyedEnum (x : Statement) : List (String × EnumType) := x.enumOf?.toList.map fun e => (e.key, e)

theorem definedEnums_rearranged (h : Rearranged l m) : (definedEnums l).Equiv (definedEnums m) := by
  have hflat (l : List Statement) :
      (l.filterMap Statement.enumOf?).map (fun e => (e.key, e)) = l.flatMap keyedEnum := by
    rw [List.filterMap_eq_flatMap_toList, List.map_flatMap]
    rfl
  have hconcern : ∀ x, ∀ e ∈ keyedEnum x, x.concern = .enumType e.1 := by
    intro x e he
    cases x with
    | createEnum schema name values =>
      obtain rfl := List.mem_singleton.1 he
      rfl
    | _ => exact absurd he List.not_mem_nil
  intro k
  rw [definedEnums, definedEnums, hflat, hflat, OrderedMap.get?_insertAll_eq,
    OrderedMap.get?_insertAll_eq,
    h.filter_flatMap .enumType (fun _ _ h => Concern.enumType.inj h) hconcern]

theorem filter_allEdits_rearranged (h : Rearranged l m) (k : String) :
    (allEdits l).filter (fun e => e.1 == k) = (allEdits m).filter fun e => e.1 == k := by
  have hconstraints : ∀ x, ∀ e ∈ constraintEdits x, x.concern = .table e.1 := by
    intro x e he
    cases x with
    | createTable schema name columns constraints =>
      obtain ⟨c, -, rfl⟩ := List.mem_map.1 he
      rfl
    | addConstraint schema table c =>
      rw [List.mem_singleton.1 he]
      rfl
    | _ => exact absurd he List.not_mem_nil
  have hindexes : ∀ x, ∀ e ∈ indexEdits x, x.concern = .index e.1 := by
    intro x e he
    cases x with
    | createIndex schema table i =>
      rw [List.mem_singleton.1 he]
      rfl
    | _ => exact absurd he List.not_mem_nil
  have hcomments : ∀ x, ∀ e ∈ commentEdits x, x.concern = .comment e.1 := by
    intro x e he
    cases x with
    | comment schema table column text =>
      rw [List.mem_singleton.1 he]
      rfl
    | _ => exact absurd he List.not_mem_nil
  simp only [allEdits, List.filter_append]
  rw [h.filter_flatMap .table (fun _ _ h => Concern.table.inj h) hconstraints,
    h.filter_flatMap .index (fun _ _ h => Concern.index.inj h) hindexes,
    h.filter_flatMap .comment (fun _ _ h => Concern.comment.inj h) hcomments]

theorem withTables_rearranged {s s' : Schema} (h : Rearranged l m) (henums : s.enums.Equiv s'.enums)
    (htables : s.tables.Equiv s'.tables) :
    (withTables l s).tables.Equiv (withTables m s').tables := by
  have hconcern : ∀ x, ∀ e ∈ (tableOf s.enums x).toList, x.concern = .table e.1 := by
    intro x e he
    cases x with
    | createTable schema name columns constraints =>
      obtain rfl := List.mem_singleton.1 he
      rfl
    | _ => exact absurd he List.not_mem_nil
  intro k
  rw [withTables_eq, withTables_eq, ← funext (tableOf_congr henums)]
  simp only [OrderedMap.get?_insertAll_eq, List.filterMap_eq_flatMap_toList]
  rw [h.filter_flatMap .table (fun _ _ h => Concern.table.inj h) hconcern, htables k]

/-- **The order of independent statements.** Rearranged statements are both refused, or both describe
    schemas with the same tables and enum types. -/
theorem ofStatements_rearranged (h : Rearranged l m) :
    (∃ e e', (ofStatements l).result = .error e ∧ (ofStatements m).result = .error e') ∨
      ∃ s s', (ofStatements l).result = .ok s ∧ (ofStatements m).result = .ok s' ∧
        s.tables.Equiv s'.tables ∧ s.enums.Equiv s'.enums := by
  have hvalid : (∀ e ∈ l.filterMap Statement.enumOf?, e.Valid) ↔
      ∀ e ∈ m.filterMap Statement.enumOf?, e.Valid :=
    forall_congr' fun e => by rw [(h.perm.filterMap Statement.enumOf?).mem_iff]
  by_cases hl : ∀ e ∈ l.filterMap Statement.enumOf?, e.Valid
  · refine .inr ⟨described l, described m, result_ofStatements.2 ⟨hl, rfl⟩,
      result_ofStatements.2 ⟨hvalid.1 hl, rfl⟩, fun k => ?_, ?_⟩
    · have htables : (withTables l { enums := definedEnums l }).tables.Equiv
          (withTables m { enums := definedEnums m }).tables :=
        withTables_rearranged h (definedEnums_rearranged h) (.refl _)
      rw [get?_described, get?_described, htables k, filter_allEdits_rearranged h k]
    · rw [enums_described, enums_described]
      exact definedEnums_rearranged h
  · refine .inl ?_
    have herror (statements : List Statement)
        (hs : ¬∀ e ∈ statements.filterMap Statement.enumOf?, e.Valid) :
        ∃ e, (ofStatements statements).result = .error e := by
      cases hr : (ofStatements statements).result with
      | error e => exact ⟨e, rfl⟩
      | ok s => exact absurd (result_ofStatements.1 hr).1 hs
    obtain ⟨e, he⟩ := herror l hl
    obtain ⟨e', he'⟩ := herror m fun hm => hl (hvalid.2 hm)
    exact ⟨e, e', he, he'⟩

/-- A table with a column of an enum type. -/
def moodTable : Statement :=
  .createTable none "t" [{ name := "a", typeText := "mood", typeName := some (none, "mood") }] []

/-- The enum type of that column. -/
def moodType : Statement := .createEnum none "mood" ["calm", "loud"]

/-- A table may come before the enum type of its columns, and after a comment on it. -/
theorem ofStatements_rearranged_mood :
    let note : Statement := .comment none "t" none (some "moods")
    Rearranged [note, moodTable, moodType] [moodType, moodTable, note] ∧
      ((∃ e e', (ofStatements [note, moodTable, moodType]).result = .error e ∧
          (ofStatements [moodType, moodTable, note]).result = .error e') ∨
        ∃ s s', (ofStatements [note, moodTable, moodType]).result = .ok s ∧
          (ofStatements [moodType, moodTable, note]).result = .ok s' ∧
          s.tables.Equiv s'.tables ∧ s.enums.Equiv s'.enums) := by
  intro note
  have h : Rearranged [note, moodTable, moodType] [moodType, moodTable, note] :=
    ((Rearranged.swap (by decide) []).cons note).trans <|
      (Rearranged.swap (by decide) [moodTable]).trans <|
        (Rearranged.swap (by decide) []).cons moodType
  exact ⟨h, ofStatements_rearranged h⟩

end Schema

end Schemata
