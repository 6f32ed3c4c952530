/-
  Enum types that are known from columns alone.

  * `Schema.ownEnums` are the enum types that columns bring along, each under its key; of those under
    one key the first one counts, unless the schema itself knows the key;
  * `exists_knownEnums_iff`: the enum types of a schema are known just if those that count are valid,
    and `get?_knownEnums` says which ones they are;
  * `result_generate_admitted`: a schema that was cleaned is written if and only if they are valid;
    cleaning does not look at the values of columns (`not_generate_repeated`).
-/
import Schemata.Cleaning
import Schemata.Proofs.Building
import Schemata.Proofs.Generated
import Schemata.Proofs.Maps

namespace Schemata

open Cleaning Log OrderedMap

/-- The enum type that a column brings along, under its key. -/
def Column.ownEnum? (c : Column) : Option (String × EnumType) :=
  match filled c.enumName, c.enumValues with
  | some key, some (v :: vs) =>
    some (key, ⟨(Name.qualified key).2, (Name.qualified key).1, v :: vs⟩)
  | _, _ => none

/-- The enum types that the columns of a table bring along, in order. -/
def Table.ownEnums (t : Table) : List (String × EnumType) := t.columns.filterMap Column.ownEnum?

/-- The enum types that the columns of a schema bring along, in order. -/
def Schema.ownEnums (s : Schema) : List (String × EnumType) := s.tables.values.flatMap Table.ownEnums

/-- The enum type under a key: that of the schema, or the first one that a column brings along. -/
def Schema.knownEnum? (s : Schema) (key : String) : Option EnumType :=
  (s.enums.get? key).or (find key s.ownEnums)

namespace Ddl

variable {c : Column} {s : Schema} {enums enums' : OrderedMap EnumType} {key : String} {e : EnumType}

/-! ## One column -/

theorem addColumnEnum_none (h : c.ownEnum? = none) : addColumnEnum enums c = .ok enums := by
  unfold Column.ownEnum? at h
  unfold addColumnEnum
  split
  · next hname hvalues =>
    rw [hname, hvalues] at h
    cases h
  · rfl

theorem addColumnEnum_some (h : c.ownEnum? = some (key, e)) : addColumnEnum enums c =
    if enums.contains key then .ok enums
    else (Decode.enumOf e.name e.schema e.values).toExcept.map fun e => enums.insert key e := by
  unfold Column.ownEnum? at h
  unfold addColumnEnum
  split at h
  · next hname hvalues =>
    cases h
    simp only [hname, hvalues]
  · cases h

/-- What a column brings along counts only if its key is new, and then it has to be valid. -/
theorem addColumnEnum_eq_ok_iff (h : c.ownEnum? = some (key, e)) : addColumnEnum enums c = .ok enums' ↔
    (enums.contains key = true ∧ enums' = enums) ∨
      (enums.get? key = none ∧ e.Valid ∧ enums' = enums.insert key e) := by
  rw [addColumnEnum_some h, contains]
  cases hkey : enums.get? key with
  | some e' => simp [eq_comm]
  | none =>
    simp only [Option.isSome_none, Bool.false_eq_true, if_false, false_and, false_or, true_and]
    cases he : Decode.enumOf e.name e.schema e.values with
    | bad faults =>
      have hvalid : ¬e.Valid := fun hv => by
        rw [Decode.enumOf_eq_ok_iff.2 ⟨rfl, hv⟩] at he
        cases he
      simp [Decode.Checked.toExcept, Except.map, hvalid]
    | ok e' =>
      obtain ⟨rfl, hvalid⟩ := Decode.enumOf_eq_ok_iff.1 he
      simp [Decode.Checked.toExcept, Except.map, hvalid, eq_comm]

/-! ## All columns -/

/-- Of the enum types that columns bring along, the first one of each key that is not known otherwise
    has a name and distinct values. -/
def OwnValid (enums : OrderedMap EnumType) (own : List (String × EnumType)) : Prop :=
  ∀ key e, enums.get? key = none → find key own = some e → e.Valid

theorem ownValid_known {own : List (String × EnumType)} (h : enums.contains key = true) :
    OwnValid enums ((key, e) :: own) ↔ OwnValid enums own := by
  refine forall_congr' fun k => forall_congr' fun e' => imp_congr_right fun hk => ?_
  have hne : key ≠ k := by
    rintro rfl
    simp [contains, hk] at h
  rw [find, if_neg hne]

theorem ownValid_new {own : List (String × EnumType)} (h : enums.get? key = none) :
    OwnValid enums ((key, e) :: own) ↔ e.Valid ∧ OwnValid (enums.insert key e) own := by
  constructor
  · refine fun hall => ⟨hall key e h (by rw [find, if_pos rfl]), fun k e' hk hfind => ?_⟩
    rw [get?_insert] at hk
    split at hk
    · cases hk
    · next hne => exact hall k e' hk (by rw [find, if_neg hne, hfind])
  · rintro ⟨hvalid, hall⟩ k e' hk hfind
    rw [find] at hfind
    split at hfind
    · cases hfind
      exact hvalid
    · next hne => exact hall k e' (by rw [get?_insert, if_neg hne, hk]) hfind

theorem contains_or_get?_eq_none (enums : OrderedMap EnumType) (key : String) :
    enums.contains key = true ∨ enums.get? key = none := by
  rw [contains]
  cases enums.get? key <;> simp

/-- The enum types of columns are added just if those that count are valid. -/
theorem exists_foldlM_addColumnEnum_iff (columns : List Column) :
    (∃ enums', columns.foldlM addColumnEnum enums = .ok enums') ↔
      OwnValid enums (columns.filterMap Column.ownEnum?) := by
  induction columns generalizing enums with
  | nil => exact iff_of_true ⟨enums, rfl⟩ nofun
  | cons c columns ih =>
    rw [List.foldlM_cons]
    cases hown : c.ownEnum? with
    | none =>
      rw [addColumnEnum_none hown, List.filterMap_cons_none hown, ← ih]
      rfl
    | some own =>
      obtain ⟨key, e⟩ := own
      rw [List.filterMap_cons_some hown]
      obtain hkey | hkey := contains_or_get?_eq_none enums key
      · rw [ownValid_known hkey, ← ih, (addColumnEnum_eq_ok_iff hown).2 (.inl ⟨hkey, rfl⟩)]
        rfl
      · rw [ownValid_new hkey, ← ih]
        constructor
        · rintro ⟨enums', h⟩
          obtain ⟨enums₁, hadd, h⟩ := Action.bind_ok h
          obtain ⟨hknown, -⟩ | ⟨-, hvalid, rfl⟩ := (addColumnEnum_eq_ok_iff hown).1 hadd
          · simp [contains, hkey] at hknown
          · exact ⟨hvalid, enums', h⟩
        · rintro ⟨hvalid, h⟩
          rwa [(addColumnEnum_eq_ok_iff hown).2 (.inr ⟨hkey, hvalid, rfl⟩)]

/-- The first enum type of a new key is the one that stays. -/
theorem get?_foldlM_addColumnEnum {columns : List Column}
    (h : columns.foldlM addColumnEnum enums = .ok enums') (k : String) :
    enums'.get? k = (enums.get? k).or (find k (columns.filterMap Column.ownEnum?)) := by
  induction columns generalizing enums with
  | nil =>
    cases h
    simp [find]
  | cons c columns ih =>
    rw [List.foldlM_cons] at h
    obtain ⟨enums₁, hadd, h⟩ := Action.bind_ok h
    rw [ih h]
    cases hown : c.ownEnum? with
    | none =>
      rw [addColumnEnum_none hown] at hadd
      cases hadd
      rw [List.filterMap_cons_none hown]
    | some own =>
      obtain ⟨key, e⟩ := own
      rw [List.filterMap_cons_some hown, find]
      obtain ⟨hkey, rfl⟩ | ⟨hkey, -, rfl⟩ := (addColumnEnum_eq_ok_iff hown).1 hadd
      · split
        · next hne =>
          obtain ⟨e', he'⟩ := Option.isSome_iff_exists.1 (hne ▸ hkey)
          rw [he', Option.some_or, Option.some_or]
        · rfl
      · rw [get?_insert]
        split
        · next hne => rw [← hne, hkey, Option.some_or, Option.none_or]
        · rfl

/-- The enum types of a schema are known just if those that its columns bring along, under keys that
    the schema does not know, are valid. -/
theorem exists_knownEnums_iff :
    (∃ enums, knownEnums s = .ok enums) ↔ OwnValid s.enums s.ownEnums := by
  rw [knownEnums, exists_foldlM_addColumnEnum_iff, List.filterMap_flatMap]
  rfl

theorem get?_knownEnums (h : knownEnums s = .ok enums) (key : String) :
    enums.get? key = s.knownEnum? key := by
  rw [get?_foldlM_addColumnEnum h, List.filterMap_flatMap]
  rfl

/-! ## Cleaned schemas -/

/-- The schema that is admitted of raw tables and enum types. -/
def admitted (tables enums : OrderedMap Json) : Schema :=
  ⟨(clean tables).value.tables, (mergeEnums {} enums).value⟩

/-- **A cleaned schema is written just if its columns bring valid enum types along.** Whatever raw
    tables and enum types a schema was cleaned from, its document, and that of each of its tables, can
    be generated if and only if, of the enum types that its columns bring along, the first one of each
    key that the schema does not know itself has a name and distinct values. -/
theorem result_generate_admitted (options : RenderOptions) (tables enums : OrderedMap Json)
    (only : Option String) :
    (∃ text, (generate options (admitted tables enums) only).result = .ok text) ↔
      OwnValid (admitted tables enums).enums (admitted tables enums).ownEnums := by
  rw [result_generate, ← exists_knownEnums_iff]
  constructor
  · rintro ⟨text, h⟩
    obtain ⟨known, hknown, -⟩ := Action.map_ok h
    exact ⟨known, hknown⟩
  · rintro ⟨known, hknown⟩
    rw [hknown]
    exact ⟨_, rfl⟩

/-- A raw table with a column whose own values differ in nothing but their case. -/
def repeatedTables : OrderedMap Json :=
  .ofList [("t", .obj [("title", .str "t"), ("columns", .arr [.obj
    [("title", .str "a"), ("enumTypeName", .str "mood"), ("enumValues", .strings ["x", "X"])]])])]

/-- Cleaning admits the table, but neither the document of the schema nor that of the table can be
    generated. -/
theorem not_generate_repeated : (admitted repeatedTables {}).tables.keys = ["t"] ∧
    ∀ only ∈ [none, some "t"],
      (generate {} (admitted repeatedTables {}) only).result =
        .error [⟨[.field "values"], .rule "Duplicate enum value: 'X'"⟩] := by
  have hknown : knownEnums (admitted repeatedTables {}) =
      .error [⟨[.field "values"], .rule "Duplicate enum value: 'X'"⟩] := by
    decide +kernel
  refine ⟨by decide +kernel, fun only _ => ?_⟩
  rw [result_generate, hknown]
  rfl

end Ddl

end Schemata
