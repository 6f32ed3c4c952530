/-
  Cleaning as a projection, with its counts.

  * `Identified` columns are told apart by their titles, and keys among them are required; the columns
    of a clean table are identified (`CleanTable.identified`);
  * `counted_ofOutcomes`: every table is either kept or counted as removed;
  * `clean_projection`: what is left of any tables from outside is clean, the counts add up, and
    cleaning it again keeps everything.
-/
import Mathlib.Data.List.Count
import Schemata.Proofs.Cleaned

namespace Schemata

/-- Every column has a title, no two of them share one as a name, and keys are required. -/
structure Identified (columns : List Column) : Prop where
  titled : ∀ c ∈ columns, Text.isBlankText c.title = false
  distinct : (columns.map fun c => Quote.fold c.title).Nodup
  required : ∀ c ∈ columns, c.primaryKey = true → c.required = true

namespace Cleaning

variable {key : String} {t : Table} {c : Column} {columns : List Column} {seen : List String}

/-! ## Clean columns are identified -/

theorem CleanColumns.not_mem (h : CleanColumns seen columns) (hc : c ∈ columns) :
    Quote.fold c.title ∉ seen := by
  induction h with
  | nil => cases hc
  | cons _ fresh _ ih =>
    rcases List.mem_cons.1 hc with rfl | hc
    · exact fresh
    · exact fun hseen => ih hc (List.mem_cons_of_mem _ hseen)

theorem CleanColumns.nodup (h : CleanColumns seen columns) :
    (columns.map fun c => Quote.fold c.title).Nodup := by
  induction h with
  | nil => exact List.nodup_nil
  | cons _ _ rest ih =>
    rw [List.map_cons, List.nodup_cons]
    refine ⟨fun hmem => ?_, ih⟩
    obtain ⟨c', hc', hfold⟩ := List.mem_map.1 hmem
    exact rest.not_mem hc' (List.mem_cons.2 (.inl hfold))

theorem NormalColumn.required_of_key (h : NormalColumn c) (hkey : c.primaryKey = true) :
    c.required = true := by
  have hrequired := congrArg Column.required h.required
  rw [coherent_eq, hkey, Bool.true_or] at hrequired
  exact hrequired.symm

theorem CleanColumns.identified (h : CleanColumns seen columns) : Identified columns :=
  ⟨fun _ hc => (h.of_mem hc).title, h.nodup, fun _ hc => (h.of_mem hc).normal.required_of_key⟩

/-! ## Counts -/

/-- Every table is either kept or counted as removed. -/
theorem counted_ofOutcomes (nameless : Nat) (outcomes : OrderedMap Outcome) :
    (Cleaned.ofOutcomes nameless outcomes).removedTables +
      (Cleaned.ofOutcomes nameless outcomes).tables.size = outcomes.size + nameless := by
  have hkept : (Cleaned.ofOutcomes nameless outcomes).tables.size =
      outcomes.entries.countP fun e => e.2.table.isSome := by
    rw [Cleaned.ofOutcomes, OrderedMap.filterMap, OrderedMap.size, List.length_filterMap_eq_countP]
    simp only [Option.isSome_map]
  have hremoved : (Cleaned.ofOutcomes nameless outcomes).removedTables =
      nameless + outcomes.entries.countP fun e => !e.2.table.isSome := by
    rw [Cleaned.ofOutcomes, OrderedMap.values, List.countP_map]
    simp only [Function.comp_def, Option.not_isSome]
  have hall := List.length_eq_countP_add_countP (l := outcomes.entries) fun e => e.2.table.isSome
  simp only [Bool.not_eq_true, Bool.decide_eq_false] at hall
  rw [hkept, hremoved, OrderedMap.size, hall]
  omega

/-! ## The projection -/

/-- A table from outside: a raw value, or a table as it is. -/
inductive Source where
  | raw (v : Json)
  | table (t : Table)

/-- The value that is cleaned. -/
def Source.toJson : Source → Json
  | raw v => v
  | table t => t.toJson

/-- What is left of tables from outside, apart from some whose keys are no names. -/
structure Projected (sources : OrderedMap Source) (nameless : Nat) (cleaned : Cleaned) : Prop where
  /-- A table is kept under its own key, and its columns are identified. -/
  kept : ∀ key t, cleaned.tables.get? key = some t → sources.contains key = true ∧
    Text.isBlankText key = false ∧ t.columns ≠ [] ∧ Identified t.columns
  /-- Tables that are clean are kept as they are. -/
  fixed : ∀ key t, sources.get? key = some (.table t) → CleanTable key t →
    cleaned.tables.get? key = some t
  /-- Every table is kept or counted. -/
  counted : cleaned.removedTables + cleaned.tables.size = sources.size + nameless
  /-- Cleaning again keeps all tables. -/
  again : (clean (cleaned.tables.map fun _ t => t.toJson)).value.tables = cleaned.tables
  /-- Nothing is removed then. -/
  nothing : (clean (cleaned.tables.map fun _ t => t.toJson)).value.removedTables = 0 ∧
    (clean (cleaned.tables.map fun _ t => t.toJson)).value.removedColumns = 0

theorem get?_clean (raw : OrderedMap Json) (nameless : Nat) (key : String) :
    (clean raw nameless).value.tables.get? key =
      (raw.get? key).bind fun v => (cleanTable key v).value.table := by
  rw [clean_tables, OrderedMap.get?_filterMap]

/-- **Cleaning is a projection.** Whatever the tables are that come from outside: those that are left
    are clean, every other one is counted, and cleaning what is left keeps everything. -/
theorem clean_projection (sources : OrderedMap Source) (nameless : Nat) :
    Projected sources nameless (clean (sources.map fun _ v => v.toJson) nameless).value := by
  have hclean : CleanTables (clean (sources.map fun _ v => v.toJson) nameless).value.tables :=
    cleanTables_clean _
  refine ⟨fun key t ht => ?_, fun key t ht hkey => ?_, ?_, ?_, ?_, ?_⟩
  · have hkey := hclean key t ht
    refine ⟨?_, hkey.key, hkey.nonempty, hkey.columns.identified⟩
    rw [get?_clean, OrderedMap.get?_map] at ht
    obtain ⟨v, hv, -⟩ := Option.bind_eq_some_iff.1 ht
    obtain ⟨source, hsource, -⟩ := Option.map_eq_some_iff.1 hv
    rw [OrderedMap.contains, hsource, Option.isSome_some]
  · rw [get?_clean, OrderedMap.get?_map, ht, Option.map_some, Option.bind_some, Source.toJson,
      cleanTable_toJson hkey]
  · rw [clean_value, counted_ofOutcomes, OrderedMap.map, OrderedMap.map]
    simp only [OrderedMap.size, List.length_map]
  · rw [clean_again hclean]
  · rw [clean_again hclean]
  · rw [clean_again hclean]

end Cleaning

end Schemata
