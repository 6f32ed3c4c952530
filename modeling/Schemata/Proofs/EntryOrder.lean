/-
  The order in which tables and enum types came in.

  * `Schema.Uniform`: tables that bring an enum type along under one key bring the same one, and enum
    types of one schema and name have the same values;
  * `knownEnums_congr`, `map_createEnum_sortedEnums`, `sortedTables_congr`: what a document is made of
    does not depend on the order of the entries;
  * `result_generate_congr`: nor does the document.  In other schemas the order may show, since the
    first enum type that columns bring along under a key is the one that is written
    (`not_result_generate_congr`).
-/
import Schemata.Proofs.Orders
import Schemata.Proofs.OwnEnums

namespace Schemata

open Log OrderedMap

/-- Enum types of one schema and name have the same values, whatever their keys. -/
def Unambiguous (known : String → Option EnumType) : Prop :=
  ∀ k k' e e', known k = some e → known k' = some e' →
    e.schema.getD "" = e'.schema.getD "" → e.name = e'.name → e.values = e'.values

/-- Which enum types are known, and in which order they are written, does not depend on the order of
    tables and enum types. -/
structure Schema.Uniform (s : Schema) : Prop where
  /-- Tables that bring an enum type along under a key that the schema does not know bring the same. -/
  own : ∀ key k k' t t' e e', s.enums.get? key = none → s.tables.get? k = some t →
    s.tables.get? k' = some t' → find key t.ownEnums = some e → find key t'.ownEnums = some e' → e = e'
  unambiguous : Unambiguous s.knownEnum?

namespace Ddl

/-! ## Enum types -/

variable {s s' : Schema} {enums enums' : OrderedMap EnumType} {options : RenderOptions}

/-- The enum type that columns bring along under a new key does not depend on their order. -/
theorem find_ownEnums_congr (htables : s.tables.Equiv s'.tables) (hs : s.Uniform) {key : String}
    (hkey : s.enums.get? key = none) : find key s.ownEnums = find key s'.ownEnums := by
  have hagree : ∀ t ∈ s.tables.values, ∀ t' ∈ s.tables.values, ∀ e e',
      find key t.ownEnums = some e → find key t'.ownEnums = some e' → e = e' := by
    intro t ht t' ht' e e'
    obtain ⟨k, hk⟩ := mem_values_iff.1 ht
    obtain ⟨k', hk'⟩ := mem_values_iff.1 ht'
    exact hs.own key k k' t t' e e' hkey hk hk'
  have hmem (t : Table) : t ∈ s.tables.values ↔ t ∈ s'.tables.values := htables.perm_values.mem_iff
  ext e
  rw [Schema.ownEnums, Schema.ownEnums, find_flatMap_eq_some_iff hagree, find_flatMap_eq_some_iff]
  · simp only [hmem]
  · intro t ht t' ht'
    exact hagree t ((hmem t).2 ht) t' ((hmem t').2 ht')

theorem knownEnum?_congr (htables : s.tables.Equiv s'.tables) (henums : s.enums.Equiv s'.enums)
    (hs : s.Uniform) (key : String) : s.knownEnum? key = s'.knownEnum? key := by
  rw [Schema.knownEnum?, Schema.knownEnum?, ← henums key]
  cases hkey : s.enums.get? key with
  | some e => rfl
  | none => rw [find_ownEnums_congr htables hs hkey]

/-- The same enum types are known, whatever the order. -/
theorem knownEnums_congr (htables : s.tables.Equiv s'.tables) (henums : s.enums.Equiv s'.enums)
    (hs : s.Uniform) (h : knownEnums s = .ok enums) :
    ∃ enums', knownEnums s' = .ok enums' ∧ enums.Equiv enums' := by
  have hvalid : OwnValid s'.enums s'.ownEnums := by
    intro key e hkey he
    rw [← henums key] at hkey
    rw [← find_ownEnums_congr htables hs hkey] at he
    exact exists_knownEnums_iff.1 ⟨enums, h⟩ key e hkey he
  obtain ⟨enums', h'⟩ := exists_knownEnums_iff.2 hvalid
  refine ⟨enums', h', fun key => ?_⟩
  rw [get?_knownEnums h, get?_knownEnums h', knownEnum?_congr htables henums hs]

/-! ## Parts of a document -/

theorem qualified_congr {schema schema' : Option String} (h : schema.getD "" = schema'.getD "")
    (name : String) : qualified schema name = qualified schema' name := by
  have hfilled (schema : Option String) : filled schema = filled (some (schema.getD "")) := by
    cases schema <;> rfl
  rw [qualified, qualified, hfilled schema, hfilled schema', h]

/-- Enum types are written in an order that shows nothing of the order of the entries. -/
theorem map_createEnum_sortedEnums (h : enums.Equiv enums') (hu : Unambiguous enums.get?) :
    (sortedEnums enums).map createEnum = (sortedEnums enums').map createEnum := by
  refine map_mergeSort_eq textsLE_trans textsLE_total (fun _ _ => textsLE_antisymm) h.perm_values ?_
  intro e he e' he' hkey
  obtain ⟨k, hk⟩ := mem_values_iff.1 he
  obtain ⟨k', hk'⟩ := mem_values_iff.1 he'
  obtain ⟨hschema, hname, -⟩ := List.cons.inj hkey |>.imp_right List.cons.inj
  have hvalues := hu k k' e e' hk hk' hschema hname
  unfold createEnum
  rw [hname, qualified_congr hschema, hvalues]

theorem sortedTables_congr (h : s.tables.Equiv s'.tables) : sortedTables s = sortedTables s' := by
  have hentry : ∀ e ∈ s.tables.entries, ∀ e' ∈ s.tables.entries, e.1 = e'.1 → id e = id e' := by
    rintro ⟨k, t⟩ ht ⟨k', t'⟩ ht' rfl
    have heq := (get?_eq_some_iff.2 ht).symm.trans (get?_eq_some_iff.2 ht')
    rw [Option.some.inj heq]
  have hmap : (sortedTables s).map id = (sortedTables s').map id :=
    map_mergeSort_eq textLE_trans textLE_total (fun _ _ => textLE_antisymm) h.perm_entries hentry
  rwa [List.map_id, List.map_id] at hmap

theorem createTable_congr (h : enums.Equiv enums') (key : String) (t : Table) :
    createTable options enums key t = createTable options enums' key t := by
  have hline (c : Column) : columnLine options enums c = columnLine options enums' c := by
    unfold columnLine columnType
    simp only [h _]
  unfold createTable
  simp only [hline]

theorem document_congr (htables : s.tables.Equiv s'.tables) (h : enums.Equiv enums')
    (hu : Unambiguous enums.get?) :
    document options enums s = document options enums' s' := by
  have hsections : sections options enums s = sections options enums' s' := by
    unfold sections
    simp only [map_createEnum_sortedEnums h hu, sortedTables_congr htables, createTable_congr h]
  rw [document, document, hsections]

theorem tableDocument_congr (h : enums.Equiv enums') (hu : Unambiguous enums.get?)
    (key : String) (t : Table) :
    tableDocument options enums key t = tableDocument options enums' key t := by
  let used := t.columns.filterMap fun c => filled c.enumName
  have hused : (enums.filter fun k _ => used.contains k).Equiv
      (enums'.filter fun k _ => used.contains k) := fun k => by
    rw [get?_filter, get?_filter, h k]
  have hmem {k : String} {e : EnumType}
      (he : (enums.filter fun k _ => used.contains k).get? k = some e) : enums.get? k = some e := by
    rw [get?_filter] at he
    exact (Option.filter_eq_some_iff.1 he).1
  have htexts := map_createEnum_sortedEnums hused fun k k' e e' he he' =>
    hu k k' e e' (hmem he) (hmem he')
  have hempty := congrArg List.isEmpty htexts
  rw [List.isEmpty_map, List.isEmpty_map] at hempty
  simp only [used] at htexts hempty
  simp only [tableDocument, htexts, hempty, createTable_congr h]

/-! ## Documents -/

theorem uniform_congr (htables : s.tables.Equiv s'.tables) (henums : s.enums.Equiv s'.enums)
    (hs : s.Uniform) : s'.Uniform where
  own key k k' t t' := by
    rw [← henums key, ← htables k, ← htables k']
    exact hs.own key k k' t t'
  unambiguous := by
    rw [← funext (knownEnum?_congr htables henums hs)]
    exact hs.unambiguous

/-- The text that is generated, from the enum types that are known. -/
theorem text_congr (htables : s.tables.Equiv s'.tables) (h : enums.Equiv enums')
    (hu : Unambiguous enums.get?) (only : Option String) :
    (only.elim (document options enums s) fun key =>
        (s.tables.get? key).elim options.missingTable (tableDocument options enums key)) =
      only.elim (document options enums' s') fun key =>
        (s'.tables.get? key).elim options.missingTable (tableDocument options enums' key) := by
  cases only with
  | none => rw [Option.elim_none, Option.elim_none, document_congr htables h hu]
  | some key =>
    rw [Option.elim_some, Option.elim_some, htables key]
    cases s'.tables.get? key with
    | none => rw [Option.elim_none, Option.elim_none]
    | some t => rw [Option.elim_some, Option.elim_some, tableDocument_congr h hu]

theorem result_generate_of_equiv (htables : s.tables.Equiv s'.tables)
    (henums : s.enums.Equiv s'.enums) (hs : s.Uniform) {only : Option String} {text : String}
    (h : (generate options s only).result = .ok text) :
    (generate options s' only).result = .ok text := by
  rw [result_generate] at h ⊢
  obtain ⟨enums, hknown, rfl⟩ := Action.map_ok h
  obtain ⟨enums', hknown', hequiv⟩ := knownEnums_congr htables henums hs hknown
  have hu : Unambiguous enums.get? := by
    rw [funext (get?_knownEnums hknown)]
    exact hs.unambiguous
  rw [hknown', text_congr htables hequiv hu]
  rfl

/-- **Documents do not show the order of tables and enum types.** If two schemas have the same tables
    and enum types, and the order of tables does not decide which enum types count, a text is
    generated of one of them, or of one of its tables, just if it is generated of the other. -/
theorem result_generate_congr (htables : s.tables.Equiv s'.tables) (henums : s.enums.Equiv s'.enums)
    (hs : s.Uniform) (only : Option String) (text : String) :
    (generate options s only).result = .ok text ↔ (generate options s' only).result = .ok text :=
  ⟨result_generate_of_equiv htables henums hs,
    result_generate_of_equiv htables.symm henums.symm (uniform_congr htables henums hs)⟩

/-! ### Two orders of two tables -/

/-- A table with a column that brings the values of the enum type `mood` along. -/
def moodTable (title : String) (values : List String) : Table :=
  { title, columns := [{ title := "m", enumName := some "mood", enumValues := some values }] }

/-- The schema with the tables `a` and `b`, in this order or the other way around. -/
def moodSchema (inOrder : Bool) (a b : List String) : Schema :=
  let tables := [("a", moodTable "a" a), ("b", moodTable "b" b)]
  { tables := ofList (if inOrder then tables else tables.reverse) }

/-- The enum type `mood` with one value, under its key. -/
def moodEnums (value : String) : OrderedMap EnumType := ofList [("mood", ⟨"mood", none, [value]⟩)]

theorem moodSchema_equiv (a b : List String) :
    (moodSchema true a b).tables.Equiv (moodSchema false a b).tables := by
  intro k
  simp only [moodSchema, if_true, Bool.false_eq_true, if_false, ofList, List.reverse_cons,
    List.reverse_nil, List.nil_append, List.cons_append, List.foldl_cons, List.foldl_nil, get?_insert]
  split
  · next h =>
    subst h
    rfl
  · rfl

theorem ownEnums_moodTable (title value : String) :
    (moodTable title [value]).ownEnums = [("mood", ⟨"mood", none, [value]⟩)] := by
  have hname : Name.qualified "mood" = (none, "mood") := by decide +kernel
  have hfilled : filled (some "mood") = some "mood" := rfl
  simp [Table.ownEnums, Column.ownEnum?, moodTable, hname, hfilled]

theorem uniform_moodSchema : (moodSchema true ["calm"] ["calm"]).Uniform := by
  have hown : ∀ t ∈ (moodSchema true ["calm"] ["calm"]).tables.values,
      t.ownEnums = [("mood", ⟨"mood", none, ["calm"]⟩)] := by
    intro t ht
    rcases List.mem_pair.1 ht with rfl | rfl <;> exact ownEnums_moodTable ..
  constructor
  · intro key k k' t t' e e' _ ht ht' h h'
    rw [hown t (mem_values_iff.2 ⟨k, ht⟩)] at h
    rw [hown t' (mem_values_iff.2 ⟨k', ht'⟩), h] at h'
    exact Option.some.inj h'
  · have hvalues {k : String} {e : EnumType}
        (h : (moodSchema true ["calm"] ["calm"]).knownEnum? k = some e) : e.values = ["calm"] := by
      obtain ⟨t, ht, he⟩ := List.mem_flatMap.1 (mem_of_find h)
      rw [hown t ht, List.mem_singleton] at he
      cases he
      rfl
    intro k k' e e' h h' _ _
    rw [hvalues h, hvalues h']

/-- Two tables that bring the same enum type along may come in either order. -/
theorem result_generate_congr_moodSchema :
    let s := moodSchema true ["calm"] ["calm"]
    let s' := moodSchema false ["calm"] ["calm"]
    s.tables.Equiv s'.tables ∧ s.enums.Equiv s'.enums ∧ s.Uniform ∧ ∀ text,
      (generate {} s none).result = .ok text ↔ (generate {} s' none).result = .ok text := by
  have h := moodSchema_equiv ["calm"] ["calm"]
  exact ⟨h, .refl _, uniform_moodSchema,
    result_generate_congr h (.refl _) uniform_moodSchema none⟩

/-- Of two tables that bring different enum types along under one key, the one that came first decides
    which one is written. -/
theorem not_result_generate_congr :
    let s := moodSchema true ["x"] ["y"]
    let s' := moodSchema false ["x"] ["y"]
    s.tables.Equiv s'.tables ∧ s.enums.Equiv s'.enums ∧
      (generate {} s none).result =
        .ok ("-- Enum Types\nCREATE TYPE \"mood\" AS ENUM ('x');\n\n" ++
          "-- Tables\nCREATE TABLE \"a\" (\n  \"m\" \"mood\"\n);\n\n" ++
          "CREATE TABLE \"b\" (\n  \"m\" \"mood\"\n);") ∧
      (generate {} s' none).result =
        .ok ("-- Enum Types\nCREATE TYPE \"mood\" AS ENUM ('y');\n\n" ++
          "-- Tables\nCREATE TABLE \"a\" (\n  \"m\" \"mood\"\n);\n\n" ++
          "CREATE TABLE \"b\" (\n  \"m\" \"mood\"\n);") := by
  intro s s'
  have hequiv := moodSchema_equiv ["x"] ["y"]
  have hs : knownEnums s = .ok (moodEnums "x") := by decide +kernel
  have hs' : knownEnums s' = .ok (moodEnums "y") := by decide +kernel
  have hsorted : sortedTables s = s.tables.entries := List.mergeSort_of_pairwise (by decide +kernel)
  have hsorted' : sortedTables s' = s.tables.entries := (sortedTables_congr hequiv).symm.trans hsorted
  refine ⟨hequiv, .refl _, ?_, ?_⟩
  · rw [result_generate, hs]
    refine congrArg Except.ok ?_
    simp only [Option.elim_none, document, sections, hsorted]
    decide +kernel
  · rw [result_generate, hs']
    refine congrArg Except.ok ?_
    simp only [Option.elim_none, document, sections, hsorted']
    decide +kernel

end Ddl

end Schemata
