/-
  Soundness of the schemas of documents.

  * `Table.Sound`: the columns, constraints and indexes of a table agree with each other and with the
    enum types; `Schema.Sound` adds the keys and the values of enum types;
  * `Schema.sound_ofDocument`: the schema of a document is sound.
-/
import Schemata.Proofs.ParsedSchemas

namespace Schemata

/-- The parts of a table agree with each other and with the enum types.  A name of a constraint that
    is empty is none. -/
structure Table.Sound (enums : OrderedMap EnumType) (t : Table) : Prop where
  titles : (t.columns.map fun col => Quote.fold col.title).Nodup
  required : ∀ col ∈ t.columns, col.primaryKey = true → col.required = true
  enumNames : ∀ col ∈ t.columns, ∀ name, col.enumName = some name →
    col.format = "enum" ∧ col.category = "string" ∧ ∃ e, enums.get? name = some e
  unfolded : ∀ c ∈ t.constraints, c.isFolded = false
  known : ∀ c ∈ t.constraints, ∀ n ∈ c.columns, ∃ col, t.findColumn? n = some col
  names : t.constraints.Pairwise fun c d => ∀ n m, filled c.name = some n →
    filled d.name = some m → Quote.fold n ≠ Quote.fold m
  unnamed : t.constraints.Pairwise fun c d => filled c.name = none → filled d.name = none → c ≠ d
  /-- The columns of a primary key are key columns. -/
  keys : ∀ c ∈ t.constraints, c.kind = .primaryKey → ∀ n ∈ c.columns,
    ∃ col, t.findColumn? n = some col ∧ col.primaryKey = true ∧ col.required = true
  uniques : ∀ c ∈ t.constraints, c.kind = .unique → ∀ n, c.columns = [n] →
    ∃ col, t.findColumn? n = some col ∧ col.unique = true
  foreignKeys : ∀ c ∈ t.constraints, c.kind = .foreignKey → ∀ n, c.columns = [n] →
    ∃ col text, t.findColumn? n = some col ∧ col.foreignKey = some text
  indexNames : (t.indexes.map (·.name)).Nodup

/-- Everything is under its own key, tables are sound, and the values of an enum type are distinct
    whatever their case. -/
structure Schema.Sound (s : Schema) : Prop where
  tableKeys : ∀ k t, s.tables.get? k = some t → k = t.key
  enumKeys : ∀ k e, s.enums.get? k = some e → k = e.key
  tables : ∀ k t, s.tables.get? k = some t → t.Sound s.enums
  enumValues : ∀ k e, s.enums.get? k = some e → (e.values.map Text.lower).Nodup

/-! ## Enum types -/

theorem EnumType.nodup_of_repeated? {seen values : List String}
    (h : EnumType.repeated? seen values = none) :
    (values.map Text.lower).Nodup ∧ ∀ v ∈ values, Text.lower v ∉ seen := by
  induction values generalizing seen with
  | nil => exact ⟨List.nodup_nil, fun _ hv => absurd hv List.not_mem_nil⟩
  | cons v values ih =>
    rw [EnumType.repeated?] at h
    split at h
    · cases h
    next hnew =>
    rw [List.contains_iff_mem] at hnew
    obtain ⟨hnodup, hunseen⟩ := ih h
    constructor
    · rw [List.map_cons, List.nodup_cons]
      refine ⟨fun hm => ?_, hnodup⟩
      obtain ⟨w, hw, hfold⟩ := List.mem_map.1 hm
      exact hunseen w hw (hfold ▸ List.mem_cons_self)
    · intro w hw
      rcases List.mem_cons.1 hw with rfl | hw
      · exact hnew
      · exact fun hm => hunseen w hw (List.mem_cons_of_mem _ hm)

/-! ## Tables -/

variable {enums : OrderedMap EnumType} {t : Table}

theorem Table.exists_findColumn? {name : String}
    (h : Quote.fold name ∈ t.columns.map Column.folded) :
    ∃ col, t.findColumn? name = some col ∧ col ∈ t.columns ∧ col.folded = Quote.fold name := by
  obtain ⟨col, hcol, hfold⟩ := List.mem_map.1 h
  cases hfind : t.findColumn? name with
  | none =>
    have hnone := List.find?_eq_none.1 hfind col hcol
    exact absurd (beq_iff_eq.2 hfold) hnone
  | some d =>
    have hname := List.find?_some hfind
    rw [Table.hasName, beq_iff_eq] at hname
    exact ⟨d, rfl, List.mem_of_find?_eq_some hfind, hname⟩

theorem Constraint.columnKey_singleton {c : Constraint} {n : String} (h : c.columns = [n]) :
    c.columnKey = [Quote.fold n] := by
  rw [columnKey, h]
  rfl

theorem ParsedTable.sound (hkeys : ∀ k e, enums.get? k = some e → k = e.key)
    (h : ParsedTable enums t) : t.Sound enums := by
  have hfind : ∀ c ∈ t.constraints, ∀ n ∈ c.columns, ∃ col, t.findColumn? n = some col ∧
      col ∈ t.columns ∧ col.folded = Quote.fold n :=
    fun c hc n hn => Table.exists_findColumn? (h.known c hc n hn)
  constructor
  case titles => exact h.titles
  case required => exact fun col hcol => (h.columns col hcol).required
  case enumNames =>
    intro col hcol name hname
    rcases (h.columns col hcol).type with ⟨key, e, he, henum, hformat, hcategory⟩ | ⟨hnone, -⟩
    · rw [hname] at henum
      have hkey : name = e.key := by
        unfold nonBlank at henum
        split at henum
        · cases henum
        · exact Option.some.inj henum
      exact ⟨hformat, hcategory, e, by rw [hkey, ← hkeys key e he, he]⟩
    · rw [hname] at hnone
      cases hnone
  case unfolded => exact h.unfolded
  case known =>
    intro c hc n hn
    obtain ⟨col, hcol, -⟩ := hfind c hc n hn
    exact ⟨col, hcol⟩
  case names =>
    refine h.apart.imp fun {c d} hapart n m hn hm => ?_
    rw [Constraint.Apart, hn, hm] at hapart
    exact hapart
  case unnamed =>
    refine h.apart.imp fun {c d} hapart hn hm => ?_
    rw [Constraint.Apart, hn, hm] at hapart
    exact hapart
  case keys =>
    intro c hc hkind n hn
    obtain ⟨col, hcol, hmem, hfold⟩ := hfind c hc n hn
    have hkey := h.keys c hc col hmem
      (Constraint.coversKey_iff.2 ⟨hkind, hfold ▸ List.mem_map_of_mem hn⟩)
    exact ⟨col, hcol, hkey, (h.columns col hmem).required hkey⟩
  case uniques =>
    intro c hc hkind n hn
    obtain ⟨col, hcol, hmem, hfold⟩ := hfind c hc n (hn ▸ List.mem_cons_self)
    refine ⟨col, hcol, h.uniques c hc col hmem (Constraint.coversUnique_iff.2 ⟨hkind, ?_⟩)⟩
    rw [Constraint.columnKey_singleton hn, hfold]
  case foreignKeys =>
    intro c hc hkind n hn
    obtain ⟨col, hcol, hmem, hfold⟩ := hfind c hc n (hn ▸ List.mem_cons_self)
    obtain ⟨r, hr, -, hlen⟩ := (h.constraints c hc).reference hkind
    obtain ⟨text, htext⟩ := Reference.exists_columnText (hlen.trans (hn ▸ rfl))
    have htarget : c.target? col.folded = some text := Constraint.target?_eq_some_iff.2
      ⟨hkind, by rw [Constraint.columnKey_singleton hn, hfold], by rw [hr]; exact htext⟩
    obtain ⟨text', htext'⟩ := Option.isSome_iff_exists.1
      (h.targets c hc col hmem (Option.isSome_iff_exists.2 ⟨text, htarget⟩))
    exact ⟨col, text', hcol, htext'⟩
  case indexNames => exact h.indexNames

/-- **Soundness of the schema of a document.** -/
theorem Schema.sound_ofDocument {text : String} {s : Schema}
    (h : (Schema.ofDocument text).result = .ok s) : s.Sound := by
  have hparsed := parsedSchema_ofDocument h
  have hkeys : ∀ k e, s.enums.get? k = some e → k = e.key := fun k e he => (hparsed.enums k e he).1
  exact
    { tableKeys := fun k t ht => (hparsed.tables k t ht).1
      enumKeys := hkeys
      tables := fun k t ht => (hparsed.tables k t ht).2.sound hkeys
      enumValues := fun k e he => (EnumType.nodup_of_repeated? (hparsed.enums k e he).2.2).1 }

/-- A document with an enum type, a named key and a condition. -/
def soundDocument : String :=
  "CREATE TYPE m AS ENUM ('a', 'B');
CREATE TABLE t (a int, b m, CONSTRAINT k PRIMARY KEY (A), CHECK (a > 0));"

theorem Schema.sound_ofDocument_soundDocument :
    ∃ s, (Schema.ofDocument soundDocument).result = .ok s ∧ s.Sound := by
  have hok : ((Schema.ofDocument soundDocument).result.toOption).isSome = true := by
    decide +kernel
  cases h : (Schema.ofDocument soundDocument).result with
  | error e =>
    rw [h] at hok
    cases hok
  | ok s => exact ⟨s, rfl, Schema.sound_ofDocument h⟩

end Schemata
