/-
  Cleaning is a projection.

  * `CleanColumn` and `CleanTable` say what holds of the columns and tables that cleaning keeps
    (`cleanColumns_clean`, `cleanTable_some`);
  * encoded again, those that are clean but for blank comments are kept without these comments
    (`cleanColumns_unblanked`, `cleanTable_unblanked`), so clean ones are kept as they are
    (`cleanTable_toJson`, `clean_again`);
  * a place and a colour from elsewhere leave a table clean (`CleanTable.keepLayout`).
-/
import Schemata.Cleaning
import Schemata.Proofs.Encoding
import Schemata.Proofs.Folding

namespace Schemata

/-! ## Blank comments -/

/-- The column without a comment that is blank. -/
def Column.unblanked (c : Column) : Column := { c with comment := c.comment.bind nonBlank }

/-- The table without blank comments on its columns. -/
def Table.unblanked (t : Table) : Table := { t with columns := t.columns.map Column.unblanked }

/-- The schema without blank comments on columns. -/
def Schema.unblanked (s : Schema) : Schema :=
  { s with tables := s.tables.map fun _ t => t.unblanked }

namespace Cleaning

open Log
open OrderedMap (find)
open Decode (Checked)

variable {key : String} {m : List (String × Json)} {c : Column} {t : Table}

/-! ## Columns -/

/-- The column has a title and no blank texts, and a key is required. -/
structure CleanColumn (c : Column) : Prop where
  title : Text.isBlankText c.title = false
  required : c.coherent = c
  defaultText : c.defaultText.bind nonBlank = c.defaultText
  foreignKey : c.foreignKey.bind nonBlank = c.foreignKey
  enumName : c.enumName.bind nonBlank = c.enumName
  comment : c.comment.bind nonBlank = c.comment

/-- The column has no blank texts, and a key is required. -/
structure NormalColumn (c : Column) : Prop where
  required : c.coherent = c
  defaultText : c.defaultText.bind nonBlank = c.defaultText
  foreignKey : c.foreignKey.bind nonBlank = c.foreignKey
  enumName : c.enumName.bind nonBlank = c.enumName
  comment : c.comment.bind nonBlank = c.comment

theorem CleanColumn.normal (h : CleanColumn c) : NormalColumn c :=
  ⟨h.required, h.defaultText, h.foreignKey, h.enumName, h.comment⟩

theorem NormalColumn.unblanked_eq (h : NormalColumn c) : c.unblanked = c := by
  rw [Column.unblanked, h.comment]

/-- Such a column is decoded as it was, without a blank comment. -/
theorem NormalColumn.decode_unblanked (h : NormalColumn c.unblanked) :
    Decode.column c.toJson = .ok c.unblanked := by
  have hread : ({ c with
      defaultText := c.defaultText.bind nonBlank
      foreignKey := c.foreignKey.bind nonBlank
      enumName := c.enumName.bind nonBlank
      comment := c.comment.bind nonBlank } : Column) = c.unblanked := by
    have hdefault : c.defaultText.bind nonBlank = c.defaultText := h.defaultText
    have hforeign : c.foreignKey.bind nonBlank = c.foreignKey := h.foreignKey
    have henum : c.enumName.bind nonBlank = c.enumName := h.enumName
    rw [hdefault, hforeign, henum]
    rfl
  rw [Decode.column_toJson, hread, h.required]

theorem NormalColumn.decode (h : NormalColumn c) : Decode.column c.toJson = .ok c := by
  have hsame := h.unblanked_eq
  have hnormal : NormalColumn c.unblanked := by rwa [hsame]
  have hdecode := hnormal.decode_unblanked
  rwa [hsame] at hdecode

theorem nonBlank_bind (s : String) : (nonBlank s).bind nonBlank = nonBlank s := by
  rw [nonBlank]
  split
  · rfl
  · next hs => rw [Option.bind_some, nonBlank, if_neg hs]

theorem filledText_bind {v : Json} {o : Option String} (h : Decode.filledText v = .ok o) :
    o.bind nonBlank = o := by
  cases v with
  | str s =>
    obtain rfl : nonBlank s = o := by
      simp only [Decode.filledText] at h
      rw [nonBlank]
      split at h <;> cases h <;> simp [*]
    exact nonBlank_bind s
  | null => cases h; rfl
  | _ => cases h

theorem defaultText_bind (v : Json) : (Decode.defaultText v).bind nonBlank = Decode.defaultText v := by
  unfold Decode.defaultText
  split
  · rfl
  · next b => cases b <;> decide
  · exact nonBlank_bind _

/-- What is read from a field has no blank text if no decoded value has one. -/
theorem field_bind {n : Decode.FieldName} {f : Json → Checked (Option String)} {o : Option String}
    (hf : ∀ {v o}, f v = .ok o → o.bind nonBlank = o) (h : Decode.field n none f m = .ok o) :
    o.bind nonBlank = o := by
  unfold Decode.field at h
  split at h
  · exact hf (Checked.under_eq_ok_iff.1 h)
  · cases h
    rfl

theorem map_eq_ok {α β : Type} {f : α → β} {x : Checked α} {b : β} (h : x.map f = .ok b) :
    ∃ a, x = .ok a ∧ f a = b := by
  cases x with
  | ok a => cases h; exact ⟨a, rfl, rfl⟩
  | bad faults => cases h

theorem required_title {title : String} (h : Decode.required "title" Decode.text m = .ok title) :
    find "title" m = some (.str title) := by
  cases hfind : find "title" m with
  | none =>
    rw [Decode.required, Decode.FieldName.find?, hfind] at h
    cases h
  | some v =>
    rw [Decode.required_of_find hfind, Checked.under_eq_ok_iff] at h
    cases v with
    | str s => cases h; rfl
    | _ => cases h

theorem coherent_eq (c : Column) :
    c.coherent = { c with required := c.primaryKey || c.required } := by
  obtain ⟨title, format, category, default, required, primaryKey⟩ := c
  cases primaryKey <;> rfl

/-- What is decoded is normal, and its title is the one of the members. -/
theorem normalColumn_of_columnFields (h : Decode.columnFields m = .ok c) :
    NormalColumn c ∧ find "title" m = some (.str c.title) := by
  obtain ⟨c₀, hfields, rfl⟩ := map_eq_ok h
  obtain ⟨_, comment, h₁, hcomment, rfl⟩ := Checked.ap_eq_ok_iff.1 hfields
  obtain ⟨_, values, h₂, -, rfl⟩ := Checked.ap_eq_ok_iff.1 h₁
  obtain ⟨_, enumName, h₃, henumName, rfl⟩ := Checked.ap_eq_ok_iff.1 h₂
  obtain ⟨_, foreignKey, h₄, hforeignKey, rfl⟩ := Checked.ap_eq_ok_iff.1 h₃
  obtain ⟨_, unique, h₅, -, rfl⟩ := Checked.ap_eq_ok_iff.1 h₄
  obtain ⟨_, primaryKey, h₆, -, rfl⟩ := Checked.ap_eq_ok_iff.1 h₅
  obtain ⟨_, required, h₇, -, rfl⟩ := Checked.ap_eq_ok_iff.1 h₆
  obtain ⟨_, default, h₈, hdefault, rfl⟩ := Checked.ap_eq_ok_iff.1 h₇
  obtain ⟨_, category, h₉, -, rfl⟩ := Checked.ap_eq_ok_iff.1 h₈
  obtain ⟨_, format, h₁₀, -, rfl⟩ := Checked.ap_eq_ok_iff.1 h₉
  obtain ⟨title, htitle, rfl⟩ := map_eq_ok h₁₀
  rw [coherent_eq]
  refine ⟨⟨?_, ?_, field_bind filledText_bind hforeignKey, field_bind filledText_bind henumName,
    field_bind filledText_bind hcomment⟩, required_title htitle⟩
  · rw [coherent_eq]
    simp
  · refine field_bind (fun h => ?_) hdefault
    cases h
    exact defaultText_bind _

/-- What is decoded from members with a title is clean, and the title is that one. -/
theorem cleanColumn_of_columnFields {title : String} (h : Decode.columnFields m = .ok c)
    (ht : title? m = some title) : CleanColumn c ∧ c.title = title := by
  obtain ⟨hfind, hblank⟩ := Option.filter_eq_some_iff.1 ht
  obtain ⟨hnormal, htitle⟩ := normalColumn_of_columnFields h
  rw [htitle] at hfind
  cases hfind
  exact ⟨⟨by simpa using hblank, hnormal.required, hnormal.defaultText, hnormal.foreignKey,
    hnormal.enumName, hnormal.comment⟩, rfl⟩

theorem cleanColumn_some {seen : List String} {raw : Json}
    (h : (cleanColumn seen raw).value = some c) :
    CleanColumn c ∧ Quote.fold c.title ∉ seen := by
  unfold cleanColumn at h
  split at h
  · cases h
  · next title ht =>
    obtain ⟨m, hm, ht⟩ := Option.bind_eq_some_iff.1 ht
    obtain rfl : raw = .obj m := by
      cases raw <;> cases hm
      rfl
    split at h
    · cases h
    · next hseen =>
      split at h
      · next c' hc =>
        cases h
        obtain ⟨hclean, rfl⟩ := cleanColumn_of_columnFields hc ht
        exact ⟨hclean, by simpa using hseen⟩
      · cases h

theorem CleanColumn.title? (h : CleanColumn c) : c.toJson.members?.bind title? = some c.title := by
  show (some c.title).filter (! Text.isBlankText ·) = some c.title
  simp [h.title]

theorem cleanColumn_unblanked {seen : List String} (h : CleanColumn c.unblanked)
    (hseen : Quote.fold c.title ∉ seen) : (cleanColumn seen c.toJson).value = some c.unblanked := by
  have htitle : c.toJson.members?.bind title? = some c.title := h.title?
  rw [cleanColumn, htitle]
  simp only [List.contains_iff_mem, hseen, if_false, h.normal.decode_unblanked, Logged.value_pure]

/-- Clean columns with titles that differ from each other and from some titles before. -/
inductive CleanColumns : List String → List Column → Prop
  | nil {seen : List String} : CleanColumns seen []
  | cons {seen : List String} {c : Column} {columns : List Column} (column : CleanColumn c)
      (fresh : Quote.fold c.title ∉ seen)
      (rest : CleanColumns (Quote.fold c.title :: seen) columns) : CleanColumns seen (c :: columns)

theorem CleanColumns.of_mem {seen : List String} {columns : List Column}
    (h : CleanColumns seen columns) (hc : c ∈ columns) : CleanColumn c := by
  induction h with
  | nil => cases hc
  | cons column _ _ ih =>
    rcases List.mem_cons.1 hc with rfl | hc
    · exact column
    · exact ih hc

theorem cleanColumns_clean (seen : List String) (raws : List Json) :
    CleanColumns seen (cleanColumns seen raws).value.1 := by
  induction raws generalizing seen with
  | nil => exact .nil
  | cons raw raws ih =>
    simp only [cleanColumns, Logged.value_bind]
    split
    · exact ih seen
    · next c hc =>
      obtain ⟨hclean, hfresh⟩ := cleanColumn_some hc
      exact .cons hclean hfresh (ih _)

/-- Columns that are clean but for blank comments are kept without them. -/
theorem cleanColumns_unblanked {seen : List String} {columns : List Column}
    (h : CleanColumns seen (columns.map Column.unblanked)) :
    (cleanColumns seen (columns.map Column.toJson)).value = (columns.map Column.unblanked, 0) := by
  induction columns generalizing seen with
  | nil => rfl
  | cons c columns ih =>
    cases h with
    | cons column fresh rest =>
      have htitle : c.unblanked.title = c.title := rfl
      rw [htitle] at fresh rest
      simp only [List.map_cons, cleanColumns, Logged.value_bind, cleanColumn_unblanked column fresh,
        htitle, ih rest, Logged.value_pure]

/-! ## Tables -/

/-- The table can stand under the key: it has columns, all of them clean, and a title of its own or
    the bare name of the key. -/
structure CleanTable (key : String) (t : Table) : Prop where
  title : Text.isBlankText t.title = true → t.title = Name.bare key
  key : Text.isBlankText key = false
  nonempty : t.columns ≠ []
  columns : CleanColumns [] t.columns

theorem title_of_titled {title : String}
    (h : Decode.required "title" Decode.text (titled key m) = .ok title) :
    Text.isBlankText title = true → title = Name.bare key := by
  have hfind := required_title h
  unfold titled at hfind
  split at hfind
  · next ht =>
    obtain ⟨title', ht⟩ := Option.isSome_iff_exists.1 ht
    obtain ⟨htitle, hblank⟩ := Option.filter_eq_some_iff.1 ht
    rw [hfind] at htitle
    cases htitle
    intro hb
    rw [hb] at hblank
    cases hblank
  · rw [OrderedMap.find_put, if_pos rfl] at hfind
    cases hfind
    exact fun _ => rfl

/-- A decoded table has the columns that it was given, and its title is the one that was found. -/
theorem tableWith_ok {columns : List Column} (h : Decode.tableWith (.ok columns) m = .ok t) :
    t.columns = columns ∧ Decode.required "title" Decode.text m = .ok t.title := by
  obtain ⟨_, isView, h₁, -, rfl⟩ := Checked.ap_eq_ok_iff.1 h
  obtain ⟨_, comment, h₂, -, rfl⟩ := Checked.ap_eq_ok_iff.1 h₁
  obtain ⟨_, color, h₃, -, rfl⟩ := Checked.ap_eq_ok_iff.1 h₂
  obtain ⟨_, position, h₄, -, rfl⟩ := Checked.ap_eq_ok_iff.1 h₃
  obtain ⟨_, indexes, h₅, -, rfl⟩ := Checked.ap_eq_ok_iff.1 h₄
  obtain ⟨_, constraints, h₆, -, rfl⟩ := Checked.ap_eq_ok_iff.1 h₅
  obtain ⟨_, columns', h₇, hcolumns, rfl⟩ := Checked.ap_eq_ok_iff.1 h₆
  obtain ⟨_, schema, h₈, -, rfl⟩ := Checked.ap_eq_ok_iff.1 h₇
  obtain ⟨title, htitle, rfl⟩ := map_eq_ok h₈
  cases hcolumns
  exact ⟨rfl, htitle⟩

theorem cleanMembers_some (hkey : Text.isBlankText key = false)
    (h : (cleanMembers key m).value.table = some t) : CleanTable key t := by
  simp only [cleanMembers, Logged.value_bind] at h
  split at h
  · cases h
  · next hne =>
    split at h
    · next t' ht =>
      cases h
      obtain ⟨hcolumns, htitle⟩ := tableWith_ok ht
      refine ⟨title_of_titled htitle, hkey, ?_, ?_⟩
      · rw [hcolumns]
        simpa using hne
      · rw [hcolumns]
        exact cleanColumns_clean [] _
    · cases h

/-- What cleaning leaves of a table is clean. -/
theorem cleanTable_some {raw : Json} (h : (cleanTable key raw).value.table = some t) :
    CleanTable key t := by
  unfold cleanTable at h
  split at h
  · split at h
    · cases h
    · next hkey => exact cleanMembers_some (by simpa using hkey) h
  · cases h

theorem rawColumns_tableMembers (t : Table) :
    rawColumns (Decode.tableMembers t) = t.columns.map Column.toJson := by
  simp [rawColumns, Decode.tableMembers, OrderedMap.find_append, Decode.find_optional, find, Json.items?]

theorem title?_tableMembers (t : Table) :
    title? (Decode.tableMembers t) = (some t.title).filter (! Text.isBlankText ·) := rfl

/-- A table keeps its title or takes the bare name of its key. -/
theorem titled_tableMembers (key : String) (t : Table) :
    ∃ title, titled key (Decode.tableMembers t) = Decode.tableMembers { t with title } ∧
      (title = t.title ∨ Text.isBlankText t.title = true ∧ title = Name.bare key) := by
  unfold titled
  rw [title?_tableMembers]
  by_cases h : Text.isBlankText t.title = true
  · exact ⟨Name.bare key, by simp [h, Decode.tableMembers, OrderedMap.put], .inr ⟨h, rfl⟩⟩
  · exact ⟨t.title, by simp [h], .inl rfl⟩

/-- Cleaning a table changes nothing but its title and its columns. -/
theorem cleanTable_toJson_some {u : Table} (h : (cleanTable key t.toJson).value.table = some u) :
    ∃ title columns, u = { t with title, columns } := by
  obtain ⟨title, htitled, -⟩ := titled_tableMembers key t
  rw [Decode.toJson_eq_tableMembers, cleanTable] at h
  split at h
  · cases h
  · simp only [cleanMembers, Logged.value_bind, htitled, Decode.tableWith_tableMembers] at h
    split at h
    · cases h
    · cases h
      exact ⟨_, _, rfl⟩

/-- A table that is clean but for blank comments is kept without them. -/
theorem cleanTable_unblanked (h : CleanTable key t.unblanked) :
    (cleanTable key t.toJson).value = { table := some t.unblanked } := by
  obtain ⟨title, htitled, htitle⟩ := titled_tableMembers key t
  obtain rfl : title = t.title := by
    obtain h' | ⟨hblank, h'⟩ := htitle
    · exact h'
    · rw [h']
      exact (h.title hblank).symm
  have hnonempty : t.columns.map Column.unblanked ≠ [] := h.nonempty
  rw [Decode.toJson_eq_tableMembers, cleanTable, if_neg (by simp [h.key])]
  simp only [cleanMembers, Logged.value_bind, rawColumns_tableMembers,
    cleanColumns_unblanked h.columns, htitled, Decode.tableWith_tableMembers, List.isEmpty_iff,
    hnonempty, if_false, Logged.value_pure]
  rfl

theorem CleanTable.unblanked_eq (h : CleanTable key t) : t.unblanked = t := by
  have hid : ∀ c ∈ t.columns, c.unblanked = id c := fun c hc =>
    (h.columns.of_mem hc).normal.unblanked_eq
  rw [Table.unblanked, List.map_congr_left hid, List.map_id]

/-- A clean table is kept as it is. -/
theorem cleanTable_toJson (h : CleanTable key t) :
    (cleanTable key t.toJson).value = { table := some t } := by
  have hsame := h.unblanked_eq
  have hclean : CleanTable key t.unblanked := by rwa [hsame]
  have hkept := cleanTable_unblanked hclean
  rwa [hsame] at hkept

theorem CleanTable.keepLayout (h : CleanTable key t) (earlier : Option Table) :
    CleanTable key (keepLayout t earlier) := by
  cases earlier with
  | none => exact h
  | some e => exact ⟨h.title, h.key, h.nonempty, h.columns⟩

/-! ## Maps of tables -/

/-- All tables of the map are clean. -/
def CleanTables (tables : OrderedMap Table) : Prop :=
  ∀ key t, tables.get? key = some t → CleanTable key t

theorem clean_value (raw : OrderedMap Json) (nameless : Nat) : (clean raw nameless).value =
    Cleaned.ofOutcomes nameless (raw.map fun key v => (cleanTable key v).value) := by
  simp only [clean, Logged.value_bind]
  split <;> rfl

theorem clean_tables (raw : OrderedMap Json) {nameless : Nat} : (clean raw nameless).value.tables =
    raw.filterMap fun key v => (cleanTable key v).value.table := by
  rw [clean_value, Cleaned.ofOutcomes, OrderedMap.filterMap_map]

theorem cleanTables_clean (raw : OrderedMap Json) {nameless : Nat} :
    CleanTables (clean raw nameless).value.tables := by
  intro key t h
  rw [clean_tables, OrderedMap.get?_filterMap] at h
  obtain ⟨v, -, hv⟩ := Option.bind_eq_some_iff.1 h
  exact cleanTable_some hv

theorem clean_unblanked {tables : OrderedMap Table} {nameless : Nat}
    (h : CleanTables (tables.map fun _ t => t.unblanked)) :
    (clean (tables.map fun _ t => t.toJson) nameless).value.tables =
      tables.map fun _ t => t.unblanked := by
  rw [clean_tables, OrderedMap.filterMap_map]
  refine OrderedMap.filterMap_eq_map fun key t ht => ?_
  have hclean : CleanTable key t.unblanked :=
    h key t.unblanked (by rw [OrderedMap.get?_map, ht, Option.map_some])
  rw [cleanTable_unblanked hclean]

/-- Where every table is kept whole, nothing is counted. -/
theorem ofOutcomes_kept (tables : OrderedMap Table) :
    Cleaned.ofOutcomes 0 (tables.map fun _ t => { table := some t }) = { tables } := by
  have htables : (tables.map fun _ t => { table := some t : Outcome }).filterMap
      (fun _ o => o.table) = tables := by
    rw [OrderedMap.filterMap_map]
    exact OrderedMap.filterMap_eq_self fun _ _ _ => rfl
  have hremoved : (tables.map fun _ t => { table := some t : Outcome }).values.countP
      (fun o => o.table.isNone) = 0 := by
    rw [OrderedMap.values, OrderedMap.map, List.map_map, List.countP_map, List.countP_eq_zero]
    exact fun _ _ => Bool.false_ne_true
  have hcolumns : (tables.map fun _ t => { table := some t : Outcome }).sumBy
      (fun _ o => o.removedColumns) = 0 := by
    rw [OrderedMap.sumBy, OrderedMap.map, List.foldr_map]
    induction tables.entries with
    | nil => rfl
    | cons _ _ ih => rw [List.foldr_cons, ih]
  rw [Cleaned.ofOutcomes, htables, hremoved, hcolumns]

/-- **Cleaning again.** Clean tables are kept as they are, and nothing is counted. -/
theorem clean_again {tables : OrderedMap Table} (h : CleanTables tables) :
    (clean (tables.map fun _ t => t.toJson)).value = { tables } := by
  rw [clean_value, OrderedMap.map_map, ← ofOutcomes_kept]
  congr 1
  exact OrderedMap.map_congr fun key t ht => cleanTable_toJson (h key t ht)

theorem clean_toJson {tables : OrderedMap Table} (h : CleanTables tables) :
    (clean (tables.map fun _ t => t.toJson)).value.tables = tables := by
  rw [clean_again h]

end Cleaning

end Schemata
