/-
  Columns and enum values stay apart while a schema is edited.

  * `Identified` columns stay so when some are removed, moved or changed in other respects, and when
    one is added or replaced whose title was checked (`identified_append`, `identified_set`);
  * `Schema.Tidy`: the columns of all tables are identified, and the values of all enum types differ
    whatever their case; `apply_tidy`: edits keep a schema tidy if what they bring with them is;
  * `runCalls_tidy`: so is every schema that a session reaches from the empty one.  The titles of a
    new table are not checked, and `addTable_tidy_iff` and `not_tidy_repeated` say what follows.
-/
import Schemata.Proofs.Projection
import Schemata.Proofs.Reloading
import Schemata.Proofs.Soundness

namespace Schemata

open Log

/-! ## Maps -/

namespace OrderedMap

variable {α β : Type} {p : α → Prop} {m n : OrderedMap α}

/-- All values of the map have the property. -/
def All (p : α → Prop) (m : OrderedMap α) : Prop := ∀ k v, m.get? k = some v → p v

theorem All.empty : All p {} := nofun

theorem All.insert (h : m.All p) {k : String} {v : α} (hv : p v) : (m.insert k v).All p := by
  intro k' v' h'
  rw [get?_insert] at h'
  split at h'
  · cases h'
    exact hv
  · exact h k' v' h'

theorem All.erase (h : m.All p) (k : String) : (m.erase k).All p := by
  intro k' v' h'
  rw [get?_erase] at h'
  split at h'
  · cases h'
  · exact h k' v' h'

theorem All.map {q : β → Prop} {f : String → α → β} (h : m.All p) (hf : ∀ k v, p v → q (f k v)) :
    (m.map f).All q := by
  intro k w hw
  rw [get?_map, Option.map_eq_some_iff] at hw
  obtain ⟨v, hv, rfl⟩ := hw
  exact hf k v (h k v hv)

theorem All.overlay (h : m.All p) (h' : n.All p) : (m.overlay n).All p := by
  intro k v hv
  obtain hv | hv := get?_of_get?_overlay hv
  · exact h' k v hv
  · exact h k v hv

end OrderedMap

/-! ## Identified columns -/

section Columns

variable {columns columns' : List Column} {c : Column} {t : Table} {title : String} {i : Nat}

theorem Identified.nil : Identified [] :=
  ⟨List.forall_mem_nil _, List.nodup_nil, List.forall_mem_nil _⟩

theorem Identified.sublist (h : Identified columns) (hs : columns'.Sublist columns) :
    Identified columns' :=
  ⟨fun c hc => h.titled c (hs.subset hc), h.distinct.sublist (hs.map _),
    fun c hc => h.required c (hs.subset hc)⟩

theorem Identified.perm (h : Identified columns) (hp : columns'.Perm columns) :
    Identified columns' :=
  ⟨fun c hc => h.titled c (hp.subset hc), (hp.map _).nodup_iff.2 h.distinct,
    fun c hc => h.required c (hp.subset hc)⟩

theorem Identified.cons (h : Identified columns) (htitle : Text.isBlankText c.title = false)
    (hnew : Quote.fold c.title ∉ columns.map fun d => Quote.fold d.title)
    (hkey : c.primaryKey = true → c.required = true) : Identified (c :: columns) :=
  ⟨List.forall_mem_cons.2 ⟨htitle, h.titled⟩, List.nodup_cons.2 ⟨hnew, h.distinct⟩,
    List.forall_mem_cons.2 ⟨hkey, h.required⟩⟩

/-- The column is the same as another one in what tells columns apart. -/
structure Column.Alike (c d : Column) : Prop where
  title : c.title = d.title
  primaryKey : c.primaryKey = d.primaryKey
  required : c.required = d.required

theorem Identified.map (h : Identified columns) {f : Column → Column} (hf : ∀ c, (f c).Alike c) :
    Identified (columns.map f) := by
  refine ⟨fun d hd => ?_, ?_, fun d hd => ?_⟩
  · obtain ⟨c, hc, rfl⟩ := List.mem_map.1 hd
    rw [(hf c).title]
    exact h.titled c hc
  · rw [List.map_map]
    have hfold : (fun c : Column => Quote.fold c.title) ∘ f = fun c => Quote.fold c.title :=
      funext fun c => congrArg Quote.fold (hf c).title
    rw [hfold]
    exact h.distinct
  · obtain ⟨c, hc, rfl⟩ := List.mem_map.1 hd
    rw [(hf c).primaryKey, (hf c).required]
    exact h.required c hc

/-- A checked title is not blank, and no column has it but perhaps the one at the own position. -/
theorem checkTitle_ok {own : Option Nat} (h : t.checkTitle title own = .ok ()) :
    Text.isBlankText title = false ∧
      (t.columnIndex? title = none ∨ ∃ i, own = some i ∧ t.columnIndex? title = some i) := by
  unfold Table.checkTitle at h
  split at h
  · cases h
  · next hblank =>
    refine ⟨by simpa using hblank, ?_⟩
    split at h
    · next hnone => exact .inl hnone
    · next i hi =>
      split at h
      · next hown => exact .inr ⟨i, hown, hi⟩
      · cases h

theorem fresh_of_columnIndex? (h : t.columnIndex? title = none) :
    Quote.fold title ∉ t.columns.map fun c => Quote.fold c.title := by
  intro hmem
  obtain ⟨c, hc, hfold⟩ := List.mem_map.1 hmem
  have hne : (Quote.fold c.title == Quote.fold title) = false :=
    List.findIdx?_eq_none_iff.1 h c hc
  exact beq_eq_false_iff_ne.1 hne hfold

/-- A column with a checked title at the end. -/
theorem identified_append (h : Identified t.columns) (hcheck : t.checkTitle c.title none = .ok ())
    (hkey : c.primaryKey = true → c.required = true) : Identified (t.columns ++ [c]) := by
  obtain ⟨htitle, hnone | ⟨i, hown, -⟩⟩ := checkTitle_ok hcheck
  · exact (h.cons htitle (fresh_of_columnIndex? hnone) hkey).perm (List.perm_append_singleton c _)
  · cases hown

/-- The title at a position differs from those at all others. -/
theorem Identified.notMem_eraseIdx (h : Identified columns) (hi : i < columns.length) :
    Quote.fold columns[i].title ∉ (columns.eraseIdx i).map fun c => Quote.fold c.title := by
  have hperm := (List.getElem_cons_eraseIdx_perm hi).map fun c => Quote.fold c.title
  exact (List.nodup_cons.1 (hperm.nodup_iff.2 h.distinct)).1

/-- A column with a checked title in the place of another one. -/
theorem identified_set (h : Identified t.columns) (hi : i < t.columns.length)
    (hcheck : t.checkTitle c.title (some i) = .ok ())
    (hkey : c.primaryKey = true → c.required = true) : Identified (t.columns.set i c) := by
  have hrest : Identified (t.columns.eraseIdx i) := h.sublist (List.eraseIdx_sublist _ _)
  obtain ⟨htitle, hindex⟩ := checkTitle_ok hcheck
  refine (hrest.cons htitle ?_ hkey).perm (List.set_perm_cons_eraseIdx hi c)
  obtain hnone | ⟨j, hown, hj⟩ := hindex
  · exact fun hmem => fresh_of_columnIndex? hnone
      (((List.eraseIdx_sublist _ _).map _).subset hmem)
  · obtain rfl : i = j := Option.some.inj hown
    obtain ⟨hi, hname, -⟩ := List.findIdx?_eq_some_iff_getElem.1 hj
    have hfold : Quote.fold t.columns[i].title = Quote.fold c.title := eq_of_beq hname
    exact hfold ▸ h.notMem_eraseIdx hi

theorem columnAt_ok {index : Int} (h : t.columnAt index = .ok c) :
    t.columns[index.toNat]? = some c := by
  unfold Table.columnAt at h
  split at h
  · next c' hc =>
    cases h
    split at hc
    · cases hc
    · exact hc
  · cases h

/-- A column at another position. -/
theorem Identified.insertIdx (h : Identified columns) (hi : columns[i]? = some c) (j : Nat) :
    Identified ((columns.eraseIdx i).insertIdx j c) := by
  obtain ⟨hlength, rfl⟩ := List.getElem?_eq_some_iff.1 hi
  by_cases hj : j ≤ (columns.eraseIdx i).length
  · exact h.perm ((List.perm_insertIdx _ _ hj).trans (List.getElem_cons_eraseIdx_perm hlength))
  · rw [List.insertIdx_of_length_lt (Nat.not_le.1 hj)]
    exact h.sublist (List.eraseIdx_sublist _ _)

theorem required_of_decode {v : Json} (h : Decode.column v = .ok c) :
    c.primaryKey = true → c.required = true := by
  cases v with
  | obj m => exact (Cleaning.normalColumn_of_columnFields h).1.required_of_key
  | _ => cases h

theorem Cleaning.CleanTables.identified {tables : OrderedMap Table} (h : Cleaning.CleanTables tables) :
    tables.All fun t => Identified t.columns :=
  fun key t ht => (h key t ht).columns.identified

end Columns

/-! ## Tidy schemas -/

/-- The columns of every table are identified, and the values of every enum type differ whatever
    their case. -/
structure Schema.Tidy (s : Schema) : Prop where
  tables : s.tables.All fun t => Identified t.columns
  enums : s.enums.All fun e => (e.values.map Text.lower).Nodup

theorem EnumType.Valid.nodup {e : EnumType} (h : e.Valid) : (e.values.map Text.lower).Nodup :=
  (EnumType.nodup_of_repeated? h.2).1

namespace Schema

variable {s s' : Schema} {key : String}

theorem tidy_empty : Tidy {} := ⟨.empty, .empty⟩

theorem tableAt_ok {t : Table} (h : s.tableAt key = .ok t) : s.tables.get? key = some t := by
  unfold tableAt at h
  split at h
  · next ht =>
    cases h
    exact ht
  · cases h

theorem enumAt_ok {e : EnumType} (h : s.enumAt key = .ok e) : s.enums.get? key = some e := by
  unfold enumAt at h
  split at h
  · next he =>
    cases h
    exact he
  · cases h

theorem orInvalid_ok {α : Type} {x : Decode.Checked α} {a : α} (h : x.orInvalid = .ok a) :
    x = .ok a := by
  cases x <;> cases h
  rfl

/-- A change of one table that keeps its columns identified. -/
theorem tidy_changeTable (hs : s.Tidy) {f : Table → Except EditError Table}
    (h : s.changeTable key f = .ok s')
    (hf : ∀ t t', Identified t.columns → f t = .ok t' → Identified t'.columns) : s'.Tidy := by
  obtain ⟨t, ht, h⟩ := Action.bind_ok h
  obtain ⟨t', ht', h⟩ := Action.bind_ok h
  cases h
  exact ⟨hs.tables.insert (hf t t' (hs.tables key t (tableAt_ok ht)) ht'), hs.enums⟩

/-! ### Tables -/

theorem identified_keyColumn : Identified [keyColumn] :=
  Identified.nil.cons (by decide) List.not_mem_nil fun _ => rfl

/-- What a new table is. -/
theorem addTable_ok {title : String} {schema : Option String} {columns : List Column}
    {position : Option Position} (h : s.addTable title schema columns position = .ok (s', key)) :
    ∃ t : Table, t.columns = (if columns.isEmpty then [keyColumn] else columns) ∧
      s' = { s with tables := s.tables.insert key t } := by
  unfold addTable at h
  split at h
  · cases h
  · by_cases hexists : s.tables.contains (Name.key schema title) = true
    · rw [if_pos hexists] at h
      cases h
    · rw [if_neg hexists] at h
      cases h
      exact ⟨_, rfl, rfl⟩

/-- **New tables.** A new table leaves a schema tidy just if its columns are identified. -/
theorem addTable_tidy_iff {title : String} {schema : Option String} {columns : List Column}
    {position : Option Position} (hs : s.Tidy)
    (h : s.addTable title schema columns position = .ok (s', key)) :
    s'.Tidy ↔ Identified columns := by
  obtain ⟨t, hcolumns, rfl⟩ := addTable_ok h
  cases columns with
  | nil =>
    refine ⟨fun _ => .nil, fun _ => ⟨hs.tables.insert ?_, hs.enums⟩⟩
    rw [hcolumns]
    exact identified_keyColumn
  | cons c columns =>
    refine ⟨fun htidy => ?_, fun hnew => ⟨hs.tables.insert ?_, hs.enums⟩⟩
    · have hnew : Identified t.columns :=
        htidy.tables key t (by rw [OrderedMap.get?_insert, if_pos rfl])
      rwa [hcolumns] at hnew
    · rw [hcolumns]
      exact hnew

theorem renameTable_tidy (hs : s.Tidy) {title newKey : String}
    (h : s.renameTable key title = .ok (s', newKey)) : s'.Tidy := by
  obtain ⟨t, ht, h⟩ := Action.bind_ok h
  dsimp only at h
  split at h
  · cases h
  split at h
  · cases h
  cases h
  exact ⟨(hs.tables.erase key).insert (hs.tables key t (tableAt_ok ht)), hs.enums⟩

theorem deleteTable_tidy (hs : s.Tidy) (h : s.deleteTable key = .ok s') : s'.Tidy := by
  obtain ⟨_, -, h⟩ := Action.bind_ok h
  cases h
  exact ⟨hs.tables.erase key, hs.enums⟩

theorem moveTable_tidy (hs : s.Tidy) {x y : Json} (h : s.moveTable key x y = .ok s') : s'.Tidy := by
  refine tidy_changeTable hs h fun t t' ht ht' => ?_
  obtain ⟨p, -, ht'⟩ := Action.bind_ok ht'
  cases ht'
  exact ht

/-- Moving tables one after the other, by induction on the places. -/
theorem moveTables_tidy (hs : s.Tidy) {places : OrderedMap (Json × Json)}
    (h : s.moveTables places = .ok s') : s'.Tidy := by
  unfold moveTables at h
  generalize places.entries = places at h
  induction places generalizing s with
  | nil =>
    cases h
    exact hs
  | cons place places ih =>
    rw [List.foldlM_cons] at h
    obtain ⟨moved, hmoved, h⟩ := Action.bind_ok h
    exact ih (moveTable_tidy hs hmoved) h

theorem setColor_tidy (hs : s.Tidy) {color : Option String} (h : s.setColor key color = .ok s') :
    s'.Tidy := by
  refine tidy_changeTable hs h fun t t' ht ht' => ?_
  cases ht'
  exact ht

theorem setTableComment_tidy (hs : s.Tidy) {comment : Option String}
    (h : s.setTableComment key comment = .ok s') : s'.Tidy := by
  refine tidy_changeTable hs h fun t t' ht ht' => ?_
  cases ht'
  exact ht

/-! ### Columns -/

theorem addColumn_tidy (hs : s.Tidy) {c : Column} (hkey : c.primaryKey = true → c.required = true)
    (h : s.addColumn key c = .ok s') : s'.Tidy := by
  refine tidy_changeTable hs h fun t t' ht ht' => ?_
  obtain ⟨_, hcheck, ht'⟩ := Action.bind_ok ht'
  cases ht'
  exact identified_append ht hcheck hkey

/-- The updated column is decoded, so it is required if it is a key; its title is checked. -/
theorem updateColumn_tidy (hs : s.Tidy) {index : Int} {updates : List (String × Json)}
    (h : s.updateColumn key index updates = .ok s') : s'.Tidy := by
  refine tidy_changeTable hs h fun t t' ht ht' => ?_
  obtain ⟨c, hc, ht'⟩ := Action.bind_ok ht'
  obtain ⟨updated, hupdated, ht'⟩ := Action.bind_ok ht'
  obtain ⟨_, hcheck, ht'⟩ := Action.bind_ok ht'
  cases ht'
  obtain ⟨hindex, -⟩ := List.getElem?_eq_some_iff.1 (columnAt_ok hc)
  exact identified_set ht hindex hcheck (required_of_decode (orInvalid_ok hupdated))

theorem deleteColumn_tidy (hs : s.Tidy) {index : Int} (h : s.deleteColumn key index = .ok s') :
    s'.Tidy := by
  refine tidy_changeTable hs h fun t t' ht ht' => ?_
  obtain ⟨_, -, ht'⟩ := Action.bind_ok ht'
  cases ht'
  exact ht.sublist (List.eraseIdx_sublist _ _)

theorem reorderColumns_tidy (hs : s.Tidy) {source target : Int}
    (h : s.reorderColumns key source target = .ok s') : s'.Tidy := by
  refine tidy_changeTable hs h fun t t' ht ht' => ?_
  obtain ⟨c, hc, ht'⟩ := Action.bind_ok ht'
  obtain ⟨_, -, ht'⟩ := Action.bind_ok ht'
  cases ht'
  exact ht.insertIdx (columnAt_ok hc) target.toNat

/-! ### Raw tables -/

theorem mergeEnums_nodup {current : OrderedMap EnumType}
    (h : current.All fun e => (e.values.map Text.lower).Nodup) (raw : OrderedMap Json) :
    (Cleaning.mergeEnums current raw).value.All fun e => (e.values.map Text.lower).Nodup := by
  rw [Cleaning.mergeEnums_value, Logged.value_overMap]
  refine h.overlay fun k e he => ?_
  rw [OrderedMap.filterMap_map, OrderedMap.get?_filterMap] at he
  obtain ⟨v, -, hv⟩ := Option.bind_eq_some_iff.1 he
  unfold Cleaning.cleanEnum at hv
  split at hv
  · next e' he' =>
    cases hv
    exact (valid_of_enumType he').nodup
  · cases hv

theorem addTables_tidy (hs : s.Tidy) (tables enums : OrderedMap Json) :
    (s.addTables tables enums).value.1.Tidy := by
  have htables := (Cleaning.cleanTables_merge s.tables tables).identified
  have henums := mergeEnums_nodup hs.enums enums
  simp only [addTables, Logged.value_bind, Logged.value_pure]
  refine .mk ?_ ?_
  · dsimp only
    exact htables
  · dsimp only
    exact henums

theorem cleanTables_placed (current : OrderedMap Table) (raw : OrderedMap Json) :
    Cleaning.CleanTables (Cleaning.placed current raw) := by
  intro key t ht
  rw [Cleaning.placed, OrderedMap.get?_map, Option.map_eq_some_iff] at ht
  obtain ⟨t, ht, rfl⟩ := ht
  exact (Cleaning.cleanTables_clean raw key t ht).keepLayout (current.get? key)

theorem replaceTables_tidy (hs : s.Tidy) (tables : OrderedMap Json)
    (enums : Option (OrderedMap Json)) : (s.replaceTables tables enums).value.1.Tidy := by
  have htables : (Cleaning.replace s.tables tables).value.tables.All fun t =>
      Identified t.columns := by
    rw [Cleaning.replace_tables]
    exact (cleanTables_placed s.tables tables).identified
  simp only [replaceTables, Logged.value_bind]
  cases enums with
  | none => exact ⟨htables, hs.enums⟩
  | some raw => exact ⟨htables, mergeEnums_nodup .empty raw⟩

/-! ### Enum types -/

/-- Columns that refer to an enum type follow it and stay apart. -/
theorem mapUsers_identified (hs : s.Tidy) {f : Column → Column} (hf : ∀ c, (f c).Alike c) :
    (s.mapUsers key f).All fun t => Identified t.columns := by
  refine hs.tables.map fun _ t ht => ht.map fun c => ?_
  split
  · exact hf c
  · exact ⟨rfl, rfl, rfl⟩

theorem createEnum_tidy (hs : s.Tidy) {name newKey : String} {values : List String}
    {schema : Option String} (h : s.createEnum name values schema = .ok (s', newKey)) : s'.Tidy := by
  obtain ⟨e, he, h⟩ := Action.bind_ok h
  dsimp only at h
  split at h
  · cases h
  cases h
  exact ⟨hs.tables, hs.enums.insert (Decode.enumOf_eq_ok_iff.1 (orInvalid_ok he)).2.nodup⟩

theorem updateEnum_tidy (hs : s.Tidy) {values : List String}
    (h : s.updateEnum key values = .ok s') : s'.Tidy := by
  obtain ⟨e, -, h⟩ := Action.bind_ok h
  obtain ⟨updated, hupdated, h⟩ := Action.bind_ok h
  cases h
  exact ⟨mapUsers_identified hs fun _ => ⟨rfl, rfl, rfl⟩,
    hs.enums.insert (Decode.enumOf_eq_ok_iff.1 (orInvalid_ok hupdated)).2.nodup⟩

theorem renameEnum_tidy (hs : s.Tidy) {name newKey : String}
    (h : s.renameEnum key name = .ok (s', newKey)) : s'.Tidy := by
  obtain ⟨e, he, h⟩ := Action.bind_ok h
  dsimp only at h
  split at h
  · cases h
  split at h
  · cases h
  cases h
  exact ⟨mapUsers_identified hs fun _ => ⟨rfl, rfl, rfl⟩,
    (hs.enums.erase key).insert (hs.enums key e (enumAt_ok he))⟩

theorem deleteEnum_tidy (hs : s.Tidy) (h : s.deleteEnum key = .ok s') : s'.Tidy := by
  obtain ⟨e, -, h⟩ := Action.bind_ok h
  cases h
  exact ⟨mapUsers_identified hs fun _ => ⟨rfl, rfl, rfl⟩, hs.enums.erase key⟩

end Schema

/-! ## Edits -/

namespace Edit

variable {s s' : Schema} {r : EditResult}

/-- The columns that an edit brings with it were validated. -/
def Validated : Edit → Prop
  | addTable _ _ columns _ => ∀ c ∈ columns, ∃ v, Decode.column v = .ok c
  | addColumn _ c => ∃ v, Decode.column v = .ok c
  | _ => True

/-- The columns of a new table have titles, no two of them the same as a name. -/
def Titled : Edit → Prop
  | addTable _ _ columns _ => (∀ c ∈ columns, Text.isBlankText c.title = false) ∧
      (columns.map fun c => Quote.fold c.title).Nodup
  | _ => True

theorem plain_ok {x : Except EditError Schema} (h : (plain x).result = .ok (s', r)) :
    x = .ok s' := by
  cases x with
  | error e => cases h
  | ok s => cases h; rfl

theorem keyed_ok {x : Except EditError (Schema × String)} (h : (keyed x).result = .ok (s', r)) :
    ∃ key, x = .ok (s', key) := by
  cases x with
  | error e => cases h
  | ok p => cases h; exact ⟨_, rfl⟩

/-- **One edit.** An edit that succeeds keeps a schema tidy, if the columns that it brings with it were
    validated and those of a new table are told apart. -/
theorem apply_tidy (hs : s.Tidy) {e : Edit} (hvalid : e.Validated) (htitled : e.Titled)
    (h : (e.apply s).result = .ok (s', r)) : s'.Tidy := by
  cases e with
  | addTable title schema columns position =>
    obtain ⟨key, h⟩ := keyed_ok h
    refine (Schema.addTable_tidy_iff hs h).2 ⟨htitled.1, htitled.2, fun c hc => ?_⟩
    obtain ⟨v, hv⟩ := hvalid c hc
    exact required_of_decode hv
  | renameTable key title =>
    obtain ⟨newKey, h⟩ := keyed_ok h
    exact Schema.renameTable_tidy hs h
  | deleteTable key => exact Schema.deleteTable_tidy hs (plain_ok h)
  | moveTable key x y => exact Schema.moveTable_tidy hs (plain_ok h)
  | moveTables places => exact Schema.moveTables_tidy hs (plain_ok h)
  | setColor key color => exact Schema.setColor_tidy hs (plain_ok h)
  | setComment key comment => exact Schema.setTableComment_tidy hs (plain_ok h)
  | addColumn key c =>
    obtain ⟨v, hv⟩ := hvalid
    exact Schema.addColumn_tidy hs (required_of_decode hv) (plain_ok h)
  | updateColumn key index updates => exact Schema.updateColumn_tidy hs (plain_ok h)
  | deleteColumn key index => exact Schema.deleteColumn_tidy hs (plain_ok h)
  | reorderColumns key source target => exact Schema.reorderColumns_tidy hs (plain_ok h)
  | addTables tables enums =>
    obtain rfl : (s.addTables tables enums).value.1 = s' := congrArg Prod.fst (Except.ok.inj h)
    exact Schema.addTables_tidy hs tables enums
  | replaceTables tables enums =>
    obtain rfl : (s.replaceTables tables enums).value.1 = s' := congrArg Prod.fst (Except.ok.inj h)
    exact Schema.replaceTables_tidy hs tables enums
  | clear =>
    cases h
    exact Schema.tidy_empty
  | createEnum name values schema =>
    obtain ⟨newKey, h⟩ := keyed_ok h
    exact Schema.createEnum_tidy hs h
  | updateEnum key values => exact Schema.updateEnum_tidy hs (plain_ok h)
  | renameEnum key name =>
    obtain ⟨newKey, h⟩ := keyed_ok h
    exact Schema.renameEnum_tidy hs h
  | deleteEnum key =>
    obtain ⟨edited, hedited, h⟩ := Action.result_bind_ok h
    cases h
    exact Schema.deleteEnum_tidy hs hedited

end Edit

/-! ## Sessions -/

theorem Schema.Tidy.numbered {a : Snapshot} (h : a.schema.Tidy) (serial : Nat) :
    (a.numbered serial).schema.Tidy :=
  ⟨h.tables.map fun _ _ ht => ht, h.enums⟩

namespace Session

variable {host : Host} {s s' : Session} {e : Edit} {r : EditResult}

/-- The live schema and those of all entries of the history are tidy. -/
structure Tidy (s : Session) : Prop where
  live : s.schema.Tidy
  entries : ∀ e ∈ s.history.entries, e.snapshot.schema.Tidy

theorem tidy_iff : s.Tidy ↔ s.Everywhere fun a => a.schema.Tidy :=
  ⟨fun h => ⟨h.live, h.entries⟩, fun h => ⟨h.live, h.entries⟩⟩

theorem keptByEdits_tidy : KeptByEdits (fun e => e.Validated ∧ e.Titled) Schema.Tidy where
  apply _ _ _ _ hs he h := Edit.apply_tidy hs he.1 he.2 h
  numbered _ serial ha := ha.numbered serial
  moveTables _ := ⟨trivial, trivial⟩
  addTables _ _ := ⟨trivial, trivial⟩
  replaceTables _ _ := ⟨trivial, trivial⟩

/-- **One operation.** Every operation keeps a session tidy, if what an edit brings with it is. -/
theorem after_tidy (hs : s.Tidy) (host : Host) {op : SessionOperation}
    (hop : ∀ e, op = .edit e → e.Validated ∧ e.Titled) : (s.after host op).Tidy :=
  tidy_iff.2 (keptByEdits_tidy.after (tidy_iff.1 hs) host hop)

theorem start_tidy {schema : Schema} {cardinalities : OrderedMap Cardinality}
    {visible collapsed : List String} {limit : Option Int} (hschema : schema.Tidy)
    (h : start host schema cardinalities visible collapsed limit = .ok s) : s.Tidy :=
  tidy_iff.2 (everywhere_start hschema (fun _ serial ha => ha.numbered serial) h)

/-- **Column identity.** In every state that a session reaches from the empty schema, whatever is
    done in between, the columns of every table have titles, no two of them the same as a name, and
    are required if they are keys, and the values of every enum type differ whatever their case:
    provided that the columns that edits bring with them were validated, and that those of new
    tables are told apart.  The schemas of all entries of the history are so too. -/
theorem runCalls_tidy {cardinalities : OrderedMap Cardinality} {visible collapsed : List String}
    {limit : Option Int} (hstart : start host {} cardinalities visible collapsed limit = .ok s)
    (calls : List (Host × SessionOperation))
    (hvalid : ∀ call ∈ calls, ∀ e, call.2 = .edit e → e.Validated)
    (htitled : ∀ call ∈ calls, ∀ e, call.2 = .edit e → e.Titled) : (s.runCalls calls).Tidy := by
  have hs : s.Tidy := start_tidy Schema.tidy_empty hstart
  clear hstart
  induction calls generalizing s with
  | nil => exact hs
  | cons call calls ih =>
    rw [List.forall_mem_cons] at hvalid htitled
    exact ih hvalid.2 htitled.2
      (after_tidy hs call.1 fun e he => ⟨hvalid.1 e he, htitled.1 e he⟩)

/-- A table is added, and an enum type that is taken back. -/
theorem runCalls_tidy_diary : start plainHost {} {} [] [] none = .ok blankSession ∧
    (∀ call ∈ diaryCalls, ∀ e, call.2 = .edit e → e.Validated) ∧
    (∀ call ∈ diaryCalls, ∀ e, call.2 = .edit e → e.Titled) ∧
    (blankSession.runCalls diaryCalls).Tidy := by
  have hcolumns : ∀ c ∈ diaryTable.columns, Decode.column c.toJson = .ok c := by decide
  have hedits (call : Host × SessionOperation) (hcall : call ∈ diaryCalls) (e : Edit)
      (he : call.2 = .edit e) : e.Validated ∧ e.Titled := by
    simp only [diaryCalls, moodCalls, List.mem_cons, List.not_mem_nil, or_false] at hcall
    rcases hcall with rfl | rfl | rfl
    · cases he
      exact ⟨fun c hc => ⟨_, hcolumns c hc⟩, by decide, by decide +kernel⟩
    · cases he
      exact ⟨trivial, trivial⟩
    · cases he
  have hvalid := fun call hcall e he => (hedits call hcall e he).1
  have htitled := fun call hcall e he => (hedits call hcall e he).2
  exact ⟨start_blank, hvalid, htitled, runCalls_tidy start_blank diaryCalls hvalid htitled⟩

/-- A table with two columns whose titles are the same as names. -/
def repeatedTable : Table where
  title := "t"
  columns := [{ title := "a" }, { title := "A" }]
  position := some {}

/-- The table is added. -/
def repeatedCalls : List (Host × SessionOperation) :=
  [(plainHost, .edit (.addTable "t" none repeatedTable.columns none))]

/-- Both columns are valid, and adding the table succeeds. -/
theorem not_tidy_repeated : start plainHost {} {} [] [] none = .ok blankSession ∧
    (∀ call ∈ repeatedCalls, ∀ e, call.2 = .edit e → e.Validated) ∧
    (blankSession.runCalls repeatedCalls).schema.tables.get? "t" = some repeatedTable ∧
    ¬(blankSession.runCalls repeatedCalls).schema.Tidy := by
  have hcolumns : ∀ c ∈ repeatedTable.columns, Decode.column c.toJson = .ok c := by decide
  have htable : (blankSession.runCalls repeatedCalls).schema.tables.get? "t" =
      some repeatedTable := by rfl
  refine ⟨start_blank, ?_, htable, fun h => ?_⟩
  · rw [repeatedCalls, List.forall_mem_singleton]
    rintro _ ⟨⟩
    exact fun c hc => ⟨_, hcolumns c hc⟩
  · exact absurd (h.tables "t" repeatedTable htable).distinct (by decide +kernel)

end Session

end Schemata
