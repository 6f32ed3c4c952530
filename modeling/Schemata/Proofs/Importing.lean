/-
  What is there when a document is imported.

  * `Edit.Yields` says once where a table of an edited schema can come from, and `yields_of_apply` that
    there is no other way;
  * `Standing`: a table is as cleaning leaves it but for the number and the titles of its columns; edits
    keep tables so (`standing_apply`), and so do all operations of a session (`runCalls_standing`);
  * `Cleaning.Leaves`: what cleaning leaves of a table that stands;
  * `importDocument_keeps`: an import keeps a table that it does not define just if it has columns that
    are told apart.  Nothing checks this when a column is deleted or a table is added, and
    `importDocument_drops` shows what follows.
-/
import Schemata.Proofs.ColumnIdentity
import Schemata.Proofs.Inspecting

namespace Schemata

open Log

/-! ## Where tables come from -/

theorem Schema.tables_addTables (s : Schema) (tables enums : OrderedMap Json) :
    (s.addTables tables enums).value.1.tables = (Cleaning.merge s.tables tables).value.tables := by
  rw [addTables, Logged.value_bind, Logged.value_bind, Logged.value_pure]

theorem Schema.tables_replaceTables (s : Schema) (tables : OrderedMap Json)
    (enums : Option (OrderedMap Json)) :
    (s.replaceTables tables enums).value.1.tables = Cleaning.placed s.tables tables := by
  rw [← Cleaning.replace_tables, replaceTables, Logged.value_bind]
  cases enums <;> rfl

namespace Edit

/-- A column of a table after an edit: it was there, was brought along or decoded, or follows an enum
    type. -/
inductive ColumnFrom (e : Edit) (old : List Column) (c : Column) : Prop
  | kept : c ∈ old → ColumnFrom e old c
  | given {key : String} : e = .addColumn key c → ColumnFrom e old c
  | decoded {v : Json} : Decode.column v = .ok c → ColumnFrom e old c
  | follows {d : Column} {name : Option String} {values : Option (List String)} {format : String} :
      d ∈ old → name = d.enumName ∨ name.bind nonBlank = name →
      c = { d with enumName := name, enumValues := values, format } → ColumnFrom e old c

/-- A table under a key after an edit of a schema: it was cleaned, or it is new or has a new title, or
    the one under the key was changed. -/
inductive Yields (e : Edit) (s : Schema) (key : String) (t : Table) : Prop
  | cleaned : Cleaning.CleanTable key t → Yields e s key t
  | added {title : String} {schema : Option String} {columns : List Column}
      {position : Option Position} : e = .addTable title schema columns position →
      Text.isBlankText title = false → key = Name.key schema title → t.title = title →
      t.columns = (if columns.isEmpty then [Schema.keyColumn] else columns) → Yields e s key t
  | renamed {old : String} {u : Table} : s.tables.get? old = some u →
      Text.isBlankText t.title = false → key = Name.key t.schema t.title → t.columns = u.columns →
      Yields e s key t
  | changed {u : Table} : s.tables.get? key = some u → t.title = u.title →
      (∀ c ∈ t.columns, e.ColumnFrom u.columns c) → Yields e s key t

variable {e : Edit} {s s' : Schema} {key : String} {t : Table}

theorem Yields.same (h : s.tables.get? key = some t) : e.Yields s key t :=
  .changed h rfl fun _ => .kept

/-- A change of one table yields what it makes of that table. -/
theorem yields_changeTable {target : String} {f : Table → Except EditError Table}
    (h : s.changeTable target f = .ok s')
    (hf : ∀ t t', f t = .ok t' → t'.title = t.title ∧ ∀ c ∈ t'.columns, e.ColumnFrom t.columns c)
    (ht : s'.tables.get? key = some t) : e.Yields s key t := by
  obtain ⟨u, hu, h⟩ := Action.bind_ok h
  obtain ⟨u', hu', h⟩ := Action.bind_ok h
  cases h
  rw [OrderedMap.get?_insert] at ht
  split at ht
  · next hkey =>
    cases ht
    obtain ⟨htitle, hcolumns⟩ := hf u t hu'
    exact .changed (hkey ▸ Schema.tableAt_ok hu) htitle hcolumns
  · exact .same ht

/-- Tables that are moved keep their titles and columns, by induction on the places. -/
theorem exists_of_moveTables {places : OrderedMap (Json × Json)} (h : s.moveTables places = .ok s')
    (ht : s'.tables.get? key = some t) :
    ∃ u, s.tables.get? key = some u ∧ t.title = u.title ∧ t.columns = u.columns := by
  unfold Schema.moveTables at h
  generalize places.entries = places at h
  induction places generalizing s with
  | nil =>
    cases h
    exact ⟨t, ht, rfl, rfl⟩
  | cons place places ih =>
    rw [List.foldlM_cons] at h
    obtain ⟨moved, hmoved, h⟩ := Action.bind_ok h
    obtain ⟨u, hu, htitle, hcolumns⟩ := ih h
    obtain ⟨v, hv, hmoved⟩ := Action.bind_ok hmoved
    obtain ⟨v', hv', hmoved⟩ := Action.bind_ok hmoved
    cases hmoved
    obtain ⟨p, -, hv'⟩ := Action.bind_ok hv'
    cases hv'
    rw [OrderedMap.get?_insert] at hu
    split at hu
    · next hkey =>
      cases hu
      exact ⟨v, hkey ▸ Schema.tableAt_ok hv, htitle, hcolumns⟩
    · exact ⟨u, hu, htitle, hcolumns⟩

/-- Columns that follow an enum type. -/
theorem yields_mapUsers {enumKey : String} {f : Column → Column}
    (hf : ∀ c, ∃ name values format, (name = c.enumName ∨ name.bind nonBlank = name) ∧
      f c = { c with enumName := name, enumValues := values, format })
    (ht : (s.mapUsers enumKey f).get? key = some t) : e.Yields s key t := by
  rw [Schema.mapUsers, OrderedMap.get?_map, Option.map_eq_some_iff] at ht
  obtain ⟨u, hu, rfl⟩ := ht
  refine .changed hu rfl fun c hc => ?_
  obtain ⟨d, hd, rfl⟩ := List.mem_map.1 hc
  split
  · obtain ⟨name, values, format, hname, heq⟩ := hf d
    exact .follows hd hname heq
  · exact .kept hd

theorem yields_addTable {title newKey : String} {schema : Option String} {columns : List Column}
    {position : Option Position} (h : s.addTable title schema columns position = .ok (s', newKey))
    (ht : s'.tables.get? key = some t) : (addTable title schema columns position).Yields s key t := by
  unfold Schema.addTable at h
  split at h
  · cases h
  next hblank =>
  by_cases hexists : s.tables.contains (Name.key schema title) = true
  · rw [if_pos hexists] at h
    cases h
  rw [if_neg hexists] at h
  cases h
  rw [OrderedMap.get?_insert] at ht
  split at ht
  · next hkey =>
    cases ht
    exact .added rfl (by simpa using hblank) hkey.symm rfl rfl
  · exact .same ht

theorem yields_renameTable {old title newKey : String}
    (h : s.renameTable old title = .ok (s', newKey)) (ht : s'.tables.get? key = some t) :
    e.Yields s key t := by
  obtain ⟨u, hu, h⟩ := Action.bind_ok h
  dsimp only at h
  split at h
  · cases h
  next hblank =>
  split at h
  · cases h
  cases h
  rw [OrderedMap.get?_insert] at ht
  split at ht
  · next hkey =>
    cases ht
    exact .renamed (Schema.tableAt_ok hu) (by simpa using hblank) hkey.symm rfl
  · rw [OrderedMap.get?_erase] at ht
    split at ht
    · cases ht
    · exact .same ht

/-- A new name of an enum type is not blank, nor is what the columns that follow it have. -/
theorem yields_renameEnum {enumKey name newKey : String}
    (h : s.renameEnum enumKey name = .ok (s', newKey)) (ht : s'.tables.get? key = some t) :
    e.Yields s key t := by
  obtain ⟨d, -, h⟩ := Action.bind_ok h
  dsimp only at h
  split at h
  · cases h
  next hblank =>
  split at h
  · cases h
  cases h
  have hkey : Text.isBlankText (Name.key d.schema name) = false :=
    isBlankText_key (by simpa using hblank) d.schema
  have hname : (some (Name.key d.schema name)).bind nonBlank = some (Name.key d.schema name) := by
    rw [Option.bind_some, nonBlank, hkey]
    rfl
  exact yields_mapUsers (fun c => ⟨_, c.enumValues, c.format, .inr hname, rfl⟩) ht

/-- **Where tables come from.** Every table of an edited schema was cleaned, or is new or has a new
    title, or is the one that was there with columns of these kinds. -/
theorem yields_of_apply {r : EditResult} (h : (e.apply s).result = .ok (s', r))
    (ht : s'.tables.get? key = some t) : e.Yields s key t := by
  have hold : ∀ t t' : Table, t'.title = t.title → t'.columns.Sublist t.columns →
      t'.title = t.title ∧ ∀ c ∈ t'.columns, e.ColumnFrom t.columns c :=
    fun _ _ htitle hcolumns => ⟨htitle, fun _ hc => .kept (hcolumns.subset hc)⟩
  cases e with
  | addTable title schema columns position =>
    obtain ⟨newKey, h⟩ := keyed_ok h
    exact yields_addTable h ht
  | renameTable old title =>
    obtain ⟨newKey, h⟩ := keyed_ok h
    exact yields_renameTable h ht
  | deleteTable old =>
    obtain ⟨_, -, h⟩ := Action.bind_ok (plain_ok h)
    cases h
    rw [OrderedMap.get?_erase] at ht
    split at ht
    · cases ht
    · exact .same ht
  | moveTable target x y =>
    refine yields_changeTable (plain_ok h) (fun u u' hu => ?_) ht
    obtain ⟨p, -, hu⟩ := Action.bind_ok hu
    cases hu
    exact hold u _ rfl (List.Sublist.refl _)
  | moveTables places =>
    obtain ⟨u, hu, htitle, hcolumns⟩ := exists_of_moveTables (plain_ok h) ht
    exact .changed hu htitle fun c hc => .kept (hcolumns ▸ hc)
  | setColor target color =>
    refine yields_changeTable (plain_ok h) (fun u u' hu => ?_) ht
    cases hu
    exact hold u _ rfl (List.Sublist.refl _)
  | setComment target comment =>
    refine yields_changeTable (plain_ok h) (fun u u' hu => ?_) ht
    cases hu
    exact hold u _ rfl (List.Sublist.refl _)
  | addColumn target column =>
    refine yields_changeTable (plain_ok h) (fun u u' hu => ?_) ht
    obtain ⟨_, -, hu⟩ := Action.bind_ok hu
    cases hu
    refine ⟨rfl, fun c hc => ?_⟩
    rcases List.mem_append.1 hc with hc | hc
    · exact .kept hc
    · rw [List.mem_singleton.1 hc]
      exact .given rfl
  | updateColumn target index updates =>
    refine yields_changeTable (plain_ok h) (fun u u' hu => ?_) ht
    obtain ⟨c, -, hu⟩ := Action.bind_ok hu
    obtain ⟨updated, hupdated, hu⟩ := Action.bind_ok hu
    obtain ⟨_, -, hu⟩ := Action.bind_ok hu
    cases hu
    refine ⟨rfl, fun d hd => ?_⟩
    rcases List.mem_or_eq_of_mem_set hd with hd | rfl
    · exact .kept hd
    · exact .decoded (Schema.orInvalid_ok hupdated)
  | deleteColumn target index =>
    refine yields_changeTable (plain_ok h) (fun u u' hu => ?_) ht
    obtain ⟨_, -, hu⟩ := Action.bind_ok hu
    cases hu
    exact hold u _ rfl (List.eraseIdx_sublist _ _)
  | reorderColumns target source place =>
    refine yields_changeTable (plain_ok h) (fun u u' hu => ?_) ht
    obtain ⟨c, hc, hu⟩ := Action.bind_ok hu
    obtain ⟨_, -, hu⟩ := Action.bind_ok hu
    cases hu
    refine ⟨rfl, fun d hd => .kept ?_⟩
    rcases List.eq_or_mem_of_mem_insertIdx hd with rfl | hd
    · exact List.mem_of_getElem? (columnAt_ok hc)
    · exact List.mem_of_mem_eraseIdx hd
  | addTables tables enums =>
    obtain rfl : (s.addTables tables enums).value.1 = s' := congrArg Prod.fst (Except.ok.inj h)
    rw [Schema.tables_addTables] at ht
    exact .cleaned (Cleaning.cleanTables_merge s.tables tables key t ht)
  | replaceTables tables enums =>
    obtain rfl : (s.replaceTables tables enums).value.1 = s' := congrArg Prod.fst (Except.ok.inj h)
    rw [Schema.tables_replaceTables] at ht
    exact .cleaned (Schema.cleanTables_placed s.tables tables key t ht)
  | clear =>
    cases h
    cases ht
  | createEnum name values schema =>
    obtain ⟨newKey, h⟩ := keyed_ok h
    obtain ⟨_, -, h⟩ := Action.bind_ok h
    dsimp only at h
    split at h
    · cases h
    cases h
    exact .same ht
  | updateEnum enumKey values =>
    obtain ⟨_, -, h⟩ := Action.bind_ok (plain_ok h)
    obtain ⟨_, -, h⟩ := Action.bind_ok h
    cases h
    exact yields_mapUsers (fun c => ⟨c.enumName, _, c.format, .inl rfl, rfl⟩) ht
  | renameEnum enumKey name =>
    obtain ⟨newKey, h⟩ := keyed_ok h
    exact yields_renameEnum h ht
  | deleteEnum enumKey =>
    obtain ⟨edited, hedited, h⟩ := Action.result_bind_ok h
    cases h
    obtain ⟨d, -, hedited⟩ := Action.bind_ok hedited
    cases hedited
    exact yields_mapUsers (fun c => ⟨none, some d.values, "enum", .inr rfl, rfl⟩) ht

end Edit

/-! ## Tables that stand -/

/-- The table is as cleaning leaves it under the key, but perhaps for the number and the titles of its
    columns. -/
structure Standing (key : String) (t : Table) : Prop where
  title : Text.isBlankText t.title = true → t.title = Name.bare key
  key : Text.isBlankText key = false
  columns : ∀ c ∈ t.columns, Cleaning.NormalColumn c

/-- All tables of the schema stand under their keys. -/
def Schema.Standing (s : Schema) : Prop :=
  ∀ key t, s.tables.get? key = some t → Schemata.Standing key t

theorem Cleaning.CleanTable.standing {key : String} {t : Table} (h : Cleaning.CleanTable key t) :
    Standing key t :=
  ⟨h.title, h.key, fun _ hc => (h.columns.of_mem hc).normal⟩

section
variable {e : Edit} {s s' : Schema} {key : String} {t : Table} {c : Column}

/-- What is decoded has no blank texts. -/
theorem normalColumn_of_decode {v : Json} (h : Decode.column v = .ok c) : Cleaning.NormalColumn c := by
  cases v with
  | obj m => exact (Cleaning.normalColumn_of_columnFields h).1
  | _ => cases h

theorem normalColumn_of_columnFrom {old : List Column} (hvalid : e.Validated)
    (hold : ∀ d ∈ old, Cleaning.NormalColumn d) (h : e.ColumnFrom old c) :
    Cleaning.NormalColumn c := by
  cases h with
  | kept hc => exact hold c hc
  | given he =>
    subst he
    obtain ⟨v, hv⟩ := hvalid
    exact normalColumn_of_decode hv
  | decoded hv => exact normalColumn_of_decode hv
  | @follows d name values format hd hname heq =>
    have hnormal := hold d hd
    have hbind : name.bind nonBlank = name := by
      rcases hname with rfl | hname
      · exact hnormal.enumName
      · exact hname
    rw [heq]
    refine ⟨?_, hnormal.defaultText, hnormal.foreignKey, hbind, hnormal.comment⟩
    have hrequired := congrArg Column.required hnormal.required
    rw [Cleaning.coherent_eq] at hrequired ⊢
    dsimp only at hrequired ⊢
    rw [hrequired]

theorem normalColumn_keyColumn : Cleaning.NormalColumn Schema.keyColumn :=
  ⟨rfl, rfl, rfl, rfl, rfl⟩

/-- Wherever a table comes from, it stands. -/
theorem standing_of_yields (hs : s.Standing) (hvalid : e.Validated) (h : e.Yields s key t) :
    Standing key t := by
  cases h with
  | cleaned hclean => exact hclean.standing
  | @added title schema columns position he hblank hkey htitle hcolumns =>
    subst he
    refine ⟨fun hb => ?_, hkey ▸ isBlankText_key hblank schema, fun c hc => ?_⟩
    · rw [htitle, hblank] at hb
      cases hb
    · rw [hcolumns] at hc
      split at hc
      · rw [List.mem_singleton.1 hc]
        exact normalColumn_keyColumn
      · obtain ⟨v, hv⟩ := hvalid c hc
        exact normalColumn_of_decode hv
  | @renamed old u hu hblank hkey hcolumns =>
    refine ⟨fun hb => ?_, hkey ▸ isBlankText_key hblank t.schema, fun c hc => ?_⟩
    · rw [hblank] at hb
      cases hb
    · exact (hs old u hu).columns c (hcolumns ▸ hc)
  | @changed u hu htitle hcolumns =>
    have hstands := hs key u hu
    exact ⟨htitle ▸ hstands.title, hstands.key, fun c hc =>
      normalColumn_of_columnFrom hvalid hstands.columns (hcolumns c hc)⟩

/-- **One edit.** -/
theorem standing_apply {r : EditResult} (hs : s.Standing) (hvalid : e.Validated)
    (h : (e.apply s).result = .ok (s', r)) : s'.Standing :=
  fun _ _ ht => standing_of_yields hs hvalid (Edit.yields_of_apply h ht)

theorem Schema.standing_empty : Schema.Standing {} := by
  intro key t ht
  cases ht

theorem Schema.Standing.numbered {a : Snapshot} (h : a.schema.Standing) (serial : Nat) :
    (a.numbered serial).schema.Standing := by
  intro key _ ht
  rw [Snapshot.numbered, OrderedMap.get?_map, Option.map_eq_some_iff] at ht
  obtain ⟨t, ht, rfl⟩ := ht
  exact ⟨(h key t ht).title, (h key t ht).key, (h key t ht).columns⟩

end

namespace Session

theorem keptByEdits_standing : KeptByEdits Edit.Validated Schema.Standing where
  apply _ _ _ _ hs hvalid h := standing_apply hs hvalid h
  numbered _ serial ha := ha.numbered serial
  moveTables _ := trivial
  addTables _ _ := trivial
  replaceTables _ _ := trivial

/-- **A run.** Whatever is done to a session that starts from the empty schema, all tables stand. -/
theorem runCalls_standing {host : Host} {s : Session} {cardinalities : OrderedMap Cardinality}
    {visible collapsed : List String} {limit : Option Int}
    (hstart : start host {} cardinalities visible collapsed limit = .ok s)
    (calls : List (Host × SessionOperation))
    (hvalid : ∀ call ∈ calls, ∀ e, call.2 = .edit e → e.Validated) :
    (s.runCalls calls).schema.Standing :=
  (keptByEdits_standing.runCalls
    (everywhere_start Schema.standing_empty (fun _ serial ha => ha.numbered serial) hstart) calls hvalid).live

end Session

/-! ## What cleaning leaves of a table -/

namespace Cleaning

variable {columns : List Column} {seen : List String} {key : String} {t : Table}

/-- What cleaning leaves of some columns. -/
def left (seen : List String) (columns : List Column) : List Column :=
  (cleanColumns seen (columns.map Column.toJson)).value.1

theorem left_cons {c : Column} (hc : NormalColumn c) :
    left seen (c :: columns) =
      if Text.isBlankText c.title = true ∨ Quote.fold c.title ∈ seen then left seen columns
      else c :: left (Quote.fold c.title :: seen) columns := by
  have htitle : c.toJson.members?.bind title? = (some c.title).filter (! Text.isBlankText ·) := rfl
  have hcolumn : (cleanColumn seen c.toJson).value =
      if Text.isBlankText c.title = true ∨ Quote.fold c.title ∈ seen then none else some c := by
    rw [cleanColumn, htitle, Option.filter_some]
    cases hblank : Text.isBlankText c.title with
    | true => simp
    | false =>
      by_cases hseen : Quote.fold c.title ∈ seen
      · simp [hseen]
      · simp [hseen, hc.decode]
  rw [left, List.map_cons, cleanColumns, Logged.value_bind, hcolumn]
  by_cases hskip : Text.isBlankText c.title = true ∨ Quote.fold c.title ∈ seen
  · rw [if_pos hskip, if_pos hskip]
    rfl
  · rw [if_neg hskip, if_neg hskip]
    rfl

/-- What is left are columns of the table, in their order. -/
theorem left_sublist (h : ∀ c ∈ columns, NormalColumn c) : (left seen columns).Sublist columns := by
  induction columns generalizing seen with
  | nil => exact List.Sublist.refl _
  | cons c columns ih =>
    rw [List.forall_mem_cons] at h
    rw [left_cons h.1]
    split
    · exact (ih h.2).cons c
    · exact (ih h.2).cons_cons c

/-- Nothing is left just of columns without titles, or with titles seen before. -/
theorem left_eq_nil_iff (h : ∀ c ∈ columns, NormalColumn c) : left seen columns = [] ↔
    ∀ c ∈ columns, Text.isBlankText c.title = true ∨ Quote.fold c.title ∈ seen := by
  induction columns with
  | nil => exact iff_of_true rfl (List.forall_mem_nil _)
  | cons c columns ih =>
    rw [List.forall_mem_cons] at h
    rw [left_cons h.1, List.forall_mem_cons]
    split
    · next hc => rw [ih h.2, and_iff_right hc]
    · next hc => exact iff_of_false (List.cons_ne_nil _ _) fun hall => hc hall.1

/-- A table that stands is left with its columns, if any of them are left. -/
theorem table_cleanTable (h : Standing key t) : (cleanTable key t.toJson).value.table =
    if left [] t.columns = [] then none else some { t with columns := left [] t.columns } := by
  obtain ⟨title, htitled, htitle⟩ := titled_tableMembers key t
  obtain rfl : title = t.title := by
    obtain htitle | ⟨hblank, htitle⟩ := htitle
    · exact htitle
    · rw [htitle, h.title hblank]
  rw [Decode.toJson_eq_tableMembers, cleanTable, if_neg (by simp [h.key])]
  simp only [cleanMembers, Logged.value_bind, rawColumns_tableMembers, htitled,
    Decode.tableWith_tableMembers, List.isEmpty_iff]
  rw [← left]
  split <;> rfl

theorem cleanTable_iff (h : Standing key t) :
    CleanTable key t ↔ t.columns ≠ [] ∧ Identified t.columns := by
  refine ⟨fun hclean => ⟨hclean.nonempty, hclean.columns.identified⟩, fun ⟨hne, hid⟩ =>
    ⟨h.title, h.key, hne, ?_⟩⟩
  refine Written.cleanColumns_of_nodup (fun c hc => ?_) hid.distinct fun _ _ => List.not_mem_nil
  have hnormal := h.columns c hc
  exact ⟨hid.titled c hc, hnormal.required, hnormal.defaultText, hnormal.foreignKey,
    hnormal.enumName, hnormal.comment⟩

/-- What cleaning leaves of a table that stands: all of it, if there are columns that are told apart;
    nothing, if no column has a title; else the table with some of its columns. -/
structure Leaves (t : Table) (rest : Option Table) : Prop where
  all : rest = some t ↔ t.columns ≠ [] ∧ Identified t.columns
  nothing : rest = none ↔ ∀ c ∈ t.columns, Text.isBlankText c.title = true
  part : ∀ u, rest = some u → u.columns.Sublist t.columns ∧ { u with columns := t.columns } = t

theorem leaves_cleanTable (h : Standing key t) : Leaves t (cleanTable key t.toJson).value.table := by
  constructor
  case all =>
    rw [← cleanTable_iff h]
    exact ⟨cleanTable_some, fun hclean => congrArg Outcome.table (cleanTable_toJson hclean)⟩
  case nothing =>
    have hnil : left [] t.columns = [] ↔ ∀ c ∈ t.columns, Text.isBlankText c.title = true := by
      simp only [left_eq_nil_iff h.columns, List.not_mem_nil, or_false]
    rw [table_cleanTable h, ← hnil]
    split
    · next hnone => exact iff_of_true rfl hnone
    · next hsome => exact iff_of_false nofun hsome
  case part =>
    intro u hu
    rw [table_cleanTable h] at hu
    split at hu
    · cases hu
    · cases hu
      exact ⟨left_sublist h.columns, rfl⟩

/-- A table that is not among those laid over others is cleaned like these. -/
theorem get?_merge_of_not_mem {current : OrderedMap Table} {raw : OrderedMap Json}
    (ht : current.get? key = some t) (hraw : raw.get? key = none) :
    (merge current raw).value.tables.get? key = (cleanTable key t.toJson).value.table := by
  have hplaced : key ∉ (placed current raw).entries.map Prod.fst := by
    rw [OrderedMap.mem_keys_iff]
    rintro ⟨u, hu⟩
    rw [placed, OrderedMap.get?_map, get?_clean, hraw] at hu
    cases hu
  have hkept : (current.overlay (placed current raw)).get? key = some t :=
    (OrderedMap.get?_insertAll_of_not_mem current hplaced).trans ht
  rw [merge_tables, get?_clean, OrderedMap.get?_map, hkept, Option.map_some, Option.bind_some]

end Cleaning

/-! ## Importing -/

/-- A place that is the same as itself needs no number. -/
theorem Position.map_numbered_of_same {p : Option Position} (serial : Nat)
    (h : sameOption p p = true) : p.map (numbered serial) = p := by
  have hnumbered : ∀ x : Number.Binary64, x.same x = true → x.numbered serial = x := by
    intro x hx
    have hnan := (Number.Binary64.same_iff.1 hx).1
    rcases x with _ | _ | _ | _ | _ <;> first | rfl | exact absurd rfl hnan
  cases p with
  | none => rfl
  | some p =>
    simp only [sameOption, same, Bool.and_eq_true] at h
    rw [Option.map_some, numbered, hnumbered _ h.1, hnumbered _ h.2]

namespace Session

variable {host : Host} {s : Session} {key : String}

/-- A commit leaves a table as it is whose place is the same as itself. -/
theorem get?_commit (hl : 1 ≤ s.history.maxEntries) {schema : Schema} {stamp : Stamp} {label : Label}
    (hplace : ∀ t, schema.tables.get? key = some t →
      Position.sameOption t.position t.position = true) :
    (s.commit stamp schema label).value.schema.tables.get? key = schema.tables.get? key := by
  rw [value_commit]
  split
  · rfl
  · simp only [moveTo, History.current?_record hl]
    have hnumbered : (((s.install schema).entry stamp label).numbered
        s.history.nextSerial).snapshot.schema.tables.get? key = (schema.tables.get? key).map fun t =>
          { t with position := t.position.map (Position.numbered s.history.nextSerial) } :=
      OrderedMap.get?_map ..
    rw [hnumbered]
    cases ht : schema.tables.get? key with
    | none => rfl
    | some t => rw [Option.map_some, Position.map_numbered_of_same _ (hplace t ht)]

theorem Settled.same_position (hs : s.Settled) {t : Table} (ht : s.schema.tables.get? key = some t) :
    Position.sameOption t.position t.position = true := by
  have hagree := hs.agrees_self.tables key
  have ht' : s.snapshot.schema.tables.get? key = some t := ht
  rw [ht'] at hagree
  cases hagree with
  | some hsame => exact (Table.same_iff.1 hsame).1

/-- **Imports keep what is there.** A document that can be read is imported without an error into any
    session that comes of the empty schema, provided that the columns that edits brought with them
    were validated.  A table that the document does not define is then there as it was just if it has
    columns that are told apart.  Otherwise it loses those without a title or with that of an earlier
    one, and it is gone if no column is left. -/
theorem importDocument_keeps {cardinalities : OrderedMap Cardinality}
    {visible collapsed : List String} {limit : Option Int}
    (hstart : start host {} cardinalities visible collapsed limit = .ok s)
    (calls : List (Host × SessionOperation))
    (hvalid : ∀ call ∈ calls, ∀ e, call.2 = .edit e → e.Validated) {text : String} {read : Schema}
    (hread : (Schema.ofDocument text).result = .ok read) (host' : Host) :
    ∃ s' answer, ((s.runCalls calls).run host' (.importDocument text)).result = .ok (s', answer) ∧
      ∀ key t, (s.runCalls calls).schema.tables.get? key = some t → read.tables.get? key = none →
        Cleaning.Leaves t (s'.schema.tables.get? key) := by
  have hsettled := runCalls_settled (start_settled hstart) calls
  have hstands := runCalls_standing hstart calls hvalid
  generalize s.runCalls calls = s at hsettled hstands ⊢
  have hperform : (s.perform host' (.addTables (rawTables read) (rawEnums read))
      (some .importDocument)).result =
        .ok ((s.commit host'.stamp (s.schema.addTables (rawTables read) (rawEnums read)).value.1
          .importDocument).value, (s.schema.addTables (rawTables read) (rawEnums read)).value.2) :=
    result_perform rfl
  rw [← result_importDocument hread] at hperform
  refine ⟨_, _, asEdited_ok hperform, fun key t ht hnew => ?_⟩
  have hraw : (rawTables read).get? key = none := by
    rw [rawTables, OrderedMap.get?_map, hnew, Option.map_none]
  have hmerge : (s.schema.addTables (rawTables read) (rawEnums read)).value.1.tables.get? key =
      (Cleaning.cleanTable key t.toJson).value.table := by
    rw [Schema.tables_addTables, Cleaning.get?_merge_of_not_mem ht hraw]
  have hleaves := Cleaning.leaves_cleanTable (hstands key t ht)
  rw [get?_commit hsettled.limit, hmerge]
  · exact hleaves
  · intro u hu
    rw [hmerge] at hu
    have hposition := congrArg Table.position (hleaves.part u hu).2
    dsimp only at hposition
    rw [hposition]
    exact hsettled.same_position ht

/-- A document with one table. -/
def noteDocument : String := "CREATE TABLE note (a int);"

/-- The schema that it describes. -/
def noteSchema : Schema where
  tables := .ofList [("note",
    { title := "note", columns := [{ title := "a", format := "int4", category := "number" }] })]

/-- A table is added, and then its only column is deleted. -/
def bareCalls : List (Host × SessionOperation) :=
  [(plainHost, .edit (.addTable "t" none [] none)), (plainHost, .edit (.deleteColumn "t" 0))]

/-- The table with these columns. -/
def bareTable (columns : List Column) : Table where
  title := "t"
  columns := columns
  position := some {}

theorem ofDocument_note : (Schema.ofDocument noteDocument).result = .ok noteSchema :=
  toOption_eq_some.1 (by decide +kernel)

theorem validated_bare : ∀ call ∈ bareCalls, ∀ e, call.2 = .edit e → e.Validated := by
  rw [bareCalls, List.forall_mem_cons, List.forall_mem_singleton]
  constructor
  · rintro _ ⟨⟩
    exact List.forall_mem_nil _
  · rintro _ ⟨⟩
    exact trivial

/-- With its column, the table is kept when another one is imported. -/
theorem importDocument_keeps_bare : start plainHost {} {} [] [] none = .ok blankSession ∧
    (∀ call ∈ bareCalls.take 1, ∀ e, call.2 = .edit e → e.Validated) ∧
    (Schema.ofDocument noteDocument).result = .ok noteSchema ∧
    (blankSession.runCalls (bareCalls.take 1)).schema.tables.get? "t" =
      some (bareTable [Schema.keyColumn]) ∧
    noteSchema.tables.get? "t" = none ∧
    ∃ s' answer, ((blankSession.runCalls (bareCalls.take 1)).run plainHost
        (.importDocument noteDocument)).result = .ok (s', answer) ∧
      s'.schema.tables.get? "t" = some (bareTable [Schema.keyColumn]) := by
  have hvalid : ∀ call ∈ bareCalls.take 1, ∀ e, call.2 = .edit e → e.Validated :=
    fun call hcall => validated_bare call (List.mem_of_mem_take hcall)
  have hthere : (blankSession.runCalls (bareCalls.take 1)).schema.tables.get? "t" =
      some (bareTable [Schema.keyColumn]) := by rfl
  have hnew : noteSchema.tables.get? "t" = none := by rfl
  obtain ⟨s', answer, hrun, hleaves⟩ :=
    importDocument_keeps start_blank (bareCalls.take 1) hvalid ofDocument_note plainHost
  exact ⟨start_blank, hvalid, ofDocument_note, hthere, hnew, s', answer, hrun,
    (hleaves "t" _ hthere hnew).all.2 ⟨List.cons_ne_nil _ _, Schema.identified_keyColumn⟩⟩

/-- Without it, the table is gone. -/
theorem importDocument_drops : start plainHost {} {} [] [] none = .ok blankSession ∧
    (∀ call ∈ bareCalls, ∀ e, call.2 = .edit e → e.Validated) ∧
    (Schema.ofDocument noteDocument).result = .ok noteSchema ∧
    (blankSession.runCalls bareCalls).schema.tables.get? "t" = some (bareTable []) ∧
    noteSchema.tables.get? "t" = none ∧
    ((blankSession.runCalls bareCalls).run plainHost
      (.importDocument noteDocument)).result.toOption.map (fun r => r.1.schema) =
        some noteSchema :=
  ⟨start_blank, validated_bare, ofDocument_note, by rfl, by rfl, by decide +kernel⟩

end Session

end Schemata
