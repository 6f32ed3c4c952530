/-
  What edits of enum types leave as it was.  The values that a column accepts are kept in two places,
  with the enum type that it names and with the column itself, and an edit of an enum type rewrites
  both.

  * `Schema.Named`: nothing goes by the empty name, as it is with all that is decoded (`named_of_decode`);
  * `EnumEdited`: a schema after an edit of one enum type, which says how each column corresponds to the
    one before; all else is the same, in the same order;
  * `deleteEnum_edited`, `renameEnum_edited` and `updateEnum_edited` are the three edits, and
    `enumEdits_values` says what columns accept after them.
-/
import Schemata.Proofs.Importing

namespace Schemata

open Log

/-! ## Names -/

namespace Schema

/-- The columns of all tables, in order. -/
def allColumns (s : Schema) : List Column := s.tables.values.flatMap (·.columns)

/-- No column names an enum type by the empty text, and no enum type has it as its name. -/
structure Named (s : Schema) : Prop where
  columns : ∀ c ∈ s.allColumns, c.enumName ≠ some ""
  enums : s.enums.All fun e => e.name ≠ ""

end Schema

namespace Decode

variable {α : Type} {f : Json → Checked α}

/-- Every item of a decoded list was decoded. -/
theorem exists_of_mem_itemsFrom {vs : List Json} {l : List α} {i : Nat}
    (h : itemsFrom f i vs = .ok l) : ∀ a ∈ l, ∃ v, f v = .ok a := by
  induction vs generalizing l i with
  | nil =>
    cases h
    exact List.forall_mem_nil _
  | cons v vs ih =>
    obtain ⟨_, l₀, h₁, htail, rfl⟩ := Checked.ap_eq_ok_iff.1 h
    obtain ⟨a, hhead, rfl⟩ := Cleaning.map_eq_ok h₁
    rw [List.forall_mem_cons]
    exact ⟨⟨v, Checked.under_eq_ok_iff.1 hhead⟩, ih htail⟩

/-- Every value of a decoded map was decoded. -/
theorem exists_of_mem_entries {vs : List (String × Json)} {l : List (String × α)}
    (h : entries f vs = .ok l) : ∀ e ∈ l, ∃ v, f v = .ok e.2 := by
  induction vs generalizing l with
  | nil =>
    cases h
    exact List.forall_mem_nil _
  | cons e vs ih =>
    obtain ⟨_, l₀, h₁, htail, rfl⟩ := Checked.ap_eq_ok_iff.1 h
    obtain ⟨a, hhead, rfl⟩ := Cleaning.map_eq_ok h₁
    rw [List.forall_mem_cons]
    exact ⟨⟨e.2, Checked.under_eq_ok_iff.1 hhead⟩, ih htail⟩

/-- A field that may be absent was decoded, or its default is taken. -/
theorem field_cases {n : FieldName} {absent a : α} {m : List (String × Json)}
    (h : field n absent f m = .ok a) : (∃ v, f v = .ok a) ∨ a = absent := by
  unfold field at h
  split at h
  · next v _ => exact .inl ⟨v, Checked.under_eq_ok_iff.1 h⟩
  · cases h
    exact .inr rfl

/-- Every value of a field with a map was decoded. -/
theorem exists_of_map_field {n : FieldName} {m : List (String × Json)} {a : OrderedMap α}
    (h : field n {} (map f) m = .ok a) : a.All fun b => ∃ v, f v = .ok b := by
  intro key b hb
  obtain ⟨v, hv⟩ | rfl := field_cases h
  · cases v with
    | obj members =>
      obtain ⟨l, hl, rfl⟩ := Cleaning.map_eq_ok hv
      obtain hmem | hempty := OrderedMap.mem_of_get?_insertAll (m := {}) hb
      · exact exists_of_mem_entries hl (key, b) hmem
      · cases hempty
    | _ => cases hv
  · cases hb

/-- The columns of a decoded table were decoded. -/
theorem exists_of_table {v : Json} {t : Table} (h : table v = .ok t) :
    ∀ c ∈ t.columns, ∃ w, column w = .ok c := by
  cases v with
  | obj m =>
    obtain ⟨_, isView, h₁, -, rfl⟩ := Checked.ap_eq_ok_iff.1 h
    obtain ⟨_, comment, h₂, -, rfl⟩ := Checked.ap_eq_ok_iff.1 h₁
    obtain ⟨_, color, h₃, -, rfl⟩ := Checked.ap_eq_ok_iff.1 h₂
    obtain ⟨_, position, h₄, -, rfl⟩ := Checked.ap_eq_ok_iff.1 h₃
    obtain ⟨_, indexes, h₅, -, rfl⟩ := Checked.ap_eq_ok_iff.1 h₄
    obtain ⟨_, constraints, h₆, -, rfl⟩ := Checked.ap_eq_ok_iff.1 h₅
    obtain ⟨_, columns, h₇, hcolumns, rfl⟩ := Checked.ap_eq_ok_iff.1 h₆
    obtain ⟨_, schema, h₈, -, rfl⟩ := Checked.ap_eq_ok_iff.1 h₇
    obtain ⟨title, -, rfl⟩ := Cleaning.map_eq_ok h₈
    obtain ⟨w, hw⟩ | rfl := field_cases hcolumns
    · cases w with
      | arr items => exact exists_of_mem_itemsFrom hw
      | _ => cases hw
    · exact List.forall_mem_nil _
  | _ => cases h

/-- Nothing that is decoded goes by the empty name. -/
theorem named_of_decode {v : Json} {s : Schema} (h : schema v = .ok s) : s.Named := by
  cases v with
  | obj m =>
    obtain ⟨_, enums, h₁, henums, rfl⟩ := Checked.ap_eq_ok_iff.1 h
    obtain ⟨tables, htables, rfl⟩ := Cleaning.map_eq_ok h₁
    constructor
    · intro c hc hempty
      obtain ⟨t, ht, hc⟩ := List.mem_flatMap.1 hc
      obtain ⟨key, ht⟩ := OrderedMap.mem_values_iff.1 ht
      obtain ⟨w, hw⟩ := exists_of_map_field htables key t ht
      obtain ⟨u, hu⟩ := exists_of_table hw c hc
      have hname := (normalColumn_of_decode hu).enumName
      rw [hempty] at hname
      cases hname
    · intro key e he
      obtain ⟨w, hw⟩ := exists_of_map_field henums key e he
      exact (valid_of_enumType hw).1
  | _ => cases h

end Decode

/-! ## Accepted values -/

/-- Values that differ whatever their case, and from those seen before, repeat none. -/
theorem EnumType.repeated?_of_nodup {seen values : List String}
    (h : (values.map Text.lower).Nodup) (hseen : ∀ v ∈ values, Text.lower v ∉ seen) :
    EnumType.repeated? seen values = none := by
  induction values generalizing seen with
  | nil => rfl
  | cons v values ih =>
    rw [List.map_cons, List.nodup_cons] at h
    rw [List.forall_mem_cons] at hseen
    rw [EnumType.repeated?, if_neg (by simpa using hseen.1)]
    refine ih h.2 fun w hw hmem => ?_
    rcases List.mem_cons.1 hmem with heq | hmem
    · exact h.1 (heq ▸ List.mem_map_of_mem hw)
    · exact hseen.2 w hw hmem

namespace Column

variable {c : Column} {enums enums' : OrderedMap EnumType} {key : String} {e : EnumType}

theorem filled_of_ne (h : key ≠ "") : filled (some key) = some key := by
  rw [filled, Option.filter_some, if_pos (by simpa using h)]

/-- A column accepts the values of the enum type that it names. -/
theorem enumValuesIn_of_get? (hname : c.enumName = some key) (hkey : key ≠ "")
    (he : enums.get? key = some e) : c.enumValuesIn enums = e.values := by
  rw [enumValuesIn, hname, filled_of_ne hkey, Option.bind_some, he]

/-- What a column accepts depends on the enum type that it names only. -/
theorem enumValuesIn_congr (h : ∀ k, c.enumName = some k → enums'.get? k = enums.get? k) :
    c.enumValuesIn enums' = c.enumValuesIn enums := by
  have hget : (filled c.enumName).bind enums'.get? = (filled c.enumName).bind enums.get? := by
    cases hname : filled c.enumName with
    | none => rfl
    | some k => exact h k (Option.filter_eq_some_iff.1 hname).1
  rw [enumValuesIn, enumValuesIn, hget]

/-- A column that follows an edit of the enum type under a key: it is the same if it does not name
    the type, and otherwise differs at most in its enum name, its own values and its format. -/
structure Follows (key : String) (c d : Column) : Prop where
  other : c.enumName ≠ some key → d = c
  user : { d with enumName := c.enumName, enumValues := c.enumValues, format := c.format } = c

end Column

/-! ## Tables with other columns -/

/-- The tables are the same in the same order, but for their columns, which correspond one by one. -/
def Corresponding (rel : Column → Column → Prop) (tables tables' : OrderedMap Table) : Prop :=
  List.Forall₂ (fun x y => y.1 = x.1 ∧ { y.2 with columns := x.2.columns } = x.2 ∧
    List.Forall₂ rel x.2.columns y.2.columns) tables.entries tables'.entries

namespace Schema

variable {s s' : Schema} {key newKey name : String} {e : EnumType} {rel : Column → Column → Prop}

/-- A change of the columns that name an enum type, in what they may differ in, lets all columns
    follow; how it changes them is told for those that name the type and for the others. -/
theorem corresponding_mapUsers {f : Column → Column}
    (hf : ∀ c, { f c with enumName := c.enumName, enumValues := c.enumValues, format := c.format } = c)
    (huser : ∀ c ∈ s.allColumns, c.enumName = some key → rel c (f c))
    (hother : ∀ c ∈ s.allColumns, c.enumName ≠ some key → rel c c) :
    Corresponding (fun c d => c.Follows key d ∧ rel c d) s.tables (s.mapUsers key f) := by
  refine List.forall₂_map_right_iff.2 (List.forall₂_same.2 fun x hx => ⟨rfl, rfl, ?_⟩)
  refine List.forall₂_map_right_iff.2 (List.forall₂_same.2 fun c hc => ?_)
  have hmem : c ∈ s.allColumns := List.mem_flatMap.2 ⟨x.2, List.mem_map_of_mem hx, hc⟩
  by_cases hname : c.enumName = some key
  · rw [if_pos hname]
    exact ⟨⟨fun hne => absurd hname hne, hf c⟩, huser c hmem hname⟩
  · rw [if_neg hname]
    exact ⟨⟨fun _ => rfl, rfl⟩, hother c hmem hname⟩

/-! ## The edits -/

/-- The schema after an edit of the enum type under a key, which is then under `newKey` if anywhere:
    columns follow the edit, and correspond to those before as `rel` says; the other enum types are
    the same in the same order. -/
structure EnumEdited (key newKey : String) (rel : Column → Column → Prop) (s s' : Schema) : Prop where
  tables : Corresponding (fun c d => c.Follows key d ∧ rel c d) s.tables s'.tables
  enums : s'.enums.erase newKey = s.enums.erase key

theorem EnumEdited.mono {rel' : Column → Column → Prop} (h : EnumEdited key newKey rel s s')
    (himp : ∀ c d, rel c d → rel' c d) : EnumEdited key newKey rel' s s' :=
  ⟨List.Forall₂.imp (fun _ _ ht => ⟨ht.1, ht.2.1,
    List.Forall₂.imp (fun c d hc => ⟨hc.1, himp c d hc.2⟩) ht.2.2⟩) h.tables, h.enums⟩

theorem enumAt_of_get? (h : s.enums.get? key = some e) : s.enumAt key = .ok e := by
  rw [enumAt, h]

/-- A column that names an enum type does not name it by the empty text. -/
theorem Named.ne_empty (hs : s.Named) {c : Column} (hc : c ∈ s.allColumns)
    (hname : c.enumName = some key) : key ≠ "" := by
  rintro rfl
  exact hs.columns c hc hname

/-- **Deleting.** The columns of a deleted enum type keep its values as their own. -/
theorem deleteEnum_edited (hs : s.Named) (he : s.enums.get? key = some e) :
    ∃ s', s.deleteEnum key = .ok s' ∧ s'.enums.get? key = none ∧
      EnumEdited key key (fun c d => d.enumName ≠ some key ∧
        d.enumValuesIn s'.enums = c.enumValuesIn s.enums) s s' := by
  have hdelete : s.deleteEnum key = .ok
      { tables := s.mapUsers key fun c =>
          { c with enumName := none, enumValues := some e.values, format := "enum" }
        enums := s.enums.erase key } := by
    rw [deleteEnum, enumAt_of_get? he]
    rfl
  have hgone (k : String) : (s.enums.erase key).get? k = if key = k then none else s.enums.get? k :=
    OrderedMap.get?_erase ..
  refine ⟨_, hdelete, by rw [hgone, if_pos rfl], ?_, OrderedMap.erase_erase ..⟩
  refine corresponding_mapUsers (fun _ => rfl) (fun c hc hname => ⟨nofun, ?_⟩)
    fun c _ hname => ⟨hname, ?_⟩
  · exact (Column.enumValuesIn_of_get? hname (hs.ne_empty hc hname) he).symm
  · refine Column.enumValuesIn_congr fun k hk => ?_
    have hne : key ≠ k := fun heq => hname (heq ▸ hk)
    rw [hgone, if_neg hne]

/-- A renamed enum type is under the key of its new name, which was free or its own. -/
theorem renameEnum_ok (he : s.enums.get? key = some e)
    (h : s.renameEnum key name = .ok (s', newKey)) :
    Text.isBlankText name = false ∧ newKey = Name.key e.schema name ∧
      (newKey ≠ key → s.enums.get? newKey = none) ∧
      s' = { tables := s.mapUsers key fun c => { c with enumName := some newKey }
             enums := (s.enums.erase key).insert newKey { e with name } } := by
  rw [renameEnum, enumAt_of_get? he] at h
  obtain ⟨_, hown, h⟩ := Action.bind_ok h
  cases hown
  dsimp only at h
  split at h
  · cases h
  next hblank =>
  split at h
  · cases h
  next hfree =>
  cases h
  refine ⟨by simpa using hblank, rfl, fun hne => ?_, rfl⟩
  simp only [bne_iff_ne, ne_eq, hne, not_false_eq_true, true_and, Bool.and_eq_true] at hfree
  simpa [OrderedMap.contains] using hfree

/-- **Renaming.** The columns of a renamed enum type name it by its new key. -/
theorem renameEnum_edited (hs : s.Named) (he : s.enums.get? key = some e)
    (h : s.renameEnum key name = .ok (s', newKey)) :
    s'.enums.get? newKey = some { e with name } ∧
      EnumEdited key newKey (fun c d => d.format = c.format ∧
        (newKey ≠ key → d.enumName ≠ some key) ∧
        ((newKey ≠ key → c.enumName ≠ some newKey) →
          d.enumValuesIn s'.enums = c.enumValuesIn s.enums)) s s' := by
  obtain ⟨hblank, hkey, hfree, rfl⟩ := renameEnum_ok he h
  have hget (k : String) : ((s.enums.erase key).insert newKey { e with name }).get? k =
      if newKey = k then some { e with name } else if key = k then none else s.enums.get? k := by
    rw [OrderedMap.get?_insert, OrderedMap.get?_erase]
  have hnew : newKey ≠ "" := by
    rintro rfl
    have hblank := isBlankText_key hblank e.schema
    rw [← hkey] at hblank
    cases hblank
  have hthere : ((s.enums.erase key).insert newKey { e with name }).get? newKey =
      some { e with name } := (hget newKey).trans (if_pos rfl)
  refine ⟨hthere, ?_, ?_⟩
  · refine corresponding_mapUsers (fun _ => rfl) (fun c hc hname => ⟨rfl, ?_, fun _ => ?_⟩)
      fun c _ hname => ⟨rfl, fun _ => hname, fun hother => ?_⟩
    · exact fun hne heq => hne (Option.some.inj heq)
    · have hbefore := Column.enumValuesIn_of_get? hname (hs.ne_empty hc hname) he
      have hrenamed : { c with enumName := some newKey }.enumValuesIn
          ((s.enums.erase key).insert newKey { e with name }) = { e with name }.values :=
        Column.enumValuesIn_of_get? rfl hnew hthere
      exact hrenamed.trans hbefore.symm
    · refine Column.enumValuesIn_congr fun k hk => ?_
      have hne : key ≠ k := fun heq => hname (heq ▸ hk)
      have hne' : newKey ≠ k := by
        rintro rfl
        exact hother (Ne.symm hne) hk
      rw [hget, if_neg hne', if_neg hne]
  · have habsent : (s.enums.erase key).get? newKey = none := by
      rw [OrderedMap.get?_erase]
      split
      · rfl
      · next hne => exact hfree (Ne.symm hne)
    rw [OrderedMap.erase_insert, OrderedMap.erase_of_get?_eq_none habsent]

/-- **New values.** The columns of an enum type with new values accept these. -/
theorem updateEnum_edited (hs : s.Named) (he : s.enums.get? key = some e) {values : List String}
    (hvalues : (values.map Text.lower).Nodup) :
    ∃ s', s.updateEnum key values = .ok s' ∧ s'.enums.get? key = some { e with values } ∧
      EnumEdited key key (fun c d => d.format = c.format ∧ d.enumName = c.enumName ∧
        d.enumValuesIn s'.enums =
          if c.enumName = some key then values else c.enumValuesIn s.enums) s s' := by
  have hvalid : Decode.enumOf e.name e.schema values = .ok { e with values } :=
    Decode.enumOf_eq_ok_iff.2
      ⟨rfl, hs.enums key e he, EnumType.repeated?_of_nodup hvalues fun _ _ => List.not_mem_nil⟩
  have hupdate : s.updateEnum key values = .ok
      { tables := s.mapUsers key fun c => { c with enumValues := c.enumValues.map fun _ => values }
        enums := s.enums.insert key { e with values } } := by
    rw [updateEnum, enumAt_of_get? he]
    show ((Decode.enumOf e.name e.schema values).orInvalid >>= _) = _
    rw [hvalid]
    rfl
  have hget (k : String) : (s.enums.insert key { e with values }).get? k =
      if key = k then some { e with values } else s.enums.get? k := OrderedMap.get?_insert ..
  have hthere : (s.enums.insert key { e with values }).get? key = some { e with values } :=
    (hget key).trans (if_pos rfl)
  refine ⟨_, hupdate, hthere, ?_, OrderedMap.erase_insert ..⟩
  refine corresponding_mapUsers (fun _ => rfl) (fun c hc hname => ⟨rfl, rfl, ?_⟩)
    fun c _ hname => ⟨rfl, rfl, ?_⟩
  · have hkept : { c with enumValues := c.enumValues.map fun _ => values }.enumName = some key := hname
    rw [if_pos hname]
    exact Column.enumValuesIn_of_get? hkept (hs.ne_empty hc hname) hthere
  · rw [if_neg hname]
    refine Column.enumValuesIn_congr fun k hk => ?_
    have hne : key ≠ k := fun heq => hname (heq ▸ hk)
    rw [hget, if_neg hne]

/-- **Enum edits keep the accepted values.** Let an enum type be under a key of a schema.  Deleting it,
    and renaming it if that succeeds, leaves the values that any column accepts as they were, unless
    the column names the new key already, and no column names the old key any more.  New values that
    differ whatever their case are then the ones that the columns of the type accept, and no others
    accept anything else than before.  Columns that did not name the type are the same, those that did
    differ at most in their enum name, their own values and, if it was deleted, their format; all other
    enum types, the rest of the tables, and the order of tables and columns are the same. -/
theorem enumEdits_values (hs : s.Named) (he : s.enums.get? key = some e) :
    (∃ s', s.deleteEnum key = .ok s' ∧ s'.enums.get? key = none ∧
      EnumEdited key key (fun c d => d.enumName ≠ some key ∧
        d.enumValuesIn s'.enums = c.enumValuesIn s.enums) s s') ∧
    (∀ name s' newKey, s.renameEnum key name = .ok (s', newKey) →
      s'.enums.get? newKey = some { e with name } ∧
      EnumEdited key newKey (fun c d => d.format = c.format ∧
        (newKey ≠ key → d.enumName ≠ some key) ∧
        ((newKey ≠ key → c.enumName ≠ some newKey) →
          d.enumValuesIn s'.enums = c.enumValuesIn s.enums)) s s') ∧
    ∀ values : List String, (values.map Text.lower).Nodup →
      ∃ s', s.updateEnum key values = .ok s' ∧ s'.enums.get? key = some { e with values } ∧
        EnumEdited key key (fun c d => d.format = c.format ∧ d.enumName = c.enumName ∧
          d.enumValuesIn s'.enums =
            if c.enumName = some key then values else c.enumValuesIn s.enums) s s' :=
  ⟨deleteEnum_edited hs he, fun _ _ _ h => renameEnum_edited hs he h,
    fun _ hvalues => updateEnum_edited hs he hvalues⟩

/-- An enum type under a key other than its own, with a column that keeps a stale copy of its values
    and one that keeps none, beside a column whose enum type is unknown and one without. -/
def feelingSchema : Schema where
  tables := .ofList [("t",
    { title := "t"
      columns := [{ title := "a", enumName := some "mood", enumValues := some ["good"] },
        { title := "b", enumName := some "mood" },
        { title := "c", enumName := some "gone", enumValues := some ["z"] }, { title := "d" }] })]
  enums := .ofList [("mood", { name := "feeling", values := ["good", "bad"] })]

theorem named_feelingSchema : feelingSchema.Named := by
  have hnames : ∀ e ∈ feelingSchema.enums.values, e.name ≠ "" := by decide
  exact ⟨by decide, fun key e he => hnames e (OrderedMap.mem_values_iff.2 ⟨key, he⟩)⟩

/-- The type is deleted, renamed to the name that the third column goes by, and given new values. -/
theorem enumEdits_values_feelingSchema : feelingSchema.Named ∧
    feelingSchema.enums.get? "mood" = some { name := "feeling", values := ["good", "bad"] } ∧
    (∃ s', feelingSchema.deleteEnum "mood" = .ok s' ∧
      EnumEdited "mood" "mood" (fun c d => d.enumName ≠ some "mood" ∧
        d.enumValuesIn s'.enums = c.enumValuesIn feelingSchema.enums) feelingSchema s') ∧
    (∃ s', feelingSchema.renameEnum "mood" "gone" = .ok (s', "gone") ∧
      EnumEdited "mood" "gone" (fun c d => d.enumName ≠ some "mood" ∧ (c.enumName ≠ some "gone" →
        d.enumValuesIn s'.enums = c.enumValuesIn feelingSchema.enums)) feelingSchema s') ∧
    (["x", "y"].map Text.lower).Nodup ∧
    ∃ s', feelingSchema.updateEnum "mood" ["x", "y"] = .ok s' ∧
      EnumEdited "mood" "mood" (fun c d => d.enumValuesIn s'.enums =
        if c.enumName = some "mood" then ["x", "y"] else c.enumValuesIn feelingSchema.enums)
        feelingSchema s' := by
  have hthere : feelingSchema.enums.get? "mood" =
      some { name := "feeling", values := ["good", "bad"] } := rfl
  have hnodup : (["x", "y"].map Text.lower).Nodup := by decide +kernel
  obtain ⟨⟨deleted, hdelete, -, hdeleted⟩, hrename, hupdate⟩ :=
    enumEdits_values named_feelingSchema hthere
  obtain ⟨updated, hupdate, -, hupdated⟩ := hupdate ["x", "y"] hnodup
  obtain ⟨-, hrenamed⟩ := hrename "gone" _ "gone" rfl
  exact ⟨named_feelingSchema, hthere, ⟨deleted, hdelete, hdeleted⟩,
    ⟨_, rfl, hrenamed.mono fun c d h => ⟨h.2.1 (by decide), fun hne => h.2.2 fun _ => hne⟩⟩, hnodup,
    updated, hupdate, hupdated.mono fun c d h => h.2.2⟩

end Schema

end Schemata
