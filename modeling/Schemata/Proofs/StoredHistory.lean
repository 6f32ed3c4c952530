/-
  Stored histories.

  * `Decode.map_ofMap`, `Decode.table_toJson`, `Decode.snapshot_toJson`, `Decode.historyEntry_toJson`:
    what was encoded is decoded as it was, if its columns are;
  * `readIndex_of_lt`, `assemble_of_le`: a position that a number can hold is taken over, and no
    entry is given up that is within the limit;
  * `Storable` histories hold validated models and integers with texts; `write_then_read` says that
    of such a history the newest entries are read again, with the position among them.
-/
import Mathlib.Algebra.Group.Nat.Defs
import Mathlib.Data.List.DropRight
import Schemata.Proofs.Branch
import Schemata.Proofs.Reimporting
import Schemata.Proofs.SchemaText

namespace Schemata

open Number (Binary64)

/-! ## Decoding maps -/

namespace Decode

variable {α : Type} {f : Json → Checked α} {g : α → Json}

theorem entries_map {l : List (String × α)} (h : ∀ e ∈ l, f (g e.2) = .ok e.2) :
    entries f (l.map fun (k, v) => (k, g v)) = .ok l := by
  induction l with
  | nil => rfl
  | cons e l ih =>
    rw [List.forall_mem_cons] at h
    rw [List.map_cons, entries, h.1, ih h.2]
    rfl

/-- A map is decoded as it was if its values are. -/
theorem map_ofMap {m : OrderedMap α} (h : ∀ e ∈ m.entries, f (g e.2) = .ok e.2) :
    map f (.ofMap g m) = .ok m := by
  rw [Json.ofMap, map, entries_map h, Checked.map_ok, OrderedMap.ofList_entries]

/-! ## Decoding snapshots -/

/-- A table is decoded as it was if its columns are. -/
theorem table_toJson {t : Table} (h : ∀ c ∈ t.columns, column c.toJson = .ok c) :
    table t.toJson = .ok t := by
  have hcolumns : field "columns" [] (list column) (tableMembers t) = .ok t.columns :=
    field_list (by simp [tableMembers, OrderedMap.find_append, find_optional, OrderedMap.find]) h
  rw [toJson_eq_tableMembers]
  show tableWith (field "columns" [] (list column) (tableMembers t)) (tableMembers t) = _
  rw [hcolumns]
  exact tableWith_tableMembers t.columns t

theorem cardinality_name (c : Cardinality) : cardinality (.str c.name) = .ok c := by
  cases c <;> rfl

/-- A snapshot is decoded as it was if its columns are and its enum types are valid. -/
theorem snapshot_toJson {s : Snapshot}
    (hcolumns : ∀ key t, s.schema.tables.get? key = some t →
      ∀ c ∈ t.columns, column c.toJson = .ok c)
    (henums : ∀ key e, s.schema.enums.get? key = some e → e.Valid) :
    snapshot s.toJson = .ok s := by
  have htables : map table (tablesJson s.schema.tables) = .ok s.schema.tables :=
    map_ofMap fun e he => table_toJson (hcolumns e.1 e.2 (OrderedMap.get?_eq_some_iff.2 he))
  have henumTypes : map enumType (enumsJson s.schema.enums) = .ok s.schema.enums :=
    map_ofMap fun e he => enumType_toJson (henums e.1 e.2 (OrderedMap.get?_eq_some_iff.2 he))
  have hcardinalities : map cardinality (cardinalitiesJson s.cardinalities) = .ok s.cardinalities :=
    map_ofMap fun e _ => cardinality_name e.2
  have hunder {β : Type} {x : Checked β} {b : β} (h : x = .ok b) (step : Step) :
      x.under step = .ok b := by
    rw [h]
    rfl
  exact Checked.seq_of_ok (Checked.seq_of_ok (Checked.map_of_ok (hunder htables _))
    (hunder henumTypes _)) (hunder hcardinalities _)

/-- An entry is decoded as it was if its snapshot is. -/
theorem historyEntry_toJson {e : HistoryEntry} (h : snapshot e.snapshot.toJson = .ok e.snapshot) :
    historyEntry e.toJson = .ok e := by
  have hsnapshot : (snapshot e.snapshot.toJson).under (.field "snapshot") = .ok e.snapshot := by
    rw [h]
    rfl
  exact Checked.seq_of_ok (Checked.seq_of_ok (Checked.seq_of_ok (Checked.map_of_ok rfl) rfl) rfl)
    hsnapshot

end Decode

/-! ## Positions -/

namespace Number.Binary64

/-- The exponent of an integer is at most its number of bits beyond 53. -/
theorem exponentFor_one_le (n : Nat) :
    exponentFor n 1 ≤ max ((Nat.log2 n : Int) - 52) (-1074) := by
  have hone : Nat.log2 1 = 0 := by decide
  unfold exponentFor
  rw [hone]
  dsimp only
  split <;> omega

/-- An integer of at most 1023 bits is no infinity. -/
theorem ofInt_ne_infinity {n : Nat} (h : n < 2 ^ 1023) (negative : Bool) :
    ofInt n ≠ .infinity negative := by
  rw [ofInt, Int.natAbs_natCast, ofRatio]
  by_cases hn : n = 0
  · rw [if_pos hn]
    exact nofun
  · have hlog : Nat.log2 n < 1023 := (Nat.log2_lt hn).2 h
    have hexponent := exponentFor_one_le n
    rw [if_neg hn]
    dsimp only
    have hrange : ∀ m, ¬971 < (if m = Nat.pow 2 53 then (Nat.pow 2 52, exponentFor n 1 + 1)
        else (m, exponentFor n 1)).2 := by
      intro m
      split <;> dsimp only <;> omega
    rw [if_neg (hrange _)]
    exact nofun

end Number.Binary64

namespace History

theorem readIndex_of_lt {n : Nat} (h : n < 2 ^ 1023) : readIndex (some (.int n)) = .ok (n : Int) := by
  rw [readIndex]
  split
  · next negative hinfinity => exact absurd hinfinity (Binary64.ofInt_ne_infinity h negative)
  · rfl

theorem readLimit_of_pos (settings : Except SettingsError Settings) {n : Nat} (h : 1 ≤ n) :
    readLimit settings (some (.int n)) = .ok n := by
  rw [readLimit, if_pos (by omega)]
  rfl

/-- Entries within the limit are all kept. -/
theorem assemble_of_le {entries : List HistoryEntry} {maxEntries : Nat} (index : Nat)
    (h : entries.length ≤ maxEntries) :
    assemble entries index maxEntries =
      cutAfter entries (min index (entries.length - 1)) maxEntries := by
  have hposition : (min (index : Int) (entries.length - 1)).toNat =
      min index (entries.length - 1) := by omega
  rw [assemble, hposition, Nat.sub_eq_zero_of_le h, List.drop_zero, Nat.sub_zero]

theorem readEntries_map {entries : List HistoryEntry}
    (h : ∀ e ∈ entries, Decode.historyEntry e.toJson = .ok e) :
    readEntries (entries.map HistoryEntry.toJson) = .ok (entries.map (·.numbered 1)) := by
  induction entries with
  | nil => rfl
  | cons e entries ih =>
    rw [List.forall_mem_cons] at h
    rw [List.map_cons, readEntries, h.1]
    dsimp only
    rw [ih h.2]
    rfl

/-- The parts of a stored history are put together again if its entries are decoded. -/
theorem ofMembers_state {settings : Except SettingsError Settings} (items : List Json)
    {index maxEntries : Nat} (hindex : index < 2 ^ 1023) (hmax : 1 ≤ maxEntries) :
    ofMembers settings [("entries", .arr items), ("currentIndex", .int index),
        ("maxEntries", .int maxEntries)] =
      (readEntries items).map fun entries => assemble entries index maxEntries := by
  have hlist (m : List (String × Json)) : entryList (("entries", .arr items) :: m) = .ok items := rfl
  rw [ofMembers, hlist]
  show (do
    let index ← readIndex (some (.int index))
    let entries ← readEntries items
    let maxEntries ← readLimit settings (some (.int maxEntries))
    return assemble entries index maxEntries) = _
  rw [readIndex_of_lt hindex, readLimit_of_pos settings hmax]
  cases readEntries items <;> rfl

end History

/-! ## Validated models -/

/-- The models of a snapshot were validated: its columns and enum types are results of their
    decoders. -/
structure Snapshot.Validated (s : Snapshot) : Prop where
  columns : ∀ key t, s.schema.tables.get? key = some t →
    ∀ c ∈ t.columns, ∃ v, Decode.column v = .ok c
  enums : ∀ key e, s.schema.enums.get? key = some e → ∃ v, Decode.enumType v = .ok e

/-- The coordinates of all places are finite, and each is read from its text as it was. -/
structure Snapshot.ExactPlaces (s : Snapshot) : Prop where
  finite : FinitePlaces s.schema.tables
  reread : ∀ key t p, s.schema.tables.get? key = some t → t.position = some p →
    p.x.reread? = some p.x ∧ p.y.reread? = some p.y

theorem column_again {c : Column} {v : Json} (h : Decode.column v = .ok c) :
    Decode.column c.toJson = .ok c := by
  cases v with
  | obj m => exact (Cleaning.normalColumn_of_columnFields h).1.decode
  | _ => cases h

theorem ne_empty_of_nonEmptyText {v : Json} {name : String}
    (h : Decode.nonEmptyText v = .ok name) : name ≠ "" := by
  cases v with
  | str s =>
    change (if s.isEmpty then Decode.Checked.fail .tooShort else .ok s) = .ok name at h
    split at h
    · cases h
    · next hs =>
      cases h
      rintro rfl
      exact hs rfl
  | _ => cases h

theorem distinct_of_values {v : Json} {values : List String}
    (h : (Decode.list Decode.text v).andThen Decode.distinctValues = .ok values) :
    EnumType.repeated? [] values = none := by
  cases hl : Decode.list Decode.text v with
  | bad faults =>
    rw [hl] at h
    cases h
  | ok l =>
    rw [hl] at h
    change Decode.distinctValues l = .ok values at h
    unfold Decode.distinctValues at h
    split at h
    · cases h
    · next hd =>
      cases h
      exact hd

theorem valid_of_enumType {e : EnumType} {v : Json} (h : Decode.enumType v = .ok e) : e.Valid := by
  cases v with
  | obj m =>
    obtain ⟨_, values, h₁, hvalues, rfl⟩ := Decode.Checked.ap_eq_ok_iff.1 h
    obtain ⟨_, schema, h₂, -, rfl⟩ := Decode.Checked.ap_eq_ok_iff.1 h₁
    obtain ⟨name, hname, rfl⟩ := Cleaning.map_eq_ok h₂
    constructor
    · unfold Decode.required at hname
      split at hname
      · exact ne_empty_of_nonEmptyText (Decode.Checked.under_eq_ok_iff.1 hname)
      · cases hname
    · unfold Decode.field at hvalues
      split at hvalues
      · exact distinct_of_values (Decode.Checked.under_eq_ok_iff.1 hvalues)
      · cases hvalues
        rfl
  | _ => cases h

theorem Snapshot.Validated.decode {s : Snapshot} (h : s.Validated) :
    Decode.snapshot s.toJson = .ok s :=
  Decode.snapshot_toJson (fun key t ht c hc => (h.columns key t ht c hc).elim fun _ => column_again)
    fun key e he => (h.enums key e he).elim fun _ => valid_of_enumType

namespace Snapshot.ExactPlaces

variable {s : Snapshot}

theorem legible (h : s.ExactPlaces) : s.legible = true := by
  refine List.all_eq_true.2 fun e he => ?_
  have ht := OrderedMap.get?_eq_some_iff.2 he
  cases hp : e.2.position with
  | none => rw [Table.legible, hp]; rfl
  | some p =>
    obtain ⟨hx, hy⟩ := h.reread e.1 e.2 p ht hp
    rw [Table.legible, hp, Option.all_some, Position.legible, hx, hy]
    rfl

theorem reread_eq (h : s.ExactPlaces) : s.reread = s := by
  have htables : s.schema.tables.map (fun _ t => t.reread) = s.schema.tables := by
    refine OrderedMap.map_eq_self fun key t ht => ?_
    cases hp : t.position with
    | none => rw [Table.reread, hp, Option.map_none, ← hp]
    | some p =>
      obtain ⟨hx, hy⟩ := h.reread key t p ht hp
      rw [Table.reread, hp, Option.map_some, Position.reread, Binary64.reread, hx, Binary64.reread,
        hy, Option.getD_some, Option.getD_some, ← hp]
  rw [Snapshot.reread, htables]

theorem numbered_eq (h : s.ExactPlaces) (serial : Nat) : s.numbered serial = s :=
  numbered_of_finitePlaces serial h.finite

end Snapshot.ExactPlaces

/-! ## Histories -/

namespace History

/-- The history holds validated models, each of its integers has a text that is read, and its
    positions are numbers. -/
structure Storable (h : History) : Prop where
  models : ∀ e ∈ h.entries, e.snapshot.Validated
  places : ∀ e ∈ h.entries, e.snapshot.ExactPlaces
  times : ∀ e ∈ h.entries, Json.isShort e.stamp.time = true
  limit : Json.isShort h.maxEntries = true
  length : h.entries.length < 2 ^ 1023

theorem isShort_of_lt {n k : Nat} (h : n < 2 ^ k) (hk : k ≤ Number.maxDigits) :
    Json.isShort n = true := by
  rw [Json.isShort_iff, Int.natAbs_natCast]
  have hbase : 2 ^ k ≤ 10 ^ k := Nat.pow_le_pow_left (by decide) k
  have hexponent : 10 ^ k ≤ 10 ^ Number.maxDigits := Nat.pow_le_pow_right (by decide) hk
  exact Nat.lt_of_lt_of_le h (Nat.le_trans hbase hexponent)

/-- A few entries have positions that are numbers. -/
theorem lt_bound {n : Nat} (h : n < 2 ^ 2) : n < 2 ^ 1023 := by
  have hpow (k : Nat) (hk : 2 ≤ k) : 2 ^ 2 ≤ 2 ^ k := Nat.pow_le_pow_right (by decide) hk
  exact Nat.lt_of_lt_of_le h (hpow 1023 (by decide))

/-- An opened history has its limit in force, and its laws hold. -/
theorem sound_of_opening {opening : HistoryOpening} {limit : Option Int} {h : History}
    (hopen : opening.history limit = .ok h) : 1 ≤ h.maxEntries ∧ h.Sound h.maxEntries := by
  cases opening with
  | blank settings =>
    obtain ⟨m, hm, rfl⟩ : ∃ m, limitOf settings limit = .ok m ∧ h = { maxEntries := m } := by
      simp only [HistoryOpening.history, initial, Except.map] at hopen
      split at hopen
      · cases hopen
      · next m hm => cases hopen; exact ⟨m, hm, rfl⟩
    exact ⟨pos_of_limitOf hm, .intro (fun _ => rfl) (by simp [entries]) (by simp [entries])⟩
  | single settings stamp snapshot =>
    simp only [HistoryOpening.history, reset, Except.map] at hopen
    split at hopen
    · cases hopen
    · next m hm =>
      cases hopen
      have hpos := pos_of_limitOf hm
      exact ⟨hpos, .intro (fun hnil => by simp at hnil) (by simpa [entries] using hpos)
        (by simp [entries])⟩

/-! ### The text of the newest entries -/

section Newest

variable {h : History} (count : Int)

/-- The entries whose text is stored. -/
def newest (h : History) : List HistoryEntry := h.entries.drop (h.skipped count)

theorem mem_entries_of_mem_newest {e : HistoryEntry} (he : e ∈ h.newest count) : e ∈ h.entries :=
  List.drop_subset _ _ he

/-- The stored position is a number. -/
theorem exists_position (hlength : h.entries.length < 2 ^ 1023) :
    ∃ n : Nat, max 0 (h.index - h.skipped count) = n ∧ n < 2 ^ 1023 := by
  refine ⟨(h.index - h.skipped count).toNat, by omega, Nat.lt_of_le_of_lt ?_ hlength⟩
  have : h.past.length ≤ h.entries.length := by simp [entries]
  simp only [index]
  omega

theorem legible_newest (hlength : h.entries.length < 2 ^ 1023) :
    (stateJson (h.newest count) (max 0 (h.index - h.skipped count)) h.maxEntries).legible =
      ((h.newest count).all HistoryEntry.legible && Json.isShort h.maxEntries) := by
  obtain ⟨position, hposition, hlt⟩ := exists_position count hlength
  rw [hposition, legible_stateJson, isShort_of_lt hlt (by decide), Bool.true_and]

/-- Legible entries are read as the texts of their coordinates are, and then decoded. -/
theorem read_writeNewest (settings : Except SettingsError Settings) (hmax : 1 ≤ h.maxEntries)
    (hlength : h.entries.length < 2 ^ 1023)
    (hl : ((h.newest count).all HistoryEntry.legible && Json.isShort h.maxEntries) = true) :
    read settings (h.writeNewest count) =
      (readEntries (((h.newest count).map HistoryEntry.reread).map HistoryEntry.toJson)).map
        fun entries => assemble entries (max 0 (h.index - h.skipped count)) h.maxEntries := by
  rw [← legible_newest count hlength] at hl
  rw [read, writeNewest, ← newest, Json.read_write Json.readable_spaced (distinct_stateJson ..) hl,
    reread_stateJson]
  obtain ⟨position, hposition, hlt⟩ := exists_position count hlength
  rw [hposition]
  exact ofMembers_state _ hlt hmax

/-- The text of other entries is a fault. -/
theorem read_writeNewest_of_not_legible (settings : Except SettingsError Settings)
    (hlength : h.entries.length < 2 ^ 1023)
    (hl : ((h.newest count).all HistoryEntry.legible && Json.isShort h.maxEntries) = false) :
    ∃ fault, read settings (h.writeNewest count) = .error (.corrupted (.badText fault)) := by
  rw [← legible_newest count hlength] at hl
  obtain ⟨fault, hfault⟩ :=
    Json.read_write_of_not_legible Json.readable_spaced (distinct_stateJson ..) hl
  exact ⟨fault, by rw [read, writeNewest, ← newest, hfault]⟩

/-- The newest entries of a storable history are read again, the position among them. -/
theorem Storable.read (hs : h.Storable) (settings : Except SettingsError Settings)
    (hmax : 1 ≤ h.maxEntries) : History.read settings (h.writeNewest count) =
      .ok (assemble (h.newest count) (max 0 (h.index - h.skipped count)) h.maxEntries) := by
  have hlegible : ((h.newest count).all HistoryEntry.legible && Json.isShort h.maxEntries) = true := by
    rw [hs.limit, Bool.and_true, List.all_eq_true]
    intro e he
    have he := mem_entries_of_mem_newest count he
    rw [HistoryEntry.legible, hs.times e he, (hs.places e he).legible]
    rfl
  have hreread : (h.newest count).map HistoryEntry.reread = h.newest count := by
    have hid : ∀ e ∈ h.newest count, HistoryEntry.reread e = id e := by
      intro e he
      rw [HistoryEntry.reread, (hs.places e (mem_entries_of_mem_newest count he)).reread_eq]
      rfl
    rw [List.map_congr_left hid, List.map_id]
  have hnumbered : (h.newest count).map (·.numbered 1) = h.newest count := by
    have hid : ∀ e ∈ h.newest count, HistoryEntry.numbered 1 e = id e := by
      intro e he
      rw [HistoryEntry.numbered, (hs.places e (mem_entries_of_mem_newest count he)).numbered_eq]
      rfl
    rw [List.map_congr_left hid, List.map_id]
  have hdecode : ∀ e ∈ h.newest count, Decode.historyEntry e.toJson = .ok e := fun e he =>
    Decode.historyEntry_toJson (hs.models e (mem_entries_of_mem_newest count he)).decode
  rw [read_writeNewest count settings hmax hs.length hlegible, hreread, readEntries_map hdecode,
    hnumbered]
  rfl

end Newest

/-- The position in a list of entries is that of its last one at most. -/
theorem index_cutAfter {entries : List HistoryEntry} {position : Nat} (maxEntries : Nat)
    (h : position < entries.length) : (cutAfter entries position maxEntries).index = position := by
  rw [index, cutAfter, List.length_take]
  omega

/-- A history is cut where it was. -/
theorem cutAfter_self {h : History} (hp : h.past ≠ []) :
    cutAfter h.entries (h.past.length - 1) h.maxEntries = h := by
  have hpos : 0 < h.past.length := List.length_pos_iff.2 hp
  have hsucc : h.past.length - 1 + 1 = h.past.length := by omega
  rw [cutAfter, entries, hsucc, List.take_left, List.drop_left]

theorem Sound.past_ne_nil {limit : Nat} {h : History} (hs : h.Sound limit) (hne : h.entries ≠ []) :
    h.past ≠ [] := by
  rintro hnil
  have hindex := (hs.index_mem hne).1
  rw [index, hnil] at hindex
  exact absurd hindex (by decide)

/-- The newest entries of a history within its limit, put together with the position among them. -/
theorem assemble_newest {h : History} {kept : Nat} (hs : h.Sound h.maxEntries)
    (hkept : kept ≤ h.entries.length) (hpos : h.entries ≠ [] → 1 ≤ kept) :
    let stored := assemble (h.entries.rtake kept) (max 0 (h.index - (h.entries.length - kept)))
      h.maxEntries
    stored.entries = h.entries.rtake kept ∧
      stored.index = (if h.entries = [] then -1 else max 0 (h.index - (h.entries.length - kept))) ∧
      stored.maxEntries = h.maxEntries ∧ (kept = h.entries.length → stored = h) := by
  obtain ⟨position, hposition⟩ : ∃ n : Nat, max 0 (h.index - (h.entries.length - kept)) = n :=
    ⟨(h.index - (h.entries.length - kept)).toNat, by omega⟩
  have hlength : (h.entries.rtake kept).length = kept := by
    rw [List.rtake, List.length_drop]
    omega
  have hle : (h.entries.rtake kept).length ≤ h.maxEntries := by
    rw [hlength]
    exact Nat.le_trans hkept hs.length_le
  rw [hposition, assemble_of_le position hle, hlength]
  by_cases hempty : h.entries = []
  · have hpast : h.past = [] := (List.append_eq_nil_iff.1 hempty).1
    have hfuture : h.future = [] := (List.append_eq_nil_iff.1 hempty).2
    rw [hempty, List.rtake_nil, if_pos rfl]
    refine ⟨rfl, rfl, rfl, fun _ => ?_⟩
    rw [cutAfter, List.take_nil, List.drop_nil]
    exact congrArg₂ (History.mk · · h.maxEntries) hpast.symm hfuture.symm
  · have hmem := hs.index_mem hempty
    have hpast := hs.past_ne_nil hempty
    have hlt : position < kept := by
      have := hpos hempty
      omega
    rw [Nat.min_eq_left (by omega), if_neg hempty]
    refine ⟨entries_cutAfter .., index_cutAfter _ (by rwa [hlength]), rfl, fun hall => ?_⟩
    have hself : position = h.past.length - 1 := by
      simp only [index] at hposition hmem
      omega
    rw [hself, hall, List.rtake, Nat.sub_self, List.drop_zero]
    exact cutAfter_self hpast

/-- **Stored histories.** Whatever moves were made since a history was opened: if it holds validated
    models, the text of its newest `count` entries is read as a history of just these entries and of
    the same limit. Its position is the old one less the number of entries left out, at least that
    of the first entry; it is that of an empty history if there are no entries. When no entry is left
    out, the same history is read. -/
theorem write_then_read (opening : HistoryOpening) (limit : Option Int) {opened : History}
    (hopen : opening.history limit = .ok opened) (moves : List HistoryMove)
    (hs : (opened.run moves).Storable) (writing reading : Except SettingsError Settings)
    {count : Nat} (hcount : 1 ≤ count) :
    let h := opened.run moves
    let kept := min count h.entries.length
    ∃ text stored, h.write writing (some count) = .ok text ∧ read reading text = .ok stored ∧
      stored.entries = h.entries.rtake kept ∧
      stored.index = (if h.entries = [] then -1 else max 0 (h.index - (h.entries.length - kept))) ∧
      stored.maxEntries = h.maxEntries ∧
      (h.entries.length ≤ count → stored = h) := by
  obtain ⟨hmax, hsound₀⟩ := sound_of_opening hopen
  have hsound : (opened.run moves).Sound (opened.run moves).maxEntries := by
    rw [maxEntries_run]
    exact run_sound hsound₀ moves
  rw [← maxEntries_run opened moves] at hmax
  generalize opened.run moves = h at hs hsound hmax
  intro h' kept
  have hwrite : h.write writing (some count) = .ok (h.writeNewest count) := by
    have hne : ((count : Int) != 0) = true := bne_iff_ne.2 (by omega)
    rw [write, storedCount, Option.filter_some, hne]
    rfl
  have hskipped : h.skipped count = h.entries.length - kept := by
    simp only [skipped, kept, h']
    omega
  have hread := hs.read count reading hmax
  rw [newest, hskipped, Int.natCast_sub (Nat.min_le_right _ _)] at hread
  have hpos : h.entries ≠ [] → 1 ≤ kept := fun hne =>
    Nat.le_min.2 ⟨hcount, List.length_pos_iff.2 hne⟩
  obtain ⟨hentries, hindex, hlimit, hself⟩ :=
    assemble_newest hsound (Nat.min_le_right count h.entries.length) hpos
  exact ⟨_, _, hwrite, hread, hentries, hindex, hlimit, fun hall => hself (Nat.min_eq_right hall)⟩

/-- A table with a key, a column of an enum type and a place. -/
def moodTable : Table where
  title := "diary"
  columns := [
    { title := "day", format := "date", category := "string", required := true, primaryKey := true },
    { title := "mood", format := "mood", category := "string", enumName := some "mood",
      comment := some "how it was" }]
  position := some ⟨.one, .zero⟩

/-- A schema of that table and its enum type. -/
def moodSnapshot : Snapshot where
  schema := {
    tables := .ofList [("diary", moodTable)]
    enums := .ofList [("mood", ⟨"mood", none, ["good", "bad"]⟩)] }

/-- The table is dropped and brought back, and the last step is taken back. -/
def moodMoves : List HistoryMove :=
  [.push ⟨⟨"b", 2⟩, "Drop table", {}⟩, .push ⟨⟨"c", 3⟩, "Create table", moodSnapshot⟩, .undo]

theorem tables_moodSnapshot {key : String} {t : Table}
    (h : moodSnapshot.schema.tables.get? key = some t) : t = moodTable := by
  have hentries : moodSnapshot.schema.tables.entries = [("diary", moodTable)] := rfl
  have hmem := OrderedMap.get?_eq_some_iff.1 h
  rw [hentries, List.mem_singleton] at hmem
  exact congrArg Prod.snd hmem

theorem validated_moodSnapshot : moodSnapshot.Validated := by
  refine ⟨fun key t ht => ?_, fun key e he => ?_⟩
  · obtain rfl := tables_moodSnapshot ht
    have hcolumns : ∀ c ∈ moodTable.columns, Decode.column c.toJson = .ok c := by decide
    exact fun c hc => ⟨_, hcolumns c hc⟩
  · have hentries : moodSnapshot.schema.enums.entries =
        [("mood", ⟨"mood", none, ["good", "bad"]⟩)] := rfl
    have hmem := OrderedMap.get?_eq_some_iff.1 he
    rw [hentries, List.mem_singleton] at hmem
    obtain ⟨rfl, rfl⟩ := hmem
    exact ⟨_, Decode.enumType_toJson ⟨by decide, by decide⟩⟩

theorem exactPlaces_moodSnapshot : moodSnapshot.ExactPlaces := by
  refine ⟨fun key t p ht hp => ?_, fun key t p ht hp => ?_⟩
  · obtain rfl := tables_moodSnapshot ht
    cases hp
    exact ⟨rfl, rfl⟩
  · obtain rfl := tables_moodSnapshot ht
    cases hp
    exact ⟨by decide +kernel, by decide +kernel⟩

/-- A history that was opened on the schema. -/
def moodHistory : History :=
  { past := [⟨⟨"a", 1⟩, "Initial state", moodSnapshot⟩], maxEntries := 100 }

theorem storable_moodHistory : (moodHistory.run moodMoves).Storable := by
  have hsnapshot : ∀ e ∈ (moodHistory.run moodMoves).entries,
      e.snapshot = moodSnapshot ∨ e.snapshot = {} := by decide +kernel
  have hnone (key : String) (t : Table) :
      ({} : Snapshot).schema.tables.get? key = some t → False := nofun
  refine ⟨fun e he => ?_, fun e he => ?_, by decide +kernel, by decide, ?_⟩
  · rcases hsnapshot e he with h | h <;> rw [h]
    · exact validated_moodSnapshot
    · exact ⟨fun key t ht => (hnone key t ht).elim, nofun⟩
  · rcases hsnapshot e he with h | h <;> rw [h]
    · exact exactPlaces_moodSnapshot
    · exact ⟨fun key t p ht => (hnone key t ht).elim, fun key t p ht => (hnone key t ht).elim⟩
  · exact lt_bound (by decide +kernel)

/-- Of three entries, the second one current, the newest two are stored. -/
theorem write_then_read_two :
    (HistoryOpening.single {} ⟨"a", 1⟩ moodSnapshot).history none = .ok moodHistory ∧
      (moodHistory.run moodMoves).Storable ∧ 1 ≤ 2 ∧
      ∃ text stored, (moodHistory.run moodMoves).write (.ok {}) (some 2) = .ok text ∧
        read (.ok {}) text = .ok stored ∧
        stored.entries = (moodHistory.run moodMoves).entries.rtake 2 ∧ stored.index = 0 ∧
        stored.maxEntries = 100 := by
  have hopen : (HistoryOpening.single {} ⟨"a", 1⟩ moodSnapshot).history none = .ok moodHistory := by
    rfl
  obtain ⟨text, stored, hwrite, hread, hentries, hindex, hlimit, -⟩ :=
    write_then_read (.single {} ⟨"a", 1⟩ moodSnapshot) none hopen moodMoves storable_moodHistory
      (.ok {}) (.ok {}) (by decide : 1 ≤ 2)
  have hkept : min 2 (moodHistory.run moodMoves).entries.length = 2 := by decide +kernel
  rw [hkept] at hentries hindex
  refine ⟨hopen, storable_moodHistory, by decide, text, stored, hwrite, hread, hentries, ?_, hlimit⟩
  rw [hindex]
  decide +kernel

end History

end Schemata
