/-
  The current entry of a history that is read again.

  * `Binary64.reread?_of_same`, `Snapshot.Agrees.reread`: what agrees is read from its text as
    something that agrees, and needs no numbers (`Snapshot.numbered_reread`);
  * `Decode.valid_of_historyEntry`, `History.readEntries_ok`: entries are decoded one by one, and
    their enum types were valid;
  * `History.readsNewest`: unless the current entry is left out, the text of the newest entries is
    discarded, has no entries, or is read as a history with this entry in its place.
-/
import Mathlib.Data.List.Forall2
import Schemata.Proofs.SavedStore

namespace Schemata

open Log

/-! ## Coordinates that are read again -/

namespace Json

variable {start cs rest : List Char} {negative : Bool} {v : Json}

/-- A number is an integer or the nearest number to a decimal. -/
theorem number_cases (h : number start negative cs = .ok (v, rest)) :
    (∃ i, v = .int i) ∨ ∃ digits exponent, v = .float (.ofDecimal negative digits exponent) := by
  rw [number_eq] at h
  split at h
  · cases h
  · unfold numberOf at h
    split at h
    · cases h
      exact .inr ⟨_, _, rfl⟩
    · split at h
      · unfold wholeNumber at h
        split at h
        · cases h
        · cases h
          exact .inl ⟨_, rfl⟩
      · cases h
        exact .inr ⟨_, _, rfl⟩

end Json

namespace Number.Binary64

variable {x y x' : Binary64}

theorem ofRatio_ne_nan (negative : Bool) (num den : Nat) (serial : Option Nat) :
    ofRatio negative num den ≠ nan serial := by
  unfold ofRatio
  split
  · exact nofun
  · dsimp only
    generalize scaleBy num den (exponentFor num den) = scaled
    generalize (if roundHalfEven scaled.1 scaled.2 = Nat.pow 2 53 then
      (Nat.pow 2 52, exponentFor num den + 1)
      else (roundHalfEven scaled.1 scaled.2, exponentFor num den)) = rounded
    split <;> exact nofun

theorem ofDecimal_ne_nan (negative : Bool) (digits : Nat) (exponent : Int) (serial : Option Nat) :
    ofDecimal negative digits exponent ≠ nan serial := by
  unfold ofDecimal
  dsimp only
  split
  · exact nofun
  split
  · exact nofun
  split <;> exact ofRatio_ne_nan _ _ _ _

/-- What is read from a text needs no serial number. -/
theorem ne_nan_of_scalar {cs rest : List Char} (h : Json.scalar cs = .ok (.float y, rest)) :
    y ≠ nan none := by
  have hnumber {start cs : List Char} {negative : Bool}
      (h : Json.number start negative cs = .ok (.float y, rest)) : y ≠ nan none := by
    rcases Json.number_cases h with ⟨i, hi⟩ | ⟨digits, exponent, hy⟩
    · cases hi
    · cases hy
      exact ofDecimal_ne_nan _ _ _ _
  unfold Json.scalar at h
  split at h
  case h_7 => exact hnumber h
  case h_8 => exact hnumber h
  all_goals
    cases h
  all_goals exact nofun

theorem ne_nan_of_reread? (h : x.reread? = some y) : y ≠ nan none := by
  unfold reread? at h
  split at h
  · next hscalar =>
    cases h
    exact ne_nan_of_scalar hscalar
  · cases h

theorem reread?_zero (negative : Bool) (exponent : Int) :
    (finite negative 0 exponent).reread? = some (finite negative 0 (-1074)) := by
  have hbody : bodyText 0 exponent = "0.0".toList := if_pos rfl
  rw [reread?, toList_textWith_finite, hbody]
  cases negative <;> rfl

/-- Numbers that are the same are read from their texts as numbers that are the same. -/
theorem reread?_of_same (h : x.same y = true) (hx : x.reread? = some x') :
    ∃ y', y.reread? = some y' ∧ x'.same y' = true := by
  obtain ⟨-, rfl | ⟨hx0, hy0⟩⟩ := same_iff.1 h
  · exact ⟨x', hx, same_iff.2 ⟨ne_nan_of_reread? hx, .inl rfl⟩⟩
  · have hzero {z : Binary64} (hz : z.isZero = true) : ∃ negative exponent,
        z = finite negative 0 exponent := by
      unfold isZero at hz
      split at hz
      · exact ⟨_, _, rfl⟩
      · cases hz
    obtain ⟨negative, exponent, rfl⟩ := hzero hx0
    obtain ⟨negative', exponent', rfl⟩ := hzero hy0
    rw [reread?_zero] at hx
    cases hx
    exact ⟨_, reread?_zero .., same_iff.2 ⟨nofun, .inr ⟨rfl, rfl⟩⟩⟩

end Number.Binary64

/-! ## Snapshots that are read again -/

namespace Position

theorem legible_iff {p : Position} :
    p.legible = true ↔ (∃ x, p.x.reread? = some x) ∧ ∃ y, p.y.reread? = some y := by
  rw [legible, Bool.and_eq_true, Option.isSome_iff_exists, Option.isSome_iff_exists]

theorem reread_of_same {p q : Position} (h : p.same q = true) (hp : p.legible = true) :
    q.legible = true ∧ p.reread.same q.reread = true := by
  rw [same, Bool.and_eq_true] at h
  obtain ⟨⟨x, hx⟩, y, hy⟩ := legible_iff.1 hp
  obtain ⟨x', hx', hxx⟩ := Number.Binary64.reread?_of_same h.1 hx
  obtain ⟨y', hy', hyy⟩ := Number.Binary64.reread?_of_same h.2 hy
  refine ⟨legible_iff.2 ⟨⟨x', hx'⟩, y', hy'⟩, ?_⟩
  rw [reread, reread, same, Number.Binary64.reread, Number.Binary64.reread,
    Number.Binary64.reread, Number.Binary64.reread, hx, hy, hx', hy', Bool.and_eq_true]
  exact ⟨hxx, hyy⟩

theorem numbered_reread {p : Position} (serial : Nat) (hp : p.legible = true) :
    p.reread.numbered serial = p.reread := by
  have hnumbered {x : Number.Binary64} (h : x ≠ .nan none) : x.numbered serial = x := by
    unfold Number.Binary64.numbered
    split
    · exact absurd rfl h
    · rfl
  obtain ⟨⟨x, hx⟩, y, hy⟩ := legible_iff.1 hp
  rw [reread, numbered, Number.Binary64.reread, Number.Binary64.reread, hx, hy, Option.getD_some,
    Option.getD_some, hnumbered (Number.Binary64.ne_nan_of_reread? hx),
    hnumbered (Number.Binary64.ne_nan_of_reread? hy)]

end Position

namespace Table

theorem reread_of_same {t u : Table} (h : t.same u = true) (ht : t.legible = true) :
    u.legible = true ∧ t.reread.same u.reread = true := by
  obtain ⟨hposition, hrest⟩ := same_iff.1 h
  rw [legible] at ht
  rw [legible, same_iff, reread, reread]
  cases hp : t.position with
  | none =>
    cases hq : u.position with
    | none => exact ⟨rfl, rfl, hrest⟩
    | some q =>
      rw [hp, hq] at hposition
      cases hposition
  | some p =>
    cases hq : u.position with
    | none =>
      rw [hp, hq] at hposition
      cases hposition
    | some q =>
      rw [hp, hq] at hposition
      rw [hp] at ht
      obtain ⟨hlegible, hsame⟩ := Position.reread_of_same hposition ht
      exact ⟨hlegible, hsame, hrest⟩

theorem numbered_reread {t : Table} (serial : Nat) (ht : t.legible = true) :
    { t.reread with position := t.reread.position.map (Position.numbered serial) } = t.reread := by
  rw [legible] at ht
  rw [reread]
  cases hp : t.position with
  | none => rfl
  | some p =>
    rw [hp] at ht
    rw [Option.map_some, Option.map_some, Position.numbered_reread serial ht]

end Table

namespace Snapshot

variable {a b : Snapshot}

theorem legible_iff : a.legible = true ↔
    ∀ key t, a.schema.tables.get? key = some t → t.legible = true := by
  rw [legible, List.all_eq_true]
  exact ⟨fun h key t ht => h (key, t) (OrderedMap.get?_eq_some_iff.1 ht),
    fun h e he => h e.1 e.2 (OrderedMap.get?_eq_some_iff.2 he)⟩

theorem numbered_reread (serial : Nat) (ha : a.legible = true) :
    a.reread.numbered serial = a.reread := by
  have htables : (a.schema.tables.map fun _ t => t.reread).map (fun _ t =>
      { t with position := t.position.map (Position.numbered serial) }) =
        a.schema.tables.map fun _ t => t.reread := by
    refine OrderedMap.map_eq_self fun key t ht => ?_
    rw [OrderedMap.get?_map, Option.map_eq_some_iff] at ht
    obtain ⟨t, ht, rfl⟩ := ht
    exact Table.numbered_reread serial (legible_iff.1 ha key t ht)
  rw [numbered, reread, htables]

/-- Snapshots that agree are read from their texts as snapshots that agree. -/
theorem Agrees.reread (h : a.Agrees b) (ha : a.legible = true) :
    b.legible = true ∧ a.reread.Agrees b.reread := by
  refine ⟨legible_iff.2 fun key u hu => ?_, fun key => ?_, h.enums, h.cardinalities⟩
  · have hkey := h.tables key
    rw [hu] at hkey
    cases ht : a.schema.tables.get? key with
    | none =>
      rw [ht] at hkey
      cases hkey
    | some t =>
      rw [ht, Option.rel_some_some] at hkey
      exact (Table.reread_of_same hkey (legible_iff.1 ha key t ht)).1
  · have hkey := h.tables key
    rw [Snapshot.reread, Snapshot.reread, OrderedMap.get?_map, OrderedMap.get?_map]
    cases ht : a.schema.tables.get? key with
    | none =>
      rw [ht] at hkey
      cases hu : b.schema.tables.get? key with
      | none => exact .none
      | some u =>
        rw [hu] at hkey
        cases hkey
    | some t =>
      cases hu : b.schema.tables.get? key with
      | none =>
        rw [ht, hu] at hkey
        cases hkey
      | some u =>
        rw [ht, hu, Option.rel_some_some] at hkey
        exact .some (Table.reread_of_same hkey (legible_iff.1 ha key t ht)).2

end Snapshot

/-! ## Entries that are read again -/

namespace Decode

variable {α : Type} {f : Json → Checked α}

/-- Every member of a decoded object is decoded. -/
theorem exists_of_entries {l : List (String × Json)} {l' : List (String × α)}
    (h : entries f l = .ok l') : ∀ e ∈ l, ∃ a, f e.2 = .ok a := by
  induction l generalizing l' with
  | nil => exact nofun
  | cons e l ih =>
    obtain ⟨_, l₀, h₁, htail, rfl⟩ := Checked.ap_eq_ok_iff.1 h
    obtain ⟨a, hhead, rfl⟩ := Cleaning.map_eq_ok h₁
    rw [List.forall_mem_cons]
    exact ⟨⟨a, Checked.under_eq_ok_iff.1 hhead⟩, ih htail⟩

theorem exists_of_map {g : α → Json} {m m' : OrderedMap α} (h : map f (.ofMap g m) = .ok m') :
    ∀ key a, m.get? key = some a → ∃ b, f (g a) = .ok b := by
  obtain ⟨l, hl, -⟩ := Cleaning.map_eq_ok h
  intro key a ha
  exact exists_of_entries hl (key, g a)
    (List.mem_map.2 ⟨_, OrderedMap.get?_eq_some_iff.1 ha, rfl⟩)

theorem eq_of_nonEmptyText {s name : String} (h : nonEmptyText (.str s) = .ok name) : name = s := by
  change (if s.isEmpty then Checked.fail .tooShort else .ok s) = .ok name at h
  split at h <;> cases h
  rfl

theorem eq_of_distinctValues {l values : List String} (h : distinctValues l = .ok values) :
    values = l := by
  unfold distinctValues at h
  split at h <;> cases h
  rfl

/-- An enum type whose JSON form is decoded is valid. -/
theorem valid_of_toJson {e e' : EnumType} (h : enumType e.toJson = .ok e') : e.Valid := by
  have hvalid := valid_of_enumType h
  obtain ⟨_, values, h₁, hvalues, rfl⟩ := Checked.ap_eq_ok_iff.1 h
  obtain ⟨_, schema, h₂, -, rfl⟩ := Checked.ap_eq_ok_iff.1 h₁
  obtain ⟨name, hname, rfl⟩ := Cleaning.map_eq_ok h₂
  have hfindName : OrderedMap.find "name" ([("name", .str e.name)] ++
      Json.optional "schema" .str e.schema ++ [("values", Json.strings e.values)]) =
        some (.str e.name) := rfl
  have hfindValues : OrderedMap.find "values" ([("name", .str e.name)] ++
      Json.optional "schema" .str e.schema ++ [("values", Json.strings e.values)]) =
        some (Json.strings e.values) := by
    simp [OrderedMap.find_append, find_optional, OrderedMap.find]
  have hname : name = e.name := by
    rw [required_of_find hfindName, Checked.under_eq_ok_iff] at hname
    exact eq_of_nonEmptyText hname
  have hvalues : values = e.values := by
    change field "values" [] (fun v => (list text v).andThen distinctValues) _ = .ok values at hvalues
    rw [field_of_find hfindValues, Checked.under_eq_ok_iff, Json.strings,
      list_map (g := .str) fun _ _ => rfl] at hvalues
    exact eq_of_distinctValues hvalues
  rw [hname, hvalues] at hvalid
  exact hvalid

/-- The enum types of a snapshot are valid if the JSON form of its entry is decoded. -/
theorem valid_of_historyEntry {e e' : HistoryEntry} (h : historyEntry e.toJson = .ok e') :
    ∀ key t, e.snapshot.schema.enums.get? key = some t → t.Valid := by
  obtain ⟨_, s, -, hsnapshot, rfl⟩ := Checked.ap_eq_ok_iff.1 h
  have hsnapshot : snapshot e.snapshot.toJson = .ok s := Checked.under_eq_ok_iff.1 hsnapshot
  obtain ⟨_, cardinalities, h₁, -, rfl⟩ := Checked.ap_eq_ok_iff.1 hsnapshot
  obtain ⟨_, enums, -, henums, rfl⟩ := Checked.ap_eq_ok_iff.1 h₁
  have henums : map enumType (enumsJson e.snapshot.schema.enums) = .ok enums :=
    Checked.under_eq_ok_iff.1 henums
  intro key t ht
  obtain ⟨t', ht'⟩ := exists_of_map henums key t ht
  exact valid_of_toJson ht'

end Decode

namespace History

/-- What is wrong with an entry is wrong in shape. -/
theorem readEntries_error {l : List Json} {error : HistoryError}
    (h : readEntries l = .error error) : ∃ faults, error = .corrupted (.badEntry faults) := by
  induction l with
  | nil => cases h
  | cons v l ih =>
    rw [readEntries] at h
    split at h
    · cases h
      exact ⟨_, rfl⟩
    · cases hl : readEntries l with
      | error error' =>
        rw [hl] at h
        cases h
        exact ih hl
      | ok entries =>
        rw [hl] at h
        cases h

/-- Entries that are read are decoded one by one. -/
theorem readEntries_ok {l : List Json} {entries : List HistoryEntry}
    (h : readEntries l = .ok entries) :
    List.Forall₂ (fun v e => ∃ d, Decode.historyEntry v = .ok d ∧ e = d.numbered 1) l entries := by
  induction l generalizing entries with
  | nil =>
    cases h
    exact .nil
  | cons v l ih =>
    rw [readEntries] at h
    split at h
    · cases h
    · next d hd =>
      cases hl : readEntries l with
      | error error =>
        rw [hl] at h
        cases h
      | ok entries' =>
        rw [hl] at h
        cases h
        exact .cons ⟨d, hd, rfl⟩ (ih hl)

/-- The entry at the position where a list of entries is cut is the current one. -/
theorem current?_cutAfter {entries : List HistoryEntry} {position : Nat} (maxEntries : Nat)
    (h : position < entries.length) :
    (cutAfter entries position maxEntries).current? = entries[position]? := by
  have hlast : min (position + 1) entries.length - 1 = position := by omega
  rw [current?, cutAfter, List.getLast?_eq_getElem?, List.length_take, hlast,
    List.getElem?_take_of_lt (Nat.lt_succ_self position)]

/-- What is read of the newest entries of a history, the current one `c` among them: nothing, if
    something is wrong in shape or no entry is stored, or a history whose current entry is `c` as its
    text is read. -/
inductive ReadsNewest (h : History) (c : HistoryEntry) : Except HistoryError History → Prop
  | corrupted (reason : Corruption) : ReadsNewest h c (.error (.corrupted reason))
  | blank (stored : History) (hblank : stored.entries = []) : ReadsNewest h c (.ok stored)
  | read (stored : History) (current : HistoryEntry) (hcurrent : stored.current? = some current)
      (hsnapshot : current.snapshot = c.snapshot.reread) (hlegible : c.snapshot.legible = true)
      (henums : ∀ key t, c.snapshot.schema.enums.get? key = some t → t.Valid)
      (hlimit : stored.maxEntries = h.maxEntries)
      (hself : ∀ e ∈ stored.entries, e.snapshot.Agrees e.snapshot) : ReadsNewest h c (.ok stored)

/-- The current entry is at the stored position, unless it is left out. -/
theorem newest_position {h : History} {c : HistoryEntry} (hc : h.current? = some c) {count : Int}
    (hwindow : 0 < count → h.skipped count ≤ h.index) (hne : h.newest count ≠ []) :
    ∃ position : Nat, max 0 (h.index - h.skipped count) = position ∧
      (h.newest count)[position]? = some c := by
  have hpast : 0 < h.past.length := List.length_pos_iff.2 (past_ne_nil hc)
  have hindex : h.index = h.past.length - 1 := rfl
  have hlength := List.length_pos_iff.2 hne
  rw [newest, List.length_drop] at hlength
  -- nothing is stored if the count is not positive
  have hcount : 0 < count := by
    simp only [skipped] at hlength
    omega
  have hle := hwindow hcount
  refine ⟨(h.index - h.skipped count).toNat, by omega, ?_⟩
  have hsum : h.skipped count + (h.index - h.skipped count).toNat = h.index.toNat := by omega
  rw [newest, List.getElem?_drop, hsum, getElem?_index h (past_ne_nil hc), hc]

/-- The current entry is decoded as its text is read. -/
theorem decoded_current {c d : HistoryEntry} (hlegible : c.snapshot.legible = true)
    (hcolumns : ∀ key t, c.snapshot.schema.tables.get? key = some t →
      ∀ column ∈ t.columns, Decode.column column.toJson = .ok column)
    (hd : Decode.historyEntry c.reread.toJson = .ok d) :
    (d.numbered 1).snapshot = c.snapshot.reread ∧
      ∀ key t, c.snapshot.schema.enums.get? key = some t → t.Valid := by
  have henums : ∀ key t, c.snapshot.schema.enums.get? key = some t → t.Valid :=
    Decode.valid_of_historyEntry (e := c.reread) hd
  have hagain : Decode.historyEntry c.reread.toJson = .ok c.reread := by
    refine Decode.historyEntry_toJson (Decode.snapshot_toJson (fun key t ht => ?_) henums)
    have ht : (c.snapshot.schema.tables.map fun _ t => t.reread).get? key = some t := ht
    rw [OrderedMap.get?_map, Option.map_eq_some_iff] at ht
    obtain ⟨t', ht', rfl⟩ := ht
    exact hcolumns key t' ht'
  obtain rfl : c.reread = d := Decode.Checked.ok.inj (hagain.symm.trans hd)
  exact ⟨Snapshot.numbered_reread 1 hlegible, henums⟩

/-- **The stored history.** The text of the newest entries is discarded, has no entries, or is read
    with the current entry in its place, provided that this one is not left out. -/
theorem readsNewest {h : History} {c : HistoryEntry} (hc : h.current? = some c) {count : Int}
    (settings : Except SettingsError Settings) (hmax : 1 ≤ h.maxEntries)
    (hfits : h.entries.length ≤ h.maxEntries) (hlength : h.entries.length < 2 ^ 1023)
    (hwindow : 0 < count → h.skipped count ≤ h.index)
    (hcolumns : ∀ key t, c.snapshot.schema.tables.get? key = some t →
      ∀ column ∈ t.columns, Decode.column column.toJson = .ok column) :
    ReadsNewest h c (read settings (h.writeNewest count)) := by
  cases hl : ((h.newest count).all HistoryEntry.legible && Json.isShort h.maxEntries) with
  | false =>
    obtain ⟨fault, hfault⟩ := read_writeNewest_of_not_legible count settings hlength hl
    rw [hfault]
    exact .corrupted _
  | true =>
    rw [read_writeNewest count settings hmax hlength hl]
    cases hentries : readEntries
        (((h.newest count).map HistoryEntry.reread).map HistoryEntry.toJson) with
    | error error =>
      obtain ⟨faults, rfl⟩ := readEntries_error hentries
      exact .corrupted _
    | ok entries =>
      have hall := readEntries_ok hentries
      have hsame : entries.length = (h.newest count).length := by
        rw [← hall.length_eq, List.length_map, List.length_map]
      by_cases hempty : h.newest count = []
      · refine .blank _ ?_
        have hnil : entries = [] := List.length_eq_zero_iff.1 (by rw [hsame, hempty]; rfl)
        simp [hnil, assemble]
      obtain ⟨position, hcast, hat⟩ := newest_position hc hwindow hempty
      obtain ⟨hlt, hat⟩ := List.getElem?_eq_some_iff.1 hat
      rw [← hsame] at hlt
      have hle : entries.length ≤ h.maxEntries := by
        rw [hsame, newest, List.length_drop]
        omega
      rw [hcast]
      show ReadsNewest h c (.ok (assemble entries position h.maxEntries))
      rw [assemble_of_le position hle, Nat.min_eq_left (by omega)]
      obtain ⟨d, hd, hnumbered⟩ := hall.get (i := position) (by rwa [hall.length_eq]) hlt
      simp only [List.get_eq_getElem, List.getElem_map, hat] at hd hnumbered
      have hlegible : c.snapshot.legible = true := by
        have hc := List.all_eq_true.1 (Bool.and_eq_true_iff.1 hl).1 c (hat ▸ List.getElem_mem _)
        exact (Bool.and_eq_true_iff.1 hc).2
      obtain ⟨hsnapshot, henums⟩ := decoded_current hlegible hcolumns hd
      refine .read _ entries[position] ?_ (by rw [hnumbered, hsnapshot]) hlegible henums rfl ?_
      · rw [current?_cutAfter _ hlt, List.getElem?_eq_getElem hlt]
      · rw [entries_cutAfter]
        intro e he
        obtain ⟨i, hi, rfl⟩ := List.mem_iff_getElem.1 he
        obtain ⟨d, -, he⟩ := hall.get (i := i) (by rwa [hall.length_eq]) hi
        rw [List.get_eq_getElem] at he
        rw [he]
        exact Snapshot.agrees_numbered 1 d.snapshot

end History

end Schemata
