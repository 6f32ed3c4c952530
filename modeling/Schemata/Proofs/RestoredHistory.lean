/-
  Histories that are restored from any text.

  * `InBounds`: the position is one of the entries, and the entries are within the limit;
    `inBounds_assemble`: so it is in every history that is put together from stored parts;
  * `read_cases`: a text is a history in bounds, it is corrupt, or its position is `BeyondNumbers`,
    which does not count as corrupt;
  * `restore_iff`: a history is restored from every text but those.
-/
import Mathlib.Algebra.Group.Int.Defs
import Schemata.Proofs.Reloading

namespace Schemata.History

open Number (Binary64)

variable {settings : Except SettingsError Settings} {m : Nat} {h : History}

/-! ## Bounds -/

/-- The position is one of the entries, or `-1` if there are none, and the entries are within the
    limit. -/
structure InBounds (h : History) : Prop where
  index_eq_iff : h.index = -1 ↔ h.entries = []
  index_mem : h.entries ≠ [] → 0 ≤ h.index ∧ h.index < h.entries.length
  length_le : h.entries.length ≤ h.maxEntries
  limit : 1 ≤ h.maxEntries

/-- A list within the limit may be cut anywhere. -/
theorem inBounds_cutAfter {entries : List HistoryEntry} (position : Nat) {maxEntries : Nat}
    (hlength : entries.length ≤ maxEntries) (hmax : 1 ≤ maxEntries) :
    (cutAfter entries position maxEntries).InBounds := by
  -- something is taken of every list that is not empty
  have hpast : (cutAfter entries position maxEntries).past = [] →
      (cutAfter entries position maxEntries).future = [] := by
    intro hnil
    obtain hzero | rfl := List.take_eq_nil_iff.1 hnil
    · cases hzero
    · exact List.drop_nil
  refine ⟨index_eq_neg_one_iff hpast, index_mem_entries hpast, ?_, hmax⟩
  rw [entries_cutAfter]
  exact hlength

/-- Whatever the stored position and the number of entries are. -/
theorem inBounds_assemble (entries : List HistoryEntry) (index : Int) {maxEntries : Nat}
    (hmax : 1 ≤ maxEntries) : (assemble entries index maxEntries).InBounds := by
  refine inBounds_cutAfter _ ?_ hmax
  rw [List.length_drop]
  omega

theorem inBounds_single (e : HistoryEntry) (hm : 1 ≤ m) :
    InBounds { past := [e], maxEntries := m } :=
  have hlength : [e].length ≤ m := hm
  inBounds_cutAfter 0 hlength hm

/-! ## Reading -/

/-- The position of a stored history is an integer beyond all numbers. -/
def HugeIndex (members : List (String × Json)) : Prop :=
  ∃ items i negative, entryList members = .ok items ∧
    OrderedMap.find "currentIndex" members = some (.int i) ∧ Binary64.ofInt i = .infinity negative

/-- The text is that of an object whose position is an integer beyond all numbers. -/
def BeyondNumbers (text : String) : Prop :=
  ∃ members, Json.read text = .ok (.obj members) ∧ HugeIndex members

theorem entryList_error {members : List (String × Json)} {e : HistoryError}
    (he : entryList members = .error e) : e = .corrupted .noEntryList := by
  unfold entryList at he
  split at he
  · cases he
  · cases he
    rfl

theorem readIndex_error {v : Option Json} {e : HistoryError} (he : readIndex v = .error e) :
    (∃ reason, e = .corrupted reason) ∨
      e = .hugeIndex ∧ ∃ i negative, v = some (.int i) ∧ Binary64.ofInt i = .infinity negative := by
  unfold readIndex at he
  split at he
  · next i =>
    split at he
    · next negative hinfinity =>
      cases he
      exact .inr ⟨rfl, i, negative, rfl, hinfinity⟩
    · cases he
  · split at he
    · cases he
    · cases he
      exact .inl ⟨_, rfl⟩
  · cases he
    exact .inl ⟨_, rfl⟩

/-- Every stored limit counts as one of at least one. -/
theorem readLimit_ok (hm : settingsLimit settings = .ok m) (v : Option Json) :
    ∃ n, readLimit settings v = .ok n ∧ 1 ≤ n := by
  have hlimit : limitOf settings none = .ok m := hm
  unfold readLimit
  split
  · next n =>
    split
    · exact ⟨_, rfl, by omega⟩
    · exact ⟨m, hm, pos_of_limitOf hlimit⟩
  · exact ⟨m, hm, pos_of_limitOf hlimit⟩

theorem ofMembers_of_hugeIndex {members : List (String × Json)} (h : HugeIndex members) :
    ofMembers settings members = .error .hugeIndex := by
  obtain ⟨items, i, negative, hitems, hindex, hinfinity⟩ := h
  have hread : readIndex (some (.int i)) = .error .hugeIndex := by
    rw [readIndex, hinfinity]
  rw [ofMembers, hitems, hindex, hread]
  rfl

/-- What becomes of stored parts. -/
theorem ofMembers_cases (hm : settingsLimit settings = .ok m) (members : List (String × Json)) :
    (∃ h, ofMembers settings members = .ok h ∧ h.InBounds) ∨
      (∃ reason, ofMembers settings members = .error (.corrupted reason)) ∨ HugeIndex members := by
  cases hitems : entryList members with
  | error e =>
    obtain rfl := entryList_error hitems
    exact .inr (.inl ⟨_, by rw [ofMembers, hitems]; rfl⟩)
  | ok items =>
    cases hindex : readIndex (OrderedMap.find "currentIndex" members) with
    | error e =>
      obtain ⟨reason, rfl⟩ | ⟨rfl, i, negative, hi, hinfinity⟩ := readIndex_error hindex
      · exact .inr (.inl ⟨reason, by rw [ofMembers, hitems, hindex]; rfl⟩)
      · exact .inr (.inr ⟨items, i, negative, hitems, hi, hinfinity⟩)
    | ok index =>
      cases hentries : readEntries items with
      | error e =>
        obtain ⟨faults, rfl⟩ := readEntries_error hentries
        refine .inr (.inl ⟨.badEntry faults, ?_⟩)
        simp only [ofMembers, hitems, hindex, hentries, bind, Except.bind]
      | ok entries =>
        obtain ⟨n, hn, hpos⟩ := readLimit_ok hm (OrderedMap.find "maxEntries" members)
        refine .inl ⟨assemble entries index n, ?_, inBounds_assemble entries index hpos⟩
        simp only [ofMembers, hitems, hindex, hentries, hn, bind, Except.bind]
        rfl

theorem read_of_beyondNumbers {text : String} (h : BeyondNumbers text) :
    read settings text = .error .hugeIndex := by
  obtain ⟨members, hjson, hhuge⟩ := h
  rw [read, hjson]
  exact ofMembers_of_hugeIndex hhuge

/-- What becomes of a text. -/
theorem read_cases (hm : settingsLimit settings = .ok m) (text : String) :
    (∃ h, read settings text = .ok h ∧ h.InBounds) ∨
      (∃ reason, read settings text = .error (.corrupted reason)) ∨ BeyondNumbers text := by
  unfold read
  split
  · exact .inr (.inl ⟨_, rfl⟩)
  · next members hjson =>
    obtain hok | hcorrupted | hhuge := ofMembers_cases hm members
    · exact .inl hok
    · exact .inr (.inl hcorrupted)
    · exact .inr (.inr ⟨members, hjson, hhuge⟩)
  · exact .inr (.inl ⟨_, rfl⟩)

/-- A text whose position is a number is read as nothing or as a history in bounds. -/
theorem result_read? (hm : settingsLimit settings = .ok m) {text : String}
    (hn : ¬BeyondNumbers text) : ∃ stored, (read? settings text).result = .ok stored ∧
      ∀ h, stored = some h → h.InBounds := by
  obtain ⟨h, hread, hbounds⟩ | ⟨reason, hread⟩ | hbeyond := read_cases hm text
  · refine ⟨some h, result_read?_ok hread, ?_⟩
    rintro _ ⟨⟩
    exact hbounds
  · exact ⟨none, result_read?_corrupted hread, nofun⟩
  · exact absurd hbeyond hn

theorem result_read?_of_beyondNumbers {text : String} (h : BeyondNumbers text) :
    (read? settings text).result = .error .hugeIndex := by
  rw [read?, read_of_beyondNumbers h]
  rfl

/-! ## Restoring -/

theorem filled_of_beyondNumbers {text : String} (h : BeyondNumbers text) :
    filled (some text) = some text := by
  rw [filled, Option.filter_some, if_pos]
  cases hempty : text.isEmpty with
  | false => rfl
  | true =>
    obtain ⟨members, hjson, -⟩ := h
    rw [String.isEmpty_iff.1 hempty] at hjson
    cases hjson

theorem result_restore_of_beyondNumbers (hm : settingsLimit settings = .ok m) (stamp : Stamp)
    {text : String} (fallback : Snapshot) (h : BeyondNumbers text) :
    (restore settings stamp (some text) fallback).result = .error .hugeIndex := by
  obtain ⟨e, -, hresult⟩ := result_restore hm stamp (some text) fallback
  rw [hresult, filled_of_beyondNumbers h, Option.elim_some, result_read?_of_beyondNumbers h]
  rfl

/-- What is restored is a stored history in bounds, or the single entry of a new one; beside it comes
    the fallback, numbered if it was recorded. -/
theorem result_restore_of_not_beyondNumbers (hm : settingsLimit settings = .ok m) (stamp : Stamp)
    {text : Option String} (fallback : Snapshot) (hn : ∀ s, text = some s → ¬BeyondNumbers s) :
    ∃ h snapshot, (restore settings stamp text fallback).result = .ok (h, snapshot) ∧
      h.entries ≠ [] ∧ h.InBounds ∧ (snapshot = fallback ∨ snapshot = fallback.numbered 1) := by
  have hlimit : limitOf settings none = .ok m := hm
  obtain ⟨e, -, hresult⟩ := result_restore hm stamp text fallback
  have hfresh := inBounds_single e (pos_of_limitOf hlimit)
  rw [hresult]
  cases hfilled : filled text with
  | none => exact ⟨_, _, rfl, List.cons_ne_nil e [], hfresh, .inr rfl⟩
  | some s =>
    have htext : text = some s := (Option.filter_eq_some_iff.1 hfilled).1
    obtain ⟨stored, hread, hbounds⟩ := result_read? hm (hn s htext)
    rw [Option.elim_some, hread]
    cases hkept : stored.filter fun h => !h.entries.isEmpty with
    | none =>
      refine ⟨_, _, congrArg Except.ok (congrArg (Option.elim · _ _) hkept), ?_, hfresh, .inr rfl⟩
      exact List.cons_ne_nil e []
    | some h =>
      obtain ⟨hstored, hne⟩ := Option.filter_eq_some_iff.1 hkept
      refine ⟨_, _, congrArg Except.ok (congrArg (Option.elim · _ _) hkept), ?_,
        hbounds h hstored, .inl rfl⟩
      rintro hnil
      rw [hnil] at hne
      cases hne

/-- **Restoring.** With a positive limit in the settings, a history with at least one entry and a
    position among its entries, which are within its limit, is restored from every text and from
    none, unless the text has a position beyond all numbers; so it is with reading a text, which may
    also have nothing as its result. -/
theorem restore_iff (hm : settingsLimit settings = .ok m) (stamp : Stamp) (text : Option String)
    (fallback : Snapshot) :
    ((∃ h snapshot, (restore settings stamp text fallback).result = .ok (h, snapshot) ∧
        h.entries ≠ [] ∧ h.InBounds) ↔ ∀ s, text = some s → ¬BeyondNumbers s) ∧
      ∀ s, (∃ stored, (read? settings s).result = .ok stored ∧
        ∀ h, stored = some h → h.InBounds) ↔ ¬BeyondNumbers s := by
  refine ⟨⟨?_, fun hn => ?_⟩, fun s => ⟨?_, result_read? hm⟩⟩
  · rintro ⟨h, snapshot, hresult, -⟩ s rfl hbeyond
    rw [result_restore_of_beyondNumbers hm stamp fallback hbeyond] at hresult
    cases hresult
  · obtain ⟨h, snapshot, hresult, hne, hbounds, -⟩ :=
      result_restore_of_not_beyondNumbers hm stamp fallback hn
    exact ⟨h, snapshot, hresult, hne, hbounds⟩
  · rintro ⟨stored, hresult, -⟩ hbeyond
    rw [result_read?_of_beyondNumbers hbeyond] at hresult
    cases hresult

/-- A stored history without entries, at a position that is no integer. -/
def brokenText : String := "\x7b\"entries\": [], \"currentIndex\": 0.5, \"maxEntries\": -1\x7d"

/-- A new history is restored in its place. -/
theorem restore_broken : settingsLimit (.ok {}) = .ok 100 ∧
    ∃ h snapshot, (restore (.ok {}) ⟨"a", 1⟩ (some brokenText) {}).result = .ok (h, snapshot) ∧
      h.entries ≠ [] ∧ h.InBounds := by
  have hread : read (.ok {}) brokenText = .ok { maxEntries := 100 } := by decide +kernel
  refine ⟨rfl, (restore_iff rfl _ _ _).1.2 ?_⟩
  rintro _ ⟨⟩ hbeyond
  cases hread.symm.trans (read_of_beyondNumbers hbeyond)

/-- A stored history without entries, at the position `10 ^ 309`. -/
def distantText : String := Json.write .spaced (stateJson [] (10 ^ 309) 100)

theorem beyondNumbers_distant : BeyondNumbers distantText := by
  have hshort {n : Nat} (hn : n < Number.maxDigits) : Json.isShort (10 ^ n) = true := by
    rw [Json.isShort_iff, Int.natAbs_pow]
    exact Nat.pow_lt_pow_right (by decide) hn
  have hlegible : (stateJson [] (10 ^ 309) 100).legible = true := by
    rw [legible_stateJson, hshort (by decide)]
    decide +kernel
  have hread : Json.read distantText = .ok (stateJson [] (10 ^ 309) 100).reread :=
    Json.read_write Json.readable_spaced (distinct_stateJson ..) hlegible
  rw [reread_stateJson] at hread
  exact ⟨_, hread, [], 10 ^ 309, false, rfl, rfl, by decide +kernel⟩

/-- Nothing is restored in its place. -/
theorem not_restore_distant : settingsLimit (.ok {}) = .ok 100 ∧
    (restore (.ok {}) ⟨"a", 1⟩ (some distantText) {}).result = .error .hugeIndex ∧
    (read? (.ok {}) distantText).result = .error .hugeIndex := by
  have hlimit : settingsLimit (.ok {}) = .ok 100 := rfl
  exact ⟨hlimit, result_restore_of_beyondNumbers hlimit _ _ beyondNumbers_distant,
    result_read?_of_beyondNumbers beyondNumbers_distant⟩

end Schemata.History
