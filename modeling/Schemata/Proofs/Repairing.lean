/-
  Repairing a store: what is left is sound, and a second repair finds nothing to do.

  * `SoundItem`: an item that no rule removes;
  * `mem_allUnfitKeys`: the keys that are removed are those of the other items, though a list of tables
    is only looked at if the first two rules keep it;
  * `read?_repair`: what is left, item by item;
  * `repair_sound`: what that says about the store as a whole.
-/
import Schemata.Proofs.SaveOutcomes
import Schemata.Store.Health

namespace Schemata.Store

open Log

variable {limits : StoreLimits} {s s' : Store} {key text : String}

theorem removeAll_eq_self {keys : List String} (h : ∀ key ∈ keys, s.read? key = none) :
    s.removeAll keys = s := by
  induction keys with
  | nil => rfl
  | cons key keys ih =>
    rw [List.forall_mem_cons] at h
    have hitems : s.items.erase key = s.items := OrderedMap.erase_of_get?_eq_none h.1
    have hsame : s.remove key = s := by rw [remove, hitems]
    rw [removeAll, List.foldl_cons, hsame]
    exact ih h.2

/-! ## Items -/

/-- A text of a list of tables that can be right: a short one, or an object with tables whose texts
    are not too long on average. -/
def SoundTables (limits : StoreLimits) (text : String) : Prop :=
  (text.length : Int) ≤ limits.corruptionThreshold ∨
    ∃ members, Json.read text = .ok (.obj members) ∧ members ≠ [] ∧
      (text.length : Int) ≤ limits.maxAverageTable * members.length

/-- An item that is kept. -/
structure SoundItem (limits : StoreLimits) (key text : String) : Prop where
  size : (entrySize key text : Int) ≤ limits.maxItem
  json : needsJson key = true → ∃ v, Json.read text = .ok v
  tables : key = limits.tablesKey → SoundTables limits text

theorem isUnfit_eq_false : (isUnfit limits key text).value = false ↔
    (entrySize key text : Int) ≤ limits.maxItem ∧
      (needsJson key = true → ∃ v, Json.read text = .ok v) := by
  unfold isUnfit
  dsimp only
  split
  · next hsize =>
    refine ⟨nofun, fun h => ?_⟩
    omega
  next hsize =>
  rw [and_iff_right (Int.not_lt.1 hsize)]
  cases hjson : needsJson key with
  | false => exact ⟨fun _ => nofun, fun _ => rfl⟩
  | true =>
    cases hread : Json.read text with
    | error fault =>
      refine ⟨nofun, fun h => ?_⟩
      obtain ⟨_, ⟨⟩⟩ := h rfl
    | ok v => exact ⟨fun _ _ => ⟨v, rfl⟩, fun _ => rfl⟩

theorem unfitKeys_value (l : List (String × String)) : (unfitKeys limits l).value =
    (l.filter fun e => (isUnfit limits e.1 e.2).value).map Prod.fst := by
  induction l with
  | nil => rfl
  | cons e l ih =>
    have hvalue : (unfitKeys limits (e :: l)).value =
        if (isUnfit limits e.1 e.2).value then e.1 :: (unfitKeys limits l).value
        else (unfitKeys limits l).value := rfl
    rw [hvalue, ih, List.filter_cons]
    split <;> rfl

theorem mem_unfitKeys : key ∈ (unfitKeys limits s.items.entries).value ↔
    ∃ text, s.read? key = some text ∧ (isUnfit limits key text).value = true := by
  simp [unfitKeys_value, read?, OrderedMap.get?_eq_some_iff]

theorem isCorruptTableText_eq_false : (isCorruptTableText limits text).value = false ↔
    ∃ members, Json.read text = .ok (.obj members) ∧ members ≠ [] ∧
      (text.length : Int) ≤ limits.maxAverageTable * members.length := by
  unfold isCorruptTableText
  split
  · next hread =>
    rw [hread]
    constructor
    · intro h
      cases h
    · rintro ⟨_, ⟨⟩, -⟩
  · next member more hread =>
    rw [hread]
    dsimp only
    split
    · next hlong =>
      constructor
      · intro h
        cases h
      · rintro ⟨_, ⟨⟩, -, hshort⟩
        exact absurd hshort (Int.not_le.2 hlong)
    · next hshort =>
      exact ⟨fun _ => ⟨_, rfl, List.cons_ne_nil _ _, Int.not_lt.1 hshort⟩, fun _ => rfl⟩
  · next v hother hread =>
    rw [hread]
    constructor
    · intro h
      cases h
    · rintro ⟨members, ⟨⟩, hmembers, -⟩
      obtain ⟨member, more, rfl⟩ := List.exists_cons_of_ne_nil hmembers
      exact absurd rfl (hother member more)

theorem hasCorruptTables_eq_false : (hasCorruptTables limits s).value = false ↔
    ∀ text, s.read? limits.tablesKey = some text → SoundTables limits text := by
  unfold hasCorruptTables
  cases hread : s.read? limits.tablesKey with
  | none => exact ⟨fun _ => nofun, fun _ => rfl⟩
  | some text =>
    dsimp only
    simp only [Option.some.injEq, forall_eq', SoundTables]
    split
    · next hlong => rw [isCorruptTableText_eq_false, or_iff_right (Int.not_le.2 hlong)]
    · next hshort => exact ⟨fun _ => .inl (Int.not_lt.1 hshort), fun _ => rfl⟩

theorem soundItem_iff (hread : s.read? key = some text) : SoundItem limits key text ↔
    (isUnfit limits key text).value = false ∧
      (key = limits.tablesKey → (hasCorruptTables limits s).value = false) := by
  rw [isUnfit_eq_false, hasCorruptTables_eq_false]
  constructor
  · rintro ⟨hsize, hjson, htables⟩
    refine ⟨⟨hsize, hjson⟩, ?_⟩
    rintro rfl text' htext'
    obtain rfl := Option.some.inj (hread.symm.trans htext')
    exact htables rfl
  · rintro ⟨⟨hsize, hjson⟩, htables⟩
    exact ⟨hsize, hjson, fun heq => htables heq text (heq ▸ hread)⟩

theorem exists_of_hasCorruptTables (h : (hasCorruptTables limits s).value = true) :
    ∃ text, s.read? limits.tablesKey = some text := by
  unfold hasCorruptTables at h
  split at h
  · cases h
  · next text hread => exact ⟨text, hread⟩

/-- An item is not sound if it is unfit, or is a list of tables that cannot be right. -/
theorem exists_not_soundItem_iff : (∃ text, s.read? key = some text ∧ ¬SoundItem limits key text) ↔
    key ∈ (unfitKeys limits s.items.entries).value ∨
      key = limits.tablesKey ∧ (hasCorruptTables limits s).value = true := by
  rw [mem_unfitKeys]
  constructor
  · rintro ⟨text, hread, hnot⟩
    rw [soundItem_iff hread, not_and_or, Bool.not_eq_false] at hnot
    refine hnot.imp (fun hunfit => ⟨text, hread, hunfit⟩) fun htables => ?_
    rwa [Classical.not_imp, Bool.not_eq_false] at htables
  · rintro (⟨text, hread, hunfit⟩ | ⟨rfl, hcorrupt⟩)
    · refine ⟨text, hread, fun hsound => ?_⟩
      rw [((soundItem_iff hread).1 hsound).1] at hunfit
      cases hunfit
    · obtain ⟨text, hread⟩ := exists_of_hasCorruptTables hcorrupt
      refine ⟨text, hread, fun hsound => ?_⟩
      rw [((soundItem_iff hread).1 hsound).2 rfl] at hcorrupt
      cases hcorrupt

/-- The keys that are removed are those of the items that are not sound. -/
theorem mem_allUnfitKeys : key ∈ (allUnfitKeys limits s).value ↔
    ∃ text, s.read? key = some text ∧ ¬SoundItem limits key text := by
  have hvalue : (allUnfitKeys limits s).value =
      if (unfitKeys limits s.items.entries).value.contains limits.tablesKey then
        (unfitKeys limits s.items.entries).value
      else if (hasCorruptTables limits s).value then
        (unfitKeys limits s.items.entries).value ++ [limits.tablesKey]
      else (unfitKeys limits s.items.entries).value := by
    unfold allUnfitKeys
    rw [Logged.value_bind]
    split
    · rfl
    · rw [Logged.value_bind]
      split <;> rfl
  rw [hvalue, exists_not_soundItem_iff]
  split
  · next hthere =>
    -- the list of tables is unfit already, and is not looked at
    refine ⟨.inl, ?_⟩
    rintro (hmem | ⟨rfl, -⟩)
    · exact hmem
    · exact List.contains_iff_mem.1 hthere
  · split
    · next hcorrupt => simp [hcorrupt]
    · next hcorrupt => simp [hcorrupt]

/-! ## Repairs -/

theorem clearIfOversized_value (limits : StoreLimits) (s : Store) :
    (clearIfOversized limits s).value.1 =
      if limits.validatorTotal < s.size then s.removeAll limits.schemaKeys else s := by
  unfold clearIfOversized isOversized
  simp only [decide_eq_true_eq]
  split <;> rfl

theorem repair_value (limits : StoreLimits) (s : Store) : (repair limits s).value.1 =
    (clearIfOversized limits (s.removeAll (allUnfitKeys limits s).value)).value.1 := by
  unfold repair
  simp only [Logged.value_bind]
  split <;> rfl

/-- Without the items that are not sound, all others are left. -/
theorem read?_removeAll_allUnfitKeys : (s.removeAll (allUnfitKeys limits s).value).read? key =
    some text ↔ s.read? key = some text ∧ SoundItem limits key text := by
  rw [read?_removeAll]
  split
  · next hmem =>
    obtain ⟨text', hread, hnot⟩ := mem_allUnfitKeys.1 hmem
    refine ⟨nofun, ?_⟩
    rintro ⟨htext, hsound⟩
    obtain rfl := Option.some.inj (hread.symm.trans htext)
    exact absurd hsound hnot
  · next hmem =>
    refine ⟨fun hread => ⟨hread, ?_⟩, And.left⟩
    by_contra hnot
    exact hmem (mem_allUnfitKeys.2 ⟨text, hread, hnot⟩)

/-- What a repair leaves, item by item: the sound items, but no schema data if they take up too much. -/
theorem read?_repair : (repair limits s).value.1.read? key = some text ↔
    s.read? key = some text ∧ SoundItem limits key text ∧
      (key ∈ limits.schemaKeys →
        ((s.removeAll (allUnfitKeys limits s).value).size : Int) ≤ limits.validatorTotal) := by
  rw [repair_value, clearIfOversized_value]
  split
  · next hlarge =>
    rw [read?_removeAll]
    split
    · next hschema =>
      refine ⟨nofun, ?_⟩
      rintro ⟨-, -, hsmall⟩
      exact absurd (hsmall hschema) (Int.not_le.2 hlarge)
    · next hschema =>
      rw [read?_removeAll_allUnfitKeys]
      simp [hschema]
  · next hsmall =>
    rw [read?_removeAll_allUnfitKeys]
    simp [Int.not_lt.1 hsmall]

/-- A store of sound items that is small enough, or has no schema data, is left alone. -/
theorem repair_eq_self (hsound : ∀ key text, s.read? key = some text → SoundItem limits key text)
    (hsize : (s.size : Int) ≤ limits.validatorTotal ∨
      ∀ key ∈ limits.schemaKeys, s.read? key = none) : (repair limits s).value.1 = s := by
  have hunfit : (allUnfitKeys limits s).value = [] := by
    refine List.eq_nil_iff_forall_not_mem.2 fun key hmem => ?_
    obtain ⟨text, hread, hnot⟩ := mem_allUnfitKeys.1 hmem
    exact hnot (hsound key text hread)
  have hnothing : s.removeAll [] = s := rfl
  rw [repair_value, hunfit, hnothing, clearIfOversized_value]
  split
  · next hlarge =>
    refine removeAll_eq_self (hsize.resolve_left ?_)
    exact Int.not_le.2 hlarge
  · rfl

/-- **A repair reaches a sound store and stays there.** The keys of the schema data are among those
    that ask for JSON, as the standard ones are.  After a repair, every item is sound, and the store is
    small enough or has no schema data left; a second repair changes nothing; and an item that is not
    too large, under a key that does not ask for JSON, is still there. -/
theorem repair_sound (hkeys : ∀ key ∈ limits.schemaKeys, needsJson key = true)
    (h : (repair limits s).value.1 = s') :
    (∀ key text, s'.read? key = some text → SoundItem limits key text) ∧
    ((s'.size : Int) ≤ limits.validatorTotal ∨ ∀ key ∈ limits.schemaKeys, s'.read? key = none) ∧
    (repair limits s').value.1 = s' ∧
    ∀ key text, s.read? key = some text → needsJson key = false →
      (entrySize key text : Int) ≤ limits.maxItem → s'.read? key = some text := by
  subst h
  have hsound (key text : String) (hread : (repair limits s).value.1.read? key = some text) :
      SoundItem limits key text := (read?_repair.1 hread).2.1
  have hsize : ((repair limits s).value.1.size : Int) ≤ limits.validatorTotal ∨
      ∀ key ∈ limits.schemaKeys, (repair limits s).value.1.read? key = none := by
    rw [repair_value, clearIfOversized_value]
    split
    · exact .inr fun key hkey => by rw [read?_removeAll, if_pos hkey]
    · next hsmall => exact .inl (Int.not_lt.1 hsmall)
  refine ⟨hsound, hsize, repair_eq_self hsound hsize, fun key text hread hjson hitem => ?_⟩
  refine read?_repair.2 ⟨hread, ⟨hitem, ?_, ?_⟩, ?_⟩
  · rw [hjson]
    nofun
  · rintro rfl
    rw [hkeys _ (by simp [StoreLimits.schemaKeys])] at hjson
    cases hjson
  · intro hschema
    rw [hkeys key hschema] at hjson
    cases hjson

/-- Limits under which little is sound, with the standard keys. -/
def tightLimits : StoreLimits where
  maxItem := 30
  validatorTotal := 20
  corruptionThreshold := 10
  maxAverageTable := 8

/-- A store with an item that is too large, one that is not JSON, tables that are too long, schema data
    for which there is no room, and an item of its host. -/
def spoiltStore : Store where
  items := .ofList [("blob", "0123456789012345678901234567"), ("schema-history", "[1, 2"),
    ("table-list", "\x7b\"a\": 123456\x7d"), ("enum-types", "\x7b\x7d"), ("theme", "dark")]

/-- Each rule removes an item, and that of the host is left. -/
theorem repair_sound_spoiltStore : (∀ key ∈ tightLimits.schemaKeys, needsJson key = true) ∧
    ∃ s', (repair tightLimits spoiltStore).value.1 = s' ∧ s'.keys = ["theme"] ∧
      s'.read? "theme" = some "dark" ∧ (repair tightLimits s').value.1 = s' := by
  have hkeys : ∀ key ∈ tightLimits.schemaKeys, needsJson key = true := by decide
  have hleft : (repair tightLimits spoiltStore).value.1.keys = ["theme"] := by decide +kernel
  obtain ⟨-, -, hagain, hhost⟩ := repair_sound (s := spoiltStore) hkeys rfl
  exact ⟨hkeys, _, rfl, hleft, hhost "theme" "dark" (by decide) (by decide) (by decide), hagain⟩

end Schemata.Store
