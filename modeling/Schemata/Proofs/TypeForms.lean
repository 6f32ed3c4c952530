/-
  Normal forms of types that are written and read again.

  * `normalize_eq_form`: a normal form is put together (`assemble`) of the parts of the tightened text:
    the name (`nameText`), the group in parentheses (`groupText`), which goes behind the name, and the
    brackets of an array (`suffixText`);
  * `form_append`: a name without parentheses, followed by a group and brackets, is taken apart there,
    and the blanks around punctuation in the name go;
  * `normalize_render_normalize`: so a type with at most one group keeps its normal form, written in
    capitals and read again, just if its name is tight without the group; its class stays in any case;
  * `not_normalize_render_normalize`: two groups change places each time.
-/
import Mathlib.Data.Bool.AllAny
import Schemata.Proofs.Formats
import Schemata.Proofs.Tightening

namespace Schemata.TypeText

open Text

variable {c : Char} {cs ds : List Char} {before inner after group suffix : List Char}

/-! ## Closing brackets -/

/-- The characters of array brackets. -/
def isBracketChar (c : Char) : Bool := c = '[' || c = ']' || isDigit c || c = '\n'

theorem isBracketChar_of_run {inside closed : Bool} (h : isBracketRun inside closed cs = true)
    (hc : c ∈ cs) : isBracketChar c = true := by
  induction cs generalizing inside closed with
  | nil => cases hc
  | cons d cs ih =>
    rw [isBracketRun] at h
    have hd : isBracketChar d = true ∧ (c ∈ cs → isBracketChar c = true) := by
      split at h
      · split at h
        · next hclose => exact ⟨by simp [isBracketChar, hclose], ih h⟩
        · rw [Bool.and_eq_true] at h
          exact ⟨by simp [isBracketChar, h.1], ih h.2⟩
      · split at h
        · next hopen => exact ⟨by simp [isBracketChar, hopen], ih h⟩
        · simp only [Bool.and_eq_true, decide_eq_true_eq, List.isEmpty_iff] at h
          obtain ⟨⟨-, rfl⟩, rfl⟩ := h
          exact ⟨rfl, nofun⟩
    rcases List.mem_cons.1 hc with rfl | hc
    · exact hd.1
    · exact hd.2 hc

/-- The brackets at the end of an array type: none, or a run of them up to the end. -/
def ClosingBrackets (suffix : List Char) : Prop := suffix = [] ∨ isBracketRun false false suffix = true

/-- No run of brackets up to the end opens in the first part of a text. -/
def NoRunBefore (cs suffix : List Char) : Prop :=
  ∀ before after, cs = before ++ '[' :: after →
    isBracketRun false false ('[' :: (after ++ suffix)) = false

theorem splitArray_spec (cs : List Char) :
    cs = (splitArray cs).1 ++ (splitArray cs).2 ∧ ClosingBrackets (splitArray cs).2 ∧
      NoRunBefore (splitArray cs).1 (splitArray cs).2 := by
  induction cs with
  | nil => exact ⟨rfl, .inl rfl, fun before after h => by cases before <;> cases h⟩
  | cons c cs ih =>
    obtain ⟨hcs, hclosing, hno⟩ := ih
    rw [splitArray]
    split
    · next h =>
      rw [Bool.and_eq_true] at h
      exact ⟨rfl, .inr h.2, fun before after h => by cases before <;> cases h⟩
    · next h =>
      refine ⟨congrArg (c :: ·) hcs, hclosing, fun before after hb => ?_⟩
      cases before with
      | nil =>
        obtain ⟨rfl, hafter⟩ := List.cons.inj hb
        rw [← hafter, ← hcs]
        simpa using h
      | cons d before =>
        obtain ⟨-, htail⟩ := List.cons.inj hb
        exact hno before after htail

theorem splitArray_append (hno : NoRunBefore cs suffix) (hclosing : ClosingBrackets suffix) :
    splitArray (cs ++ suffix) = (cs, suffix) := by
  induction cs with
  | nil =>
    cases suffix with
    | nil => rfl
    | cons c suffix =>
      have hrun := hclosing.resolve_left (List.cons_ne_nil c suffix)
      have hopen : c = '[' := by
        rw [isBracketRun] at hrun
        by_contra hne
        simp [hne] at hrun
      rw [List.nil_append, splitArray, if_pos (by rw [hrun, hopen]; rfl)]
  | cons c cs ih =>
    have hcons : ¬(c = '[' && isBracketRun false false (c :: (cs ++ suffix))) = true := by
      intro h
      rw [Bool.and_eq_true, decide_eq_true_eq] at h
      obtain ⟨rfl, hrun⟩ := h
      rw [hno [] cs rfl] at hrun
      cases hrun
    rw [List.cons_append, splitArray, if_neg hcons,
      ih fun before after h => hno (c :: before) after (by rw [h]; rfl)]

/-! ## Groups in parentheses -/

theorem cut?_singleton_eq_some_iff {before after : List Char} :
    cut? [c] cs = some (before, after) ↔ cs = before ++ c :: after ∧ c ∉ before := by
  induction cs generalizing before with
  | nil => simp [cut?, after?]
  | cons d cs ih =>
    rw [cut?, after?]
    by_cases hd : c = d
    · subst hd
      rw [if_pos rfl]
      simp only [after?, Option.some.injEq, Prod.mk.injEq]
      constructor
      · rintro ⟨rfl, rfl⟩
        exact ⟨rfl, List.not_mem_nil⟩
      · rintro ⟨h, hmem⟩
        cases before with
        | nil => exact ⟨rfl, (List.cons.inj h).2⟩
        | cons e before => exact absurd ((List.cons.inj h).1 ▸ List.mem_cons_self) hmem
    · rw [if_neg hd]
      simp only [Option.map_eq_some_iff, Prod.mk.injEq, Prod.exists]
      constructor
      · rintro ⟨front, back, h, rfl, rfl⟩
        obtain ⟨rfl, hmem⟩ := ih.1 h
        exact ⟨rfl, by simp [hd, hmem]⟩
      · rintro ⟨h, hmem⟩
        cases before with
        | nil => exact absurd (List.cons.inj h).1.symm hd
        | cons e before =>
          obtain ⟨rfl, htail⟩ := List.cons.inj h
          rw [List.mem_cons, not_or] at hmem
          exact ⟨before, after, ih.2 ⟨htail, hmem.2⟩, rfl, rfl⟩

/-- A group in parentheses, up to the first closing one. -/
def IsGroup (group : List Char) : Prop := ∃ inner, group = '(' :: (inner ++ [')']) ∧ ')' ∉ inner

/-- The first group of a text. -/
theorem cutModifier?_eq_some_iff : cutModifier? cs = some (before, group, after) ↔
    cs = before ++ (group ++ after) ∧ IsGroup group ∧ '(' ∉ before := by
  unfold cutModifier?
  constructor
  · intro h
    split at h
    · cases h
    · next hcut =>
      split at h
      · cases h
      · next hcut' =>
        cases h
        obtain ⟨rfl, hopen⟩ := cut?_singleton_eq_some_iff.1 hcut
        obtain ⟨rfl, hclose⟩ := cut?_singleton_eq_some_iff.1 hcut'
        exact ⟨by simp, ⟨_, rfl, hclose⟩, hopen⟩
  · rintro ⟨rfl, ⟨inner, rfl, hclose⟩, hopen⟩
    have hcut : cut? ['('] (before ++ ('(' :: (inner ++ [')']) ++ after)) =
        some (before, inner ++ ')' :: after) :=
      cut?_singleton_eq_some_iff.2 ⟨by simp, hopen⟩
    have hcut' : cut? [')'] (inner ++ ')' :: after) = some (inner, after) :=
      cut?_singleton_eq_some_iff.2 ⟨rfl, hclose⟩
    rw [hcut]
    simp only
    rw [hcut']

theorem cutModifier?_of_not_mem (h : '(' ∉ cs) : cutModifier? cs = none := by
  refine Option.eq_none_iff_forall_ne_some.2 fun ⟨before, group, after⟩ hcut => ?_
  obtain ⟨rfl, ⟨inner, rfl, -⟩, -⟩ := cutModifier?_eq_some_iff.1 hcut
  exact h (by simp)

/-! ## The word for an array -/

theorem arrayWord_of_last (h : ∀ c, cs.getLast? = some c → c ≠ 'y') : arrayWord cs = cs := by
  unfold arrayWord
  simp only
  split
  · next hsuffix =>
    obtain ⟨front, rfl⟩ := List.isSuffixOf_iff_suffix.1 hsuffix
    exact absurd rfl (h 'y' (by simp))
  · rfl

theorem arrayWord_of_not_mem (h : ' ' ∉ cs) : arrayWord cs = cs := by
  unfold arrayWord
  simp only
  split
  · next hsuffix =>
    obtain ⟨front, rfl⟩ := List.isSuffixOf_iff_suffix.1 hsuffix
    exact absurd (by simp) h
  · rfl

/-- A text either ends with the word, or is left alone. -/
theorem arrayWord_cases (cs : List Char) :
    (∃ front, cs = front ++ ' ' :: ['a', 'r', 'r', 'a', 'y'] ∧ arrayWord cs = front ++ ['[', ']']) ∨
      arrayWord cs = cs := by
  unfold arrayWord
  simp only
  split
  · next hsuffix =>
    obtain ⟨front, rfl⟩ := List.isSuffixOf_iff_suffix.1 hsuffix
    exact .inl ⟨front, rfl, by simp⟩
  · exact .inr rfl

theorem arrayWord_arrayWord (cs : List Char) : arrayWord (arrayWord cs) = arrayWord cs := by
  obtain ⟨front, -, h⟩ | h := arrayWord_cases cs
  · rw [h]
    refine arrayWord_of_last fun c hc => ?_
    obtain rfl : ']' = c := by simpa using hc
    decide
  · rw [h, h]

theorem squeezed_arrayWord (h : Squeezed false cs) : Squeezed false (arrayWord cs) := by
  obtain ⟨front, rfl, hfront⟩ | hsame := arrayWord_cases cs
  · rw [hfront]
    refine (h.left h.before_space.2).append ?_
    exact .char rfl (.char rfl .nil)
  · rwa [hsame]

theorem tight_arrayWord (hs : Squeezed false cs) (h : Tight cs) : Tight (arrayWord cs) := by
  obtain ⟨front, rfl, hfront⟩ | hsame := arrayWord_cases cs
  · have hbrackets : Tight ['[', ']'] := tightenAll_eq_self_iff.1 (by decide)
    rw [hfront, ← tightenAll_eq_self_iff,
      tightenAll_append (hs.left hs.before_space.2) hbrackets (by simp), tightenAll_eq_self h.left]
  · rwa [hsame]

/-! ## Parts -/

/-- The text of a type before it is taken apart.  Unfolding it would run the passes. -/
@[irreducible] def tightText (s : String) : List Char := arrayWord (tightenAll (foldCase s.toList))

/-- The name in a text without its closing brackets, and the group that goes behind the name. -/
def nameAndGroup (base : List Char) : List Char × List Char :=
  match cutModifier? base with
  | some (before, group, after) => (squeeze (before ++ ' ' :: after), group)
  | none => (base, [])

/-- A form, put together of its parts. -/
def assemble (name group suffix : List Char) : String :=
  let group := if String.ofList name = "float" then [] else group
  shortName (String.ofList name) ++ String.ofList group ++ String.ofList suffix

/-- The form of a text. -/
def form (text : List Char) : String :=
  let parts := nameAndGroup (takeArray text).1
  assemble parts.1 parts.2 (takeArray text).2

theorem nameAndGroup_some (h : cutModifier? cs = some (before, group, after)) :
    nameAndGroup cs = (squeeze (before ++ ' ' :: after), group) := by
  rw [nameAndGroup, h]

theorem nameAndGroup_none (h : cutModifier? cs = none) : nameAndGroup cs = (cs, []) := by
  rw [nameAndGroup, h]

theorem normalize_eq_form (s : String) : normalize s = form (tightText s) := by
  cases h : cutModifier? (takeArray (tightText s)).1 with
  | none =>
    simp only [form, nameAndGroup_none h, assemble]
    unfold tightText at h ⊢
    simp only [normalize, h]
  | some found =>
    obtain ⟨before, group, after⟩ := found
    simp only [form, nameAndGroup_some h, assemble]
    unfold tightText at h ⊢
    simp only [normalize, h]

theorem takeArray_eq_splitArray (h : '\n' ∉ cs) : takeArray cs = splitArray cs := by
  have hcs := (splitArray_spec cs).1
  have hsuffix : '\n' ∉ (splitArray cs).2 := fun hm => h (by
    rw [hcs]
    exact List.mem_append_right _ hm)
  unfold takeArray
  simp only
  rw [List.filter_eq_self.2 fun c hc => ?_]
  exact bne_iff_ne.2 fun he => hsuffix (he ▸ hc)

/-- What stands behind the name of a form: a group in parentheses and the brackets of an array. -/
structure Tail (group suffix : List Char) : Prop where
  isGroup : group = [] ∨ IsGroup group
  closing : ClosingBrackets suffix
  squeezed : Squeezed false (group ++ suffix)
  tight : Tight (group ++ suffix)

theorem ClosingBrackets.head (h : ClosingBrackets suffix) (hc : suffix.head? = some c) : c = '[' := by
  cases suffix with
  | nil => cases hc
  | cons d suffix =>
    obtain rfl := Option.some.inj hc
    have hrun := h.resolve_left (List.cons_ne_nil d suffix)
    rw [isBracketRun] at hrun
    by_contra hne
    simp [hne] at hrun

theorem ClosingBrackets.isBracketChar (h : ClosingBrackets suffix) (hc : c ∈ suffix) :
    isBracketChar c = true := by
  obtain rfl | hrun := h
  · cases hc
  · exact isBracketChar_of_run hrun hc

theorem Tail.head (h : Tail group suffix) (hc : (group ++ suffix).head? = some c) :
    c = '(' ∨ c = '[' := by
  obtain rfl | ⟨inner, rfl, -⟩ := h.isGroup
  · exact .inr (h.closing.head hc)
  · exact .inl (Option.some.inj hc).symm

theorem Tail.last (h : Tail group suffix) (hc : (group ++ suffix).getLast? = some c) : c ≠ 'y' := by
  rw [List.getLast?_append] at hc
  cases hs : suffix.getLast? with
  | some d =>
    rw [hs] at hc
    obtain rfl : d = c := Option.some.inj hc
    have := h.closing.isBracketChar (List.mem_of_getLast? hs)
    rintro rfl
    exact absurd this (by decide)
  | none =>
    rw [hs] at hc
    obtain rfl | ⟨inner, rfl, -⟩ := h.isGroup
    · cases hc
    · rw [Option.none_or, ← List.cons_append, List.getLast?_concat] at hc
      obtain rfl := Option.some.inj hc
      decide

/-- No run of closing brackets opens before the end of a group. -/
theorem IsGroup.noRunBefore (h : IsGroup group) (cs suffix : List Char) :
    NoRunBefore (cs ++ group) suffix := by
  intro before after heq
  obtain ⟨inner, rfl, -⟩ := h
  have hclose : ')' ∈ after := by
    have hends : (cs ++ '(' :: inner) ++ [')'] = before ++ '[' :: after := by simpa using heq
    have hlast := congrArg List.getLast? hends
    rw [List.getLast?_concat, List.getLast?_append_of_ne_nil _ (List.cons_ne_nil _ _)] at hlast
    exact (List.mem_cons.1 (List.mem_of_getLast? hlast.symm)).resolve_left (by decide)
  cases hrun : isBracketRun false false ('[' :: (after ++ suffix)) with
  | false => rfl
  | true =>
    have := isBracketChar_of_run hrun
      (List.mem_cons_of_mem '[' (List.mem_append_left suffix hclose))
    exact absurd this (by decide)

section
variable {name : List Char}

/-- The closing brackets behind a name and a group are found. -/
theorem takeArray_append (hname : Squeezed false name) (ht : Tail group suffix)
    (hplain : group = [] → '[' ∉ name) :
    takeArray (name ++ (group ++ suffix)) = (name ++ group, suffix) := by
  have hline : '\n' ∉ name ++ (group ++ suffix) := fun hm =>
    absurd ((hname.append ht.squeezed).eq_space hm rfl) (by decide)
  have hrun : NoRunBefore (name ++ group) suffix := by
    obtain rfl | hgroup := ht.isGroup
    · intro before after heq
      refine absurd ?_ (hplain rfl)
      rw [List.append_nil] at heq
      rw [heq]
      simp
    · exact hgroup.noRunBefore _ _
  rw [takeArray_eq_splitArray hline, ← List.append_assoc, splitArray_append hrun ht.closing]

/-- The group behind a name is found. -/
theorem cutModifier?_append (hopen : '(' ∉ name) (hgroup : IsGroup group) :
    cutModifier? (name ++ group) = some (name, group, []) :=
  cutModifier?_eq_some_iff.2 ⟨by simp, hgroup, hopen⟩

/-- A name without parentheses, followed by a group and brackets, is taken apart there. -/
theorem form_append (hname : Squeezed false name) (hopen : '(' ∉ name) (ht : Tail group suffix)
    (hplain : group = [] → ' ' ∉ name ∧ '[' ∉ name) :
    form (arrayWord (tightenAll (name ++ (group ++ suffix)))) =
      assemble (tightenAll name) group suffix := by
  have hthin := thinned_tightenAll name
  have hsqueezed := hthin.squeezed hname
  have hopen' : '(' ∉ tightenAll name := fun hm => hopen (hthin.sublist.subset hm)
  have hword : arrayWord (tightenAll name ++ (group ++ suffix)) =
      tightenAll name ++ (group ++ suffix) := by
    by_cases hnil : group ++ suffix = []
    · rw [hnil, List.append_nil]
      have hgroup := (List.append_eq_nil_iff.1 hnil).1
      exact arrayWord_of_not_mem fun hm => (hplain hgroup).1 (hthin.sublist.subset hm)
    · refine arrayWord_of_last fun c hc => ht.last ?_
      rwa [List.getLast?_append_of_ne_nil _ hnil] at hc
  have hparts : nameAndGroup (tightenAll name ++ group) = (tightenAll name, group) := by
    obtain rfl | hgroup := ht.isGroup
    · rw [List.append_nil, nameAndGroup_none (cutModifier?_of_not_mem hopen')]
    · rw [nameAndGroup_some (cutModifier?_append hopen' hgroup), squeeze_append_space,
        squeeze_eq_self hsqueezed]
  rw [tightenAll_append hname ht.tight fun c => ht.head, hword, form,
    takeArray_append hsqueezed ht fun hnil hm => (hplain hnil).2 (hthin.sublist.subset hm)]
  simp only [hparts]

/-- A name with a group behind it has the class of the name, or is an array. -/
theorem split_append (hname : Squeezed false name) (hopen : '(' ∉ name) (ht : Tail group suffix)
    (hgroup : IsGroup group) : split (String.ofList (name ++ (group ++ suffix))) =
      ⟨String.ofList name, String.ofList group, String.ofList suffix⟩ := by
  have hne : group ≠ [] := by
    obtain ⟨inner, rfl, -⟩ := hgroup
    exact List.cons_ne_nil _ _
  have htrim : trim name = name :=
    trim_eq_self (fun c hc => hname.head?_not_blank hc) fun c => hname.last_not_blank
  rw [split, String.toList_ofList, takeArray_append hname ht fun hnil => absurd hnil hne]
  simp only [cutModifier?_append hopen hgroup, List.append_nil, htrim]

end

/-! ## Letters -/

/-- An ASCII character that case folding leaves alone, unless quotes protect it. -/
def Settled (quoted : Prop) (c : Char) : Prop := c.toNat < 128 ∧ (quoted ∨ asciiLower c = c)

theorem Settled.mono {q q' : Prop} (h : Settled q c) (hq : q → q') : Settled q' c :=
  ⟨h.1, h.2.imp_left hq⟩

theorem settled_asciiLower (hc : c.toNat < 128) : Settled False (asciiLower c) := by
  have h : (asciiLower c).toNat < 128 ∧ asciiLower (asciiLower c) = asciiLower c :=
    of_ascii (P := fun c => (asciiLower c).toNat < 128 ∧ asciiLower (asciiLower c) = asciiLower c)
      (by decide +kernel) hc
  exact ⟨h.1, .inr h.2⟩

/-- The folded form of an ASCII text is the squeezed form of a text with settled characters. -/
theorem foldCase_eq_squeeze (h : ∀ c ∈ cs, c.toNat < 128) : ∃ ds, foldCase cs = squeeze ds ∧
    (∀ c ∈ ds, Settled ('"' ∈ cs) c) ∧ ('"' ∈ cs → '"' ∈ ds) := by
  have hascii : ∀ c ∈ squeeze cs, c.toNat < 128 := fun c hc =>
    (mem_squeeze hc).elim (by rintro rfl; decide) (h c)
  unfold foldCase
  simp only [List.contains_iff_mem]
  split
  · next hq =>
    have hq : '"' ∈ cs := (mem_squeeze hq).resolve_left (by decide)
    exact ⟨cs, rfl, fun c hc => ⟨h c hc, .inl hq⟩, fun _ => hq⟩
  · next hq =>
    refine ⟨cs.map asciiLower, ?_, fun c hc => ?_, fun hm =>
      absurd (mem_squeeze_of_not_blank rfl hm) hq⟩
    · rw [lowerList_of_ascii hascii, squeeze_map (fun c hc => ?_) rfl]
      exact of_ascii (P := fun c => isBlank (asciiLower c) = isBlank c) (by decide +kernel) (h c hc)
    · obtain ⟨d, hd, rfl⟩ := List.mem_map.1 hc
      exact (settled_asciiLower (h d hd)).mono False.elim

/-- Case folding leaves a squeezed text alone that quotes something or has no capitals. -/
theorem foldCase_eq_self (hs : Squeezed false cs) (h : ∀ c ∈ cs, Settled ('"' ∈ cs) c) :
    foldCase cs = cs := by
  unfold foldCase
  simp only [squeeze_eq_self hs, List.contains_iff_mem]
  split
  · rfl
  · next hq =>
    rw [lowerList_of_ascii fun c hc => (h c hc).1]
    exact (List.map_congr_left fun c hc => (h c hc).2.resolve_left hq).trans (List.map_id cs)

theorem mem_arrayWord (hc : c ∈ arrayWord cs) : c ∈ cs ∨ c = '[' ∨ c = ']' := by
  obtain ⟨front, rfl, h⟩ | h := arrayWord_cases cs
  · rw [h] at hc
    simp only [List.mem_append, List.mem_cons, List.not_mem_nil, or_false] at hc ⊢
    exact hc.imp_left .inl
  · rw [h] at hc
    exact .inl hc

theorem quote_mem_arrayWord (h : '"' ∈ cs) : '"' ∈ arrayWord cs := by
  obtain ⟨front, rfl, hfront⟩ | hsame := arrayWord_cases cs
  · rw [hfront]
    have hmem := (List.mem_append.1 h).resolve_right (by decide)
    exact List.mem_append_left _ hmem
  · rwa [hsame]

/-! ## Aliases -/

/-- The characters of short names: small letters and digits. -/
def isShortChar (c : Char) : Bool := (97 ≤ c.toNat && c.toNat ≤ 122) || isAsciiDigit c

/-- A name with a short one has no punctuation and quotes nothing. -/
theorem of_mem_aliases : ∀ e ∈ aliases, (∀ m ∈ marks, m ∉ e.1.toList) ∧ '"' ∉ e.1.toList := by
  have hall : ∀ e ∈ aliases, (marks.all fun m => m ∉ e.1.toList) = true ∧ '"' ∉ e.1.toList := by
    decide +kernel
  exact fun e he => ⟨List.all_iff_forall_prop.1 (hall e he).1, (hall e he).2⟩

/-- A short name is a plain word, which stands for itself. -/
structure IsShort (name : String) : Prop where
  chars : ∀ c ∈ name.toList, isShortChar c = true
  tight : tightenAll name.toList = name.toList
  kept : shortName name = name
  notFloat : name ≠ "float"

theorem isShort_of_mem {e : String × String} (h : e ∈ aliases) : IsShort e.2 := by
  have hall : ∀ e ∈ aliases, e.2.toList.all isShortChar = true ∧
      tightenAll e.2.toList = e.2.toList ∧ shortName e.2 = e.2 ∧ e.2 ≠ "float" := by decide +kernel
  obtain ⟨hchars, htight, hkept, hfloat⟩ := hall e h
  exact ⟨List.all_eq_true.1 hchars, htight, hkept, hfloat⟩

/-- A type has a short name, or keeps its name. -/
theorem shortName_cases (name : String) :
    (name, shortName name) ∈ aliases ∨ shortName name = name ∧ name ≠ "float" := by
  unfold shortName
  cases h : aliases.lookup name with
  | none =>
    refine .inr ⟨rfl, ?_⟩
    rintro rfl
    revert h
    decide
  | some short =>
    obtain ⟨front, back, heq, -⟩ := List.lookup_eq_some_iff.1 h
    refine .inl ?_
    rw [heq]
    simp

theorem settled_of_isBracketChar (h : isBracketChar c = true) (hc : c.toNat < 128) :
    Settled False c :=
  ⟨hc, .inr (of_ascii (P := fun c => isBracketChar c = true → asciiLower c = c) (by decide +kernel)
    hc h)⟩

theorem isShortChar_spec (h : isShortChar c = true) :
    Settled False c ∧ isBlank c = false ∧ c ≠ '(' ∧ c ≠ '[' ∧ c ≠ '"' := by
  have hc : c.toNat < 128 := by
    simp only [isShortChar, isAsciiDigit, Bool.or_eq_true, Bool.and_eq_true, decide_eq_true_eq] at h
    omega
  refine ⟨⟨hc, .inr ?_⟩, ?_⟩
  · exact of_ascii (P := fun c => isShortChar c = true → asciiLower c = c) (by decide +kernel) hc h
  · exact of_ascii (P := fun c => isShortChar c = true →
      isBlank c = false ∧ c ≠ '(' ∧ c ≠ '[' ∧ c ≠ '"') (by decide +kernel) hc h

/-! ## Types taken apart -/

section
variable {s : String}

/-- The text of a type without the brackets of an array. -/
def baseText (s : String) : List Char := (takeArray (tightText s)).1

/-- The brackets of an array type. -/
def suffixText (s : String) : List Char := (takeArray (tightText s)).2

/-- The name of a type: its text without the first group in parentheses. -/
def nameText (s : String) : List Char := (nameAndGroup (baseText s)).1

/-- The first group in parentheses of a type. -/
def groupText (s : String) : List Char := (nameAndGroup (baseText s)).2

theorem normalize_eq_assemble (s : String) :
    normalize s = assemble (nameText s) (groupText s) (suffixText s) := normalize_eq_form s

/-- A type without a group is all name; the group of another one stands in the middle of its name. -/
theorem baseText_cases (s : String) :
    (nameText s = baseText s ∧ groupText s = []) ∨
      ∃ before after, baseText s = before ++ (groupText s ++ after) ∧ IsGroup (groupText s) ∧
        '(' ∉ before ∧ nameText s = squeeze (before ++ ' ' :: after) := by
  unfold nameText groupText
  cases h : cutModifier? (baseText s) with
  | none =>
    rw [nameAndGroup_none h]
    exact .inl ⟨rfl, rfl⟩
  | some found =>
    obtain ⟨before, group, after⟩ := found
    obtain ⟨heq, hgroup, hopen⟩ := cutModifier?_eq_some_iff.1 h
    rw [nameAndGroup_some h]
    exact .inr ⟨before, after, heq, hgroup, hopen, rfl⟩

variable (hs : ∀ c ∈ s.toList, c.toNat < 128)
include hs

theorem squeezed_tightText : Squeezed false (tightText s) := by
  obtain ⟨ds, hds, -⟩ := foldCase_eq_squeeze hs
  rw [tightText]
  refine squeezed_arrayWord ((thinned_tightenAll _).squeezed ?_)
  rw [hds]
  exact squeezed_squeeze ds

theorem tight_tightText : Tight (tightText s) := by
  obtain ⟨ds, hds, -⟩ := foldCase_eq_squeeze hs
  rw [tightText]
  refine tight_arrayWord ((thinned_tightenAll _).squeezed ?_) (tight_tightenAll _)
  rw [hds]
  exact squeezed_squeeze ds

theorem settled_tightText : ∀ c ∈ tightText s, Settled ('"' ∈ s.toList) c := by
  obtain ⟨ds, hds, hsettled, -⟩ := foldCase_eq_squeeze hs
  rw [tightText]
  intro c hc
  obtain hc | rfl | rfl := mem_arrayWord hc
  · have hc := (thinned_tightenAll _).sublist.subset hc
    rw [hds] at hc
    obtain rfl | hc := mem_squeeze hc
    · exact ⟨by decide, .inr (by decide)⟩
    · exact hsettled c hc
  · exact ⟨by decide, .inr (by decide)⟩
  · exact ⟨by decide, .inr (by decide)⟩

theorem quote_mem_tightText (hq : '"' ∈ s.toList) : '"' ∈ tightText s := by
  obtain ⟨ds, hds, -, hquote⟩ := foldCase_eq_squeeze hs
  rw [tightText]
  refine quote_mem_arrayWord ((thinned_tightenAll _).mem rfl ?_)
  rw [hds]
  exact mem_squeeze_of_not_blank rfl (hquote hq)

theorem tightText_eq : tightText s = baseText s ++ suffixText s ∧ ClosingBrackets (suffixText s) := by
  have hline : '\n' ∉ tightText s := fun hm =>
    absurd ((squeezed_tightText hs).eq_space hm rfl) (by decide)
  rw [baseText, suffixText, takeArray_eq_splitArray hline]
  exact ⟨(splitArray_spec _).1, (splitArray_spec _).2.1⟩

theorem suffixText_right (hc : (suffixText s).head? = some c) : isBlank c = false := by
  rw [(tightText_eq hs).2.head hc]
  rfl

theorem squeezed_suffixText : Squeezed false (suffixText s) := by
  have h := squeezed_tightText hs
  rw [(tightText_eq hs).1] at h
  exact h.right fun c => suffixText_right hs

theorem tight_suffixText : Tight (suffixText s) := by
  have h := tight_tightText hs
  rw [(tightText_eq hs).1] at h
  exact h.right

theorem squeezed_baseText : Squeezed false (baseText s) := by
  have hsqueezed := squeezed_tightText hs
  have htight := tight_tightText hs
  obtain ⟨heq, hclosing⟩ := tightText_eq hs
  rw [heq] at hsqueezed htight
  cases hsuffix : suffixText s with
  | nil => rwa [hsuffix, List.append_nil] at hsqueezed
  | cons d suffix =>
    obtain rfl : d = '[' := hclosing.head (by rw [hsuffix]; rfl)
    rw [hsuffix] at hsqueezed htight
    exact hsqueezed.left fun c => htight.last_not_blank

theorem squeezed_nameText : Squeezed false (nameText s) := by
  obtain ⟨hname, -⟩ | ⟨before, after, -, -, -, hname⟩ := baseText_cases s
  · rw [hname]
    exact squeezed_baseText hs
  · rw [hname]
    exact squeezed_squeeze _

theorem tail_groupText : Tail (groupText s) (suffixText s) := by
  have hsuffix := squeezed_suffixText hs
  have htight := tight_suffixText hs
  have hclosing := (tightText_eq hs).2
  obtain ⟨-, hgroup⟩ | ⟨before, after, hbase, hgroup, -, -⟩ := baseText_cases s
  · rw [hgroup]
    exact ⟨.inl rfl, hclosing, hsuffix, htight⟩
  · have hall := tight_tightText hs
    have hsqueezed := squeezed_baseText hs
    rw [(tightText_eq hs).1, hbase, List.append_assoc, List.append_assoc] at hall
    rw [hbase] at hsqueezed
    have hgroupTight : Tight (groupText s) := hall.right.left
    have hgroupSqueezed : Squeezed false (groupText s) := by
      obtain ⟨inner, hinner, -⟩ := hgroup
      rw [hinner] at hsqueezed ⊢
      refine (hsqueezed.right fun c hc => ?_).left fun c hc => ?_
      · obtain rfl := Option.some.inj hc
        rfl
      · rw [← List.cons_append, List.getLast?_concat] at hc
        obtain rfl := Option.some.inj hc
        rfl
    refine ⟨.inr hgroup, hclosing, hgroupSqueezed.append hsuffix, ?_⟩
    rw [← tightenAll_eq_self_iff, tightenAll_append hgroupSqueezed htight fun c hc =>
      .inr (hclosing.head hc), tightenAll_eq_self hgroupTight]

theorem settled_parts : (∀ c ∈ nameText s, Settled ('"' ∈ s.toList) c) ∧
    (∀ c ∈ groupText s ++ suffixText s, Settled ('"' ∈ s.toList) c) := by
  have hall := settled_tightText hs
  rw [(tightText_eq hs).1] at hall
  obtain ⟨hname, hgroup⟩ | ⟨before, after, hbase, -, -, hname⟩ := baseText_cases s
  · rw [hname, hgroup]
    exact ⟨fun c hc => hall c (List.mem_append_left _ hc),
      fun c hc => hall c (List.mem_append_right _ hc)⟩
  · rw [hbase] at hall
    rw [hname]
    constructor
    · intro c hc
      rcases mem_squeeze hc with rfl | hc
      · exact ⟨by decide, .inr (by decide)⟩
      · rcases List.mem_append.1 hc with hc | hc
        · exact hall c (by simp [hc])
        · rcases List.mem_cons.1 hc with rfl | hc
          · exact ⟨by decide, .inr (by decide)⟩
          · exact hall c (by simp [hc])
    · intro c hc
      rcases List.mem_append.1 hc with hc | hc
      · exact hall c (by simp [hc])
      · exact hall c (by simp [hc])

/-- What a type quotes stands in its name or in its group. -/
theorem quote_mem_parts (hq : '"' ∈ s.toList) : '"' ∈ nameText s ∨ '"' ∈ groupText s := by
  have hall := quote_mem_tightText hs hq
  obtain ⟨heq, hclosing⟩ := tightText_eq hs
  rw [heq] at hall
  have hbase := (List.mem_append.1 hall).resolve_right fun hm =>
    absurd (hclosing.isBracketChar hm) (by decide)
  obtain ⟨hname, -⟩ | ⟨before, after, hbaseEq, -, -, hname⟩ := baseText_cases s
  · rw [hname]
    exact .inl hbase
  · rw [hbaseEq, List.mem_append, List.mem_append] at hbase
    rw [hname]
    obtain hm | hm | hm := hbase
    · exact .inl (mem_squeeze_of_not_blank rfl (List.mem_append_left _ hm))
    · exact .inr hm
    · exact .inl (mem_squeeze_of_not_blank rfl
        (List.mem_append_right _ (List.mem_cons_of_mem ' ' hm)))

end

/-! ## Normal forms that are written and read -/

section
variable {s : String}

/-- A type has at most one group in parentheses. -/
def OneGroup (s : String) : Prop :=
  ∀ before group after, cutModifier? (baseText s) = some (before, group, after) → '(' ∉ after

theorem toList_assemble (name group suffix : List Char) : (assemble name group suffix).toList =
    (shortName (String.ofList name)).toList ++
      ((if String.ofList name = "float" then [] else group) ++ suffix) := by
  simp [assemble]

theorem assemble_of_kept {name group suffix : List Char}
    (h : shortName (String.ofList name) = String.ofList name) (hf : String.ofList name ≠ "float") :
    assemble name group suffix = String.ofList (name ++ (group ++ suffix)) := by
  rw [← String.toList_inj, toList_assemble, if_neg hf, h, String.toList_ofList, String.toList_ofList]

/-- Writing a form does not change what is read. -/
theorem normalize_render (h : ∀ c ∈ s.toList, c.toNat < 128) :
    normalize (render s) = normalize s := by
  unfold render
  split
  · rfl
  · next hq => exact normalize_upper h (by rwa [List.contains_iff_mem] at hq)

/-- A name without parentheses, followed by a group and brackets, is read again up to blanks. -/
theorem normalize_ofList {name group suffix : List Char} (hname : Squeezed false name)
    (hopen : '(' ∉ name) (ht : Tail group suffix) (hplain : group = [] → ' ' ∉ name ∧ '[' ∉ name)
    (hsettled : ∀ c ∈ name ++ (group ++ suffix), Settled ('"' ∈ name ++ (group ++ suffix)) c) :
    normalize (String.ofList (name ++ (group ++ suffix))) =
      assemble (tightenAll name) group suffix := by
  rw [normalize_eq_form, tightText, String.toList_ofList,
    foldCase_eq_self (hname.append ht.squeezed) hsettled, form_append hname hopen ht hplain]

/-- A short name, followed by a group and brackets, is a normal form. -/
theorem normalize_short {short : String} {group suffix : List Char} (hshort : IsShort short)
    (ht : Tail group suffix)
    (hsettled : ∀ c ∈ group ++ suffix, Settled ('"' ∈ short.toList ++ (group ++ suffix)) c) :
    normalize (String.ofList (short.toList ++ (group ++ suffix))) =
      String.ofList (short.toList ++ (group ++ suffix)) := by
  have hchar {c : Char} (hc : c ∈ short.toList) := isShortChar_spec (hshort.chars c hc)
  have hsqueezed : Squeezed false short.toList := .of_not_blank fun c hc => (hchar hc).2.1
  rw [normalize_ofList hsqueezed (fun hm => (hchar hm).2.2.1 rfl) ht, hshort.tight, assemble_of_kept]
  · rw [String.ofList_toList, hshort.kept]
  · rw [String.ofList_toList]
    exact hshort.notFloat
  · exact fun _ => ⟨fun hm => absurd (hchar hm).2.1 (by decide), fun hm => (hchar hm).2.2.2.1 rfl⟩
  · intro c hc
    rcases List.mem_append.1 hc with hc | hc
    · exact (hchar hc).1.mono False.elim
    · exact hsettled c hc

/-- The normal form of a type with a short name is its own normal form. -/
theorem normalize_normalize_of_alias (hs : ∀ c ∈ s.toList, c.toNat < 128)
    (halias : (String.ofList (nameText s), shortName (String.ofList (nameText s))) ∈ aliases) :
    normalize (normalize s) = normalize s := by
  have hshort := isShort_of_mem halias
  have htail := tail_groupText hs
  have hclosing := (tightText_eq hs).2
  have hsettled := (settled_parts hs).2
  have hname : '"' ∉ nameText s := by
    have := (of_mem_aliases _ halias).2
    rwa [String.toList_ofList] at this
  have hform : normalize s = String.ofList ((shortName (String.ofList (nameText s))).toList ++
      ((if String.ofList (nameText s) = "float" then [] else groupText s) ++ suffixText s)) := by
    rw [normalize_eq_assemble, ← toList_assemble, String.ofList_toList]
  rw [hform]
  split
  · -- the length of a `float` is gone, and with it what it may have quoted
    refine normalize_short hshort ⟨.inl rfl, hclosing, squeezed_suffixText hs, tight_suffixText hs⟩
      fun c hc => ?_
    exact (settled_of_isBracketChar (hclosing.isBracketChar hc)
      (hsettled c (List.mem_append_right _ hc)).1).mono False.elim
  · refine normalize_short hshort htail fun c hc => (hsettled c hc).mono fun hq => ?_
    have hmem := (quote_mem_parts hs hq).resolve_left hname
    exact List.mem_append_right _ (List.mem_append_left _ hmem)

theorem tight_of_shortName {name group : List Char} (hgroup : IsGroup group)
    (h : (shortName (String.ofList (tightenAll name))).toList ++
      (if String.ofList (tightenAll name) = "float" then [] else group) = name ++ group) :
    tightenAll name = name := by
  rcases shortName_cases (String.ofList (tightenAll name)) with halias | ⟨hkept, hfloat⟩
  · have hshort := isShort_of_mem halias
    split at h
    · -- a short name has no group
      obtain ⟨inner, rfl, -⟩ := hgroup
      rw [List.append_nil] at h
      have hopen : '(' ∈ (shortName (String.ofList (tightenAll name))).toList := by
        rw [h]
        simp
      exact absurd (hshort.chars '(' hopen) (by decide)
    · rw [← List.append_cancel_right h]
      exact hshort.tight
  · rw [if_neg hfloat, hkept, String.toList_ofList] at h
    exact List.append_cancel_right h

section
variable (hs : ∀ c ∈ s.toList, c.toNat < 128)
  (hkept : shortName (String.ofList (nameText s)) = String.ofList (nameText s))
  (hfloat : String.ofList (nameText s) ≠ "float")
include hs hkept hfloat

theorem normalize_of_kept :
    normalize s = String.ofList (nameText s ++ (groupText s ++ suffixText s)) ∧
      ∀ c ∈ nameText s ++ (groupText s ++ suffixText s),
        Settled ('"' ∈ nameText s ++ (groupText s ++ suffixText s)) c := by
  have hquote (hq : '"' ∈ s.toList) : '"' ∈ nameText s ++ (groupText s ++ suffixText s) := by
    rcases quote_mem_parts hs hq with hm | hm
    · exact List.mem_append_left _ hm
    · exact List.mem_append_right _ (List.mem_append_left _ hm)
  obtain ⟨hname, htail⟩ := settled_parts hs
  refine ⟨by rw [normalize_eq_assemble, assemble_of_kept hkept hfloat], fun c hc => ?_⟩
  rcases List.mem_append.1 hc with hc | hc
  · exact (hname c hc).mono hquote
  · exact (htail c hc).mono hquote

/-- Without a group, the normal form is the text that it was made of. -/
theorem normalize_normalize_of_name (hname : nameText s = baseText s) (hgroup : groupText s = []) :
    normalize (normalize s) = normalize s := by
  obtain ⟨hform, hsettled⟩ := normalize_of_kept hs hkept hfloat
  have htext : nameText s ++ (groupText s ++ suffixText s) = tightText s := by
    rw [hname, hgroup, List.nil_append, (tightText_eq hs).1]
  have hword : arrayWord (tightText s) = tightText s := by
    rw [tightText, arrayWord_arrayWord]
  rw [htext] at hform hsettled
  have hagain : tightText (normalize s) = tightText s := by
    conv_lhs => rw [hform, tightText, String.toList_ofList]
    rw [foldCase_eq_self (squeezed_tightText hs) hsettled, tightenAll_eq_self (tight_tightText hs),
      hword]
  rw [normalize_eq_form, hagain, ← normalize_eq_form]

/-- With a group, the blanks around punctuation in the name go when the normal form is read. -/
theorem normalize_normalize_of_group (hone : OneGroup s) (hgroup : IsGroup (groupText s)) :
    '(' ∉ nameText s ∧
      normalize (normalize s) = assemble (tightenAll (nameText s)) (groupText s) (suffixText s) := by
  obtain ⟨hform, hsettled⟩ := normalize_of_kept hs hkept hfloat
  have hne : groupText s ≠ [] := by
    obtain ⟨inner, hinner, -⟩ := hgroup
    rw [hinner]
    exact List.cons_ne_nil _ _
  have hopen : '(' ∉ nameText s := by
    obtain ⟨-, hnil⟩ | ⟨before, after, hbase, -, hbefore, hname⟩ := baseText_cases s
    · exact absurd hnil hne
    · have hcut := cutModifier?_eq_some_iff.2 ⟨hbase, hgroup, hbefore⟩
      rw [hname]
      intro hm
      have hm := (mem_squeeze hm).resolve_left (by decide)
      rcases List.mem_append.1 hm with hm | hm
      · exact hbefore hm
      · exact hone _ _ _ hcut ((List.mem_cons.1 hm).resolve_left (by decide))
  refine ⟨hopen, ?_⟩
  rw [hform, normalize_ofList (squeezed_nameText hs) hopen (tail_groupText hs)
    (fun hnil => absurd hnil hne) hsettled]

/-- The normal form of a type that keeps its name is its own normal form just if the name is tight. -/
theorem normalize_normalize_of_kept (hone : OneGroup s) :
    normalize (normalize s) = normalize s ↔ tightenAll (nameText s) = nameText s := by
  have hform := (normalize_of_kept hs hkept hfloat).1
  obtain ⟨hname, hgroup⟩ | ⟨-, -, -, hgroup, -, -⟩ := baseText_cases s
  · have htight := tight_tightText hs
    rw [(tightText_eq hs).1, ← hname] at htight
    exact iff_of_true (normalize_normalize_of_name hs hkept hfloat hname hgroup)
      (tightenAll_eq_self htight.left)
  · rw [(normalize_normalize_of_group hs hkept hfloat hone hgroup).2]
    constructor
    · intro heq
      have hlist := congrArg String.toList heq
      rw [hform, toList_assemble, String.toList_ofList, ← List.append_assoc, ← List.append_assoc,
        List.append_cancel_right_eq] at hlist
      exact tight_of_shortName hgroup hlist
    · intro htight
      rw [htight, ← normalize_eq_assemble]

end

/-! ## Classes -/

theorem category_of_mark {m : Char} {base group suffix : String} (hm : m ∈ marks)
    (hbase : m ∈ base.toList) (h : split s = ⟨base, group, suffix⟩) :
    category s = if suffix.isEmpty then .string else .array := by
  have hplain : ∀ t ∈ "bool" :: "json" :: "jsonb" :: numberTypes,
      (marks.all fun m => m ∉ t.toList) = true := by decide +kernel
  have hother {t : String} (ht : t ∈ "bool" :: "json" :: "jsonb" :: numberTypes) : base ≠ t := by
    rintro rfl
    exact List.all_iff_forall_prop.1 (hplain _ ht) m hm hbase
  have hnumber : numberTypes.contains base = false := by
    rw [Bool.eq_false_iff, ne_eq, List.contains_iff_mem]
    exact fun hmem => hother (by simp [hmem]) rfl
  rw [category, h]
  simp only [hnumber, hother (t := "bool") (by simp), hother (t := "json") (by simp),
    hother (t := "jsonb") (by simp)]
  cases suffix.isEmpty <;> simp

theorem ascii_normalize (hs : ∀ c ∈ s.toList, c.toNat < 128) :
    ∀ c ∈ (normalize s).toList, c.toNat < 128 := by
  obtain ⟨hname, htail⟩ := settled_parts hs
  rw [normalize_eq_assemble, toList_assemble]
  intro c hc
  rcases List.mem_append.1 hc with hc | hc
  · rcases shortName_cases (String.ofList (nameText s)) with halias | ⟨hkept, -⟩
    · exact (isShortChar_spec ((isShort_of_mem halias).chars c hc)).1.1
    · rw [hkept, String.toList_ofList] at hc
      exact (hname c hc).1
  · refine (htail c ?_).1
    split at hc
    · exact List.mem_append_right _ hc
    · exact hc

/-- A name that is not tight has punctuation, and keeps it when it is tightened. -/
theorem exists_mark {name : List Char} (h : tightenAll name ≠ name) :
    ∃ m ∈ marks, m ∈ name ∧ m ∈ tightenAll name := by
  by_contra hnone
  refine h (tightenAll_eq_self (tight_of_not_mem fun m hm hmem => hnone ⟨m, hm, hmem, ?_⟩))
  have hblank : ∀ m ∈ marks, isBlank m = false := List.all_iff_forall_prop.1 (by decide)
  exact (thinned_tightenAll name).mem (hblank m hm) hmem

/-- **Types that are written and read again.** A type with at most one group in parentheses has a
    normal form that is read as it was, once it is written in capitals, if and only if its name without
    the group has no blanks around punctuation. The class of the type is the same in any case. -/
theorem normalize_render_normalize (hs : ∀ c ∈ s.toList, c.toNat < 128) (hone : OneGroup s) :
    (normalize (render (normalize s)) = normalize s ↔ tightenAll (nameText s) = nameText s) ∧
      category (normalize (render (normalize s))) = category (normalize s) := by
  rw [normalize_render (ascii_normalize hs)]
  rcases shortName_cases (String.ofList (nameText s)) with halias | ⟨hkept, hfloat⟩
  · have hsame := normalize_normalize_of_alias hs halias
    have hmarks := (of_mem_aliases _ halias).1
    rw [String.toList_ofList] at hmarks
    exact ⟨iff_of_true hsame (tightenAll_eq_self (tight_of_not_mem hmarks)), congrArg category hsame⟩
  · have hiff := normalize_normalize_of_kept hs hkept hfloat hone
    refine ⟨hiff, ?_⟩
    by_cases htight : tightenAll (nameText s) = nameText s
    · rw [hiff.2 htight]
    · obtain ⟨hname, hgroup⟩ | ⟨-, -, -, hgroup, -, -⟩ := baseText_cases s
      · rw [normalize_normalize_of_name hs hkept hfloat hname hgroup]
      · -- neither name is that of a type with a class of its own
        obtain ⟨m, hm, hmem, hmem'⟩ := exists_mark htight
        obtain ⟨hopen, hagain⟩ := normalize_normalize_of_group hs hkept hfloat hone hgroup
        have hopen' : '(' ∉ tightenAll (nameText s) := fun h =>
          hopen ((thinned_tightenAll _).sublist.subset h)
        have hkept' : shortName (String.ofList (tightenAll (nameText s))) =
            String.ofList (tightenAll (nameText s)) ∧
            String.ofList (tightenAll (nameText s)) ≠ "float" := by
          refine (shortName_cases _).resolve_left fun halias => ?_
          exact (of_mem_aliases _ halias).1 m hm (by rwa [String.toList_ofList])
        have htail := tail_groupText hs
        have hsqueezed := squeezed_nameText hs
        have hsqueezed' := (thinned_tightenAll (nameText s)).squeezed hsqueezed
        rw [hagain, assemble_of_kept hkept'.1 hkept'.2, (normalize_of_kept hs hkept hfloat).1,
          category_of_mark hm (by rwa [String.toList_ofList])
            (split_append hsqueezed' hopen' htail hgroup),
          category_of_mark hm (by rwa [String.toList_ofList])
            (split_append hsqueezed hopen htail hgroup)]

end

/-- The length of a time stamp goes to the end, and the type is read as it was. -/
theorem normalize_render_normalize_timestamp :
    let s := "timestamp (3) without time zone []"
    (∀ c ∈ s.toList, c.toNat < 128) ∧ OneGroup s ∧ normalize s = "timestamp(3)[]" ∧
      normalize (render (normalize s)) = normalize s ∧
      category (normalize (render (normalize s))) = category (normalize s) := by
  intro s
  have hs : ∀ c ∈ s.toList, c.toNat < 128 := List.all_iff_forall_prop.1 (by decide +kernel)
  have hcut : cutModifier? (baseText s) =
      some ("timestamp".toList, "(3)".toList, " without time zone".toList) := by
    rw [baseText, tightText]
    decide +kernel
  have hone : OneGroup s := by
    intro before group after h
    rw [hcut] at h
    cases h
    decide
  obtain ⟨hiff, hcategory⟩ := normalize_render_normalize hs hone
  refine ⟨hs, hone, by decide +kernel, hiff.2 ?_, hcategory⟩
  rw [nameText, nameAndGroup_some hcut]
  decide +kernel

/-- Of two groups, the first one goes to the end each time that the type is read. -/
theorem not_normalize_render_normalize : (∀ c ∈ "a(1)(2)".toList, c.toNat < 128) ∧
    normalize "a(1)(2)" = "a (2)(1)" ∧ normalize (render (normalize "a(1)(2)")) = "a (1)(2)" :=
  ⟨List.all_iff_forall_prop.1 (by decide +kernel), by decide +kernel, by decide +kernel⟩

end Schemata.TypeText
