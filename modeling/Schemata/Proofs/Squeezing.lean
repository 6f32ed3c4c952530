/-
  Texts with single spaces between their words.

  * `Squeezed`: every blank is a space between two words; `squeezed_squeeze`, `squeeze_eq_self`: these
    are the squeezed forms of texts;
  * `Thinned cs ds`: the second text is the first one without some of its blanks; what is thinned stays
    squeezed.
-/
import Schemata.Text.Blank

namespace Schemata.Text

variable {c : Char} {cs ds es : List Char} {inWord : Bool}

/-! ## Squeezed texts -/

/-- Every blank is a space after a word and before another one; `inWord` says whether the text
    continues a word. -/
inductive Squeezed : Bool → List Char → Prop
  | nil {inWord : Bool} : Squeezed inWord []
  | char {inWord : Bool} {c : Char} {cs : List Char} :
      isBlank c = false → Squeezed true cs → Squeezed inWord (c :: cs)
  | space {cs : List Char} : cs ≠ [] → Squeezed false cs → Squeezed true (' ' :: cs)

namespace Squeezed

theorem mono (h : Squeezed false cs) : Squeezed inWord cs := by
  cases h with
  | nil => exact nil
  | char hc h => exact char hc h

theorem head_not_blank (h : Squeezed false (c :: cs)) : isBlank c = false := by
  cases h with
  | char hc h => exact hc

theorem head?_not_blank (h : Squeezed false cs) (hc : cs.head? = some c) : isBlank c = false := by
  cases cs with
  | nil => cases hc
  | cons d cs =>
    obtain rfl := Option.some.inj hc
    exact h.head_not_blank

/-- The end of a squeezed text is squeezed, but for its first character. -/
theorem exists_right (h : Squeezed inWord (cs ++ ds)) : ∃ inWord', Squeezed inWord' ds := by
  induction cs generalizing inWord with
  | nil => exact ⟨inWord, h⟩
  | cons c cs ih =>
    cases h with
    | char hc h => exact ih h
    | space hne h => exact ih h

/-- The end of a squeezed text is squeezed if it starts with no blank. -/
theorem right (h : Squeezed inWord (cs ++ ds)) (hhead : ∀ c, ds.head? = some c → isBlank c = false) :
    Squeezed false ds := by
  obtain ⟨inWord', hds⟩ := h.exists_right
  cases hds with
  | nil => exact nil
  | char hc hds => exact char hc hds
  | space hne hds => exact absurd (hhead ' ' rfl) (by decide)

/-- A squeezed text ends with no blank. -/
theorem last_not_blank (h : Squeezed inWord cs) (hc : cs.getLast? = some c) : isBlank c = false := by
  obtain ⟨front, rfl⟩ := List.getLast?_eq_some_iff.1 hc
  obtain ⟨inWord', h⟩ := h.exists_right
  cases h with
  | char hc h => exact hc
  | space hne h => exact absurd rfl hne

theorem not_space : ¬Squeezed false (' ' :: cs) := fun h => absurd h.head_not_blank (by decide)

/-- What stands before a space of a squeezed text is not empty and ends with no blank. -/
theorem before_space (h : Squeezed false (cs ++ ' ' :: ds)) :
    cs ≠ [] ∧ ∀ c, cs.getLast? = some c → isBlank c = false := by
  refine ⟨fun hnil => ?_, fun c hc => ?_⟩
  · subst hnil
    exact not_space h
  · obtain ⟨front, rfl⟩ := List.getLast?_eq_some_iff.1 hc
    rw [List.append_assoc] at h
    obtain ⟨inWord', h⟩ := h.exists_right
    cases h with
    | char hc h => exact hc
    | space hne h => exact absurd h not_space

/-- The front of a squeezed text is squeezed if it ends with no blank. -/
theorem left (h : Squeezed inWord (cs ++ ds))
    (hlast : ∀ c, cs.getLast? = some c → isBlank c = false) : Squeezed inWord cs := by
  induction cs generalizing inWord with
  | nil => exact nil
  | cons c cs ih =>
    have hrest : ∀ d, cs.getLast? = some d → isBlank d = false := fun d hd =>
      hlast d (by rw [List.getLast?_cons, hd]; rfl)
    cases h with
    | char hc h => exact char hc (ih h hrest)
    | space hne h =>
      refine space (fun hnil => ?_) (ih h hrest)
      subst hnil
      exact absurd (hlast ' ' rfl) (by decide)

/-- The only blank of a squeezed text is the space. -/
theorem eq_space (h : Squeezed inWord cs) (hm : c ∈ cs) (hc : isBlank c = true) : c = ' ' := by
  induction h with
  | nil => cases hm
  | char hd h ih =>
    rcases List.mem_cons.1 hm with rfl | hm
    · rw [hd] at hc
      cases hc
    · exact ih hm
  | space hne h ih => exact (List.mem_cons.1 hm).elim id ih

theorem append (h : Squeezed inWord cs) (h' : Squeezed false ds) : Squeezed inWord (cs ++ ds) := by
  induction h with
  | nil => exact h'.mono
  | char hc h ih => exact char hc ih
  | space hne h ih => exact space (List.append_ne_nil_of_left_ne_nil hne ds) ih

/-- A text without blanks is squeezed. -/
theorem of_not_blank (h : ∀ c ∈ cs, isBlank c = false) : Squeezed inWord cs := by
  induction cs generalizing inWord with
  | nil => exact nil
  | cons c cs ih =>
    exact char (h c List.mem_cons_self) (ih fun d hd => h d (List.mem_cons_of_mem c hd))

/-- A word that is not empty may be followed by anything that continues a word. -/
theorem word_append {w : List Char} (hw : ∀ c ∈ w, isBlank c = false) (hne : w ≠ [])
    (h : Squeezed true cs) : Squeezed inWord (w ++ cs) := by
  induction w generalizing inWord with
  | nil => exact absurd rfl hne
  | cons c w ih =>
    refine char (hw c List.mem_cons_self) ?_
    cases w with
    | nil => exact h
    | cons d w => exact ih (fun e he => hw e (List.mem_cons_of_mem c he)) (List.cons_ne_nil d w)

end Squeezed

/-! ## Squeezing -/

/-- The squeezed form of words is squeezed. -/
theorem squeezed_intercalate {ws : List (List Char)}
    (h : ∀ w ∈ ws, w ≠ [] ∧ ∀ c ∈ w, isBlank c = false) : Squeezed false ([' '].intercalate ws) := by
  induction ws with
  | nil => exact .nil
  | cons w ws ih =>
    obtain ⟨hne, hw⟩ := h w List.mem_cons_self
    have ih := ih fun v hv => h v (List.mem_cons_of_mem w hv)
    cases ws with
    | nil =>
      rw [List.intercalate_singleton]
      exact .of_not_blank hw
    | cons v ws =>
      rw [List.intercalate_cons_cons, List.append_assoc]
      refine .word_append hw hne (.space ?_ ih)
      have hv := (h v (List.mem_cons_of_mem w List.mem_cons_self)).1
      cases ws with
      | nil => rwa [List.intercalate_singleton]
      | cons u ws =>
        rw [List.intercalate_cons_cons, List.append_assoc]
        exact List.append_ne_nil_of_left_ne_nil hv _

theorem wordsFrom_filled {cur : List Char} (hcur : ∀ c ∈ cur, isBlank c = false) :
    ∀ w ∈ wordsFrom cur cs, w ≠ [] ∧ ∀ c ∈ w, isBlank c = false := by
  fun_induction wordsFrom cur cs with
  | case1 => nofun
  | case2 cur hne =>
    intro w hw
    rw [List.mem_singleton.1 hw]
    exact ⟨by simpa using hne, fun c hc => hcur c (List.mem_reverse.1 hc)⟩
  | case3 c cs cur hc hne ih => exact ih nofun
  | case4 cur c cs hc hne ih =>
    intro w hw
    rcases List.mem_cons.1 hw with rfl | hw
    · exact ⟨by simpa using hne, fun c hc => hcur c (List.mem_reverse.1 hc)⟩
    · exact ih nofun w hw
  | case5 cur c cs hc ih =>
    refine ih fun d hd => ?_
    rcases List.mem_cons.1 hd with rfl | hd
    · simpa using hc
    · exact hcur d hd

theorem squeezed_squeeze (cs : List Char) : Squeezed false (squeeze cs) :=
  squeezed_intercalate (wordsFrom_filled nofun)

theorem exists_mem_wordsFrom {cur : List Char} (hc : isBlank c = false) (h : c ∈ cur ∨ c ∈ cs) :
    ∃ w ∈ wordsFrom cur cs, c ∈ w := by
  fun_induction wordsFrom cur cs with
  | case1 cur hcur =>
    rw [List.isEmpty_iff.1 hcur] at h
    simp at h
  | case2 cur => exact ⟨cur.reverse, List.mem_singleton_self _, by simpa using h⟩
  | case3 d cs cur hd hcur ih =>
    refine ih (.inr ?_)
    rw [List.isEmpty_iff.1 hcur] at h
    refine (List.mem_cons.1 (h.resolve_left List.not_mem_nil)).resolve_left fun he => ?_
    rw [he, hd] at hc
    cases hc
  | case4 cur d cs hd hcur ih =>
    rcases h with h | h
    · exact ⟨cur.reverse, List.mem_cons_self, List.mem_reverse.2 h⟩
    · have hmem := (List.mem_cons.1 h).resolve_left fun he => by
        rw [he, hd] at hc
        cases hc
      obtain ⟨w, hw, hcw⟩ := ih (.inr hmem)
      exact ⟨w, List.mem_cons_of_mem _ hw, hcw⟩
  | case5 cur d cs hd ih =>
    refine ih ?_
    rcases h with h | h
    · exact .inl (List.mem_cons_of_mem d h)
    · rcases List.mem_cons.1 h with rfl | h
      · exact .inl List.mem_cons_self
      · exact .inr h

theorem mem_intercalate {sep w : List Char} {ws : List (List Char)} (hw : w ∈ ws) (hc : c ∈ w) :
    c ∈ sep.intercalate ws := by
  induction ws with
  | nil => cases hw
  | cons v ws ih =>
    cases ws with
    | nil =>
      rw [List.mem_singleton.1 hw] at hc
      rwa [List.intercalate_singleton]
    | cons u ws =>
      rw [List.intercalate_cons_cons]
      rcases List.mem_cons.1 hw with rfl | hw
      · exact List.mem_append_left _ (List.mem_append_left _ hc)
      · exact List.mem_append_right _ (ih hw)

/-- Squeezing keeps the characters that are no blanks. -/
theorem mem_squeeze_of_not_blank (hc : isBlank c = false) (h : c ∈ cs) : c ∈ squeeze cs := by
  have hword : ∃ w ∈ wordsFrom [] cs, c ∈ w := exists_mem_wordsFrom hc (.inr h)
  obtain ⟨w, hw, hcw⟩ := hword
  exact mem_intercalate hw hcw

theorem wordsFrom_space (cur : List Char) : wordsFrom cur (cs ++ [' ']) = wordsFrom cur cs := by
  induction cs generalizing cur with
  | nil => cases cur <;> rfl
  | cons c cs ih =>
    rw [List.cons_append, wordsFrom, wordsFrom, ih, ih]

/-- A space at the end does not count. -/
theorem squeeze_append_space (cs : List Char) : squeeze (cs ++ [' ']) = squeeze cs := by
  rw [squeeze, words, wordsFrom_space]
  rfl

theorem wordsFrom_ne_nil {cur : List Char} (h : cur ≠ []) : wordsFrom cur cs ≠ [] := by
  fun_induction wordsFrom cur cs with
  | case1 cur hcur => exact absurd (List.isEmpty_iff.1 hcur) h
  | case2 => exact List.cons_ne_nil _ _
  | case3 c cs cur hc hcur => exact absurd (List.isEmpty_iff.1 hcur) h
  | case4 => exact List.cons_ne_nil _ _
  | case5 cur c cs hc ih => exact ih (List.cons_ne_nil c cur)

theorem intercalate_wordsFrom {cur : List Char} (h : Squeezed inWord cs)
    (hcur : inWord = true ↔ cur ≠ []) : [' '].intercalate (wordsFrom cur cs) = cur.reverse ++ cs := by
  induction h generalizing cur with
  | nil => cases cur <;> simp [wordsFrom]
  | char hc h ih =>
    rw [wordsFrom, hc, if_neg Bool.false_ne_true, ih (by simp)]
    simp
  | @space cs hne h ih =>
    obtain ⟨d, cs, rfl⟩ := List.exists_cons_of_ne_nil hne
    have hfirst : wordsFrom [] (d :: cs) = wordsFrom [d] cs := by
      rw [wordsFrom, h.head_not_blank]
      rfl
    obtain ⟨w, ws, hws⟩ := List.exists_cons_of_ne_nil
      (wordsFrom_ne_nil (List.cons_ne_nil d []) : wordsFrom [d] cs ≠ [])
    have hrest : [' '].intercalate (wordsFrom [] (d :: cs)) = d :: cs := ih (by simp)
    have hempty : cur.isEmpty = false := by simpa using hcur.1 rfl
    rw [wordsFrom, if_pos (by decide), hempty, if_neg Bool.false_ne_true]
    rw [hfirst, hws] at hrest ⊢
    rw [List.intercalate_cons_cons, hrest]
    simp

/-- A squeezed text is its own squeezed form. -/
theorem squeeze_eq_self (h : Squeezed false cs) : squeeze cs = cs :=
  intercalate_wordsFrom h (by simp)

/-! ## Texts without some of their blanks -/

/-- The second text is the first one without some of its blanks. -/
inductive Thinned : List Char → List Char → Prop
  | nil : Thinned [] []
  | keep (c : Char) {cs ds : List Char} : Thinned cs ds → Thinned (c :: cs) (c :: ds)
  | drop {c : Char} {cs ds : List Char} : isBlank c = true → Thinned cs ds → Thinned (c :: cs) ds

namespace Thinned

theorem refl : ∀ cs : List Char, Thinned cs cs
  | [] => nil
  | c :: cs => keep c (refl cs)

theorem trans (h : Thinned cs ds) (h' : Thinned ds es) : Thinned cs es := by
  induction h generalizing es with
  | nil => exact h'
  | keep c h ih =>
    cases h' with
    | keep _ h' => exact keep c (ih h')
    | drop hc h' => exact drop hc (ih h')
  | drop hc h ih => exact drop hc (ih h')

theorem append {cs' ds' : List Char} (h : Thinned cs ds) (h' : Thinned cs' ds') :
    Thinned (cs ++ cs') (ds ++ ds') := by
  induction h with
  | nil => exact h'
  | keep c h ih => exact keep c ih
  | drop hc h ih => exact drop hc ih

theorem of_blank (h : ∀ c ∈ cs, isBlank c = true) : Thinned cs [] := by
  induction cs with
  | nil => exact nil
  | cons c cs ih =>
    exact drop (h c List.mem_cons_self) (ih fun d hd => h d (List.mem_cons_of_mem c hd))

theorem sublist (h : Thinned cs ds) : ds.Sublist cs := by
  induction h with
  | nil => exact .slnil
  | keep c h ih => exact ih.cons_cons c
  | drop hc h ih => exact ih.cons _

theorem mem (h : Thinned cs ds) (hc : isBlank c = false) (hm : c ∈ cs) : c ∈ ds := by
  induction h with
  | nil => exact hm
  | keep d h ih => exact (List.mem_cons.1 hm).elim (fun h => h ▸ List.mem_cons_self) fun hm =>
      List.mem_cons_of_mem d (ih hm)
  | drop hd h ih =>
    rcases List.mem_cons.1 hm with rfl | hm
    · rw [hc] at hd
      cases hd
    · exact ih hm

/-- What is thinned stays squeezed. -/
theorem squeezed (h : Thinned cs ds) (hs : Squeezed inWord cs) : Squeezed inWord ds := by
  induction h generalizing inWord with
  | nil => exact hs
  | keep c h ih =>
    cases hs with
    | char hc hs => exact .char hc (ih hs)
    | space hne hs =>
      refine .space (fun hnil => ?_) (ih hs)
      -- the character after the space is no blank, so it is still there
      obtain ⟨d, es, rfl⟩ := List.exists_cons_of_ne_nil hne
      have hd := h.mem hs.head_not_blank List.mem_cons_self
      rw [hnil] at hd
      cases hd
  | drop hc h ih =>
    cases hs with
    | char hc' hs =>
      rw [hc'] at hc
      cases hc
    | space hne hs => exact (ih hs).mono

end Thinned

end Schemata.Text
