/-
  Searching inside a text, cutting it, and doubling its characters.

  * `after? pat cs` is what follows `pat` at the start of `cs`, and `cut? pat cs` the parts of `cs`
    before and after the first occurrence of `pat`;
  * `double q` writes every `q` twice, and `undouble q` reads such pairs back;
  * `consFirst x` extends the first of several pieces;
  * `undouble_double`: reading undoes writing; `eq_append_of_cut?`: a cut loses nothing.
-/

namespace Schemata.Text

/-! ## Occurrences -/

/-- The rest of `cs` after the pattern, if it starts with it. -/
def after? : List Char → List Char → Option (List Char)
  | [], cs => some cs
  | _ :: _, [] => none
  | p :: ps, c :: cs => if p = c then after? ps cs else none

/-- The parts before and after the first occurrence of a pattern. -/
def cut? (pat : List Char) : List Char → Option (List Char × List Char)
  | [] => (after? pat []).map fun rest => ([], rest)
  | c :: cs =>
    match after? pat (c :: cs) with
    | some rest => some ([], rest)
    | none => (cut? pat cs).map fun (before, rest) => (c :: before, rest)

theorem eq_append_of_after? {pat cs rest : List Char} (h : after? pat cs = some rest) :
    cs = pat ++ rest := by
  fun_induction after? pat cs with
  | case1 => simpa using h
  | case2 => simp at h
  | case3 p ps cs ih => simp [ih h]
  | case4 => simp at h

@[simp] theorem after?_append (pat rest : List Char) : after? pat (pat ++ rest) = some rest := by
  induction pat with
  | nil => rfl
  | cons p ps ih => simp [after?, ih]

/-- The two parts and the occurrence between them are the whole text. -/
theorem eq_append_of_cut? {pat cs before rest : List Char}
    (h : cut? pat cs = some (before, rest)) : cs = before ++ pat ++ rest := by
  induction cs generalizing before with
  | nil =>
    simp only [cut?, Option.map_eq_some_iff, Prod.mk.injEq] at h
    obtain ⟨r, hr, rfl, rfl⟩ := h
    simpa using eq_append_of_after? hr
  | cons c cs ih =>
    rw [cut?] at h
    split at h
    · next r hr =>
      cases h
      simpa using eq_append_of_after? hr
    · obtain ⟨⟨b, r⟩, hb, he⟩ := Option.map_eq_some_iff.1 h
      cases he
      simp [ih hb]

/-! ## Doubled characters -/

/-- The text with every `q` written twice. -/
def double (q : Char) : List Char → List Char
  | [] => []
  | c :: cs => if c = q then q :: q :: double q cs else c :: double q cs

/-- The text with every pair `qq` read as one `q`, from left to right. -/
def undouble (q : Char) : List Char → List Char
  | [] => []
  | [c] => [c]
  | c :: d :: cs => if c = q ∧ d = q then q :: undouble q cs else c :: undouble q (d :: cs)

theorem undouble_cons_of_ne {q c : Char} (h : c ≠ q) (cs : List Char) :
    undouble q (c :: cs) = c :: undouble q cs := by
  cases cs with
  | nil => rfl
  | cons d cs => simp [undouble, h]

/-- Reading undoes writing. -/
@[simp] theorem undouble_double (q : Char) (cs : List Char) : undouble q (double q cs) = cs := by
  induction cs with
  | nil => rfl
  | cons c cs ih =>
    by_cases h : c = q
    · simp [double, undouble, h, ih]
    · simp [double, h, undouble_cons_of_ne h, ih]

/-! ## Pieces -/

/-- The list with `x` put in front of its first piece. -/
def consFirst {α : Type} (x : α) : List (List α) → List (List α)
  | [] => [[x]]
  | piece :: pieces => (x :: piece) :: pieces

@[simp] theorem consFirst_cons {α : Type} (x : α) (piece : List α) (pieces : List (List α)) :
    consFirst x (piece :: pieces) = (x :: piece) :: pieces := rfl

/-- What is put in front of pieces extends the first one. -/
theorem foldr_consFirst {α : Type} (xs piece : List α) (pieces : List (List α)) :
    xs.foldr consFirst (piece :: pieces) = (xs ++ piece) :: pieces := by
  induction xs with
  | nil => rfl
  | cons x xs ih => rw [List.foldr_cons, ih, consFirst_cons, List.cons_append]

@[simp] theorem flatten_consFirst {α : Type} (x : α) (pieces : List (List α)) :
    (consFirst x pieces).flatten = x :: pieces.flatten := by
  cases pieces <;> rfl

end Schemata.Text
