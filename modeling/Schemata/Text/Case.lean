/-
  The full Unicode case mappings.  One character may become several, and a capital sigma at the end
  of a word becomes a final one.

  * `lower` and `upper` map whole strings; `lowerList` and `upperList` lists of characters;
  * `lowerList_of_ascii`, `upperList_of_ascii`: on ASCII text they map letter by letter.
-/
import Schemata.Text.CaseTable

namespace Schemata.Text

/-! ## Single characters -/

/-- Whether a code point lies in one of the intervals. -/
def inIntervals (table : List (Nat × Nat)) (n : Nat) : Bool :=
  table.any fun (first, last) => first ≤ n && n ≤ last

/-- The code point that a table of runs assigns to `n`. -/
def applyRuns (table : List (Nat × Nat × Nat × Int)) (n : Nat) : Nat :=
  match table.find? fun (first, last, step, _) =>
      first ≤ n && n ≤ last && (n - first) % step == 0 with
  | some (_, _, _, shift) => (n + shift).toNat
  | none => n

/-- The lower-case letter of an ASCII capital; any other character is kept. -/
def asciiLower (c : Char) : Char :=
  if 'A' ≤ c ∧ c ≤ 'Z' then Char.ofNat (c.toNat + 32) else c

/-- The capital of an ASCII letter; any other character is kept. -/
def asciiUpper (c : Char) : Char :=
  if 'a' ≤ c ∧ c ≤ 'z' then Char.ofNat (c.toNat - 32) else c

/-- The lower case of one character, outside any word. -/
def lowerChar (c : Char) : List Char :=
  if c.toNat < 128 then [asciiLower c]
  else if c = 'İ' then ['i', Char.ofNat 775]
  else [Char.ofNat (applyRuns lowerRuns c.toNat)]

/-- The upper case of one character. -/
def upperChar (c : Char) : List Char :=
  if c.toNat < 128 then [asciiUpper c]
  else
    match upperExpansions.lookup c.toNat with
    | some codes => codes.map Char.ofNat
    | none => [Char.ofNat (applyRuns upperRuns c.toNat)]

/-! ## Texts -/

/-- A cased character that no word's case ignores. -/
def isCased (c : Char) : Bool := inIntervals casedIntervals c.toNat

/-- A character that a word's case ignores, such as an apostrophe or an accent. -/
def isCaseIgnorable (c : Char) : Bool := inIntervals caseIgnorableIntervals c.toNat

/-- Whether the first character that counts is cased. -/
def startsCased (cs : List Char) : Bool :=
  match cs.dropWhile isCaseIgnorable with
  | [] => false
  | c :: _ => isCased c

/-- The lower case of a text that follows the characters `before`, which are held in reverse.
    A capital sigma is final when a cased character comes before it and none after it. -/
def lowerFrom (before : List Char) : List Char → List Char
  | [] => []
  | c :: cs =>
    if c = 'Σ' then
      (if startsCased before && !startsCased cs then 'ς' else 'σ') :: lowerFrom (c :: before) cs
    else lowerChar c ++ lowerFrom (c :: before) cs

/-- The lower case of a text. -/
def lowerList (cs : List Char) : List Char := lowerFrom [] cs

/-- The upper case of a text. -/
def upperList (cs : List Char) : List Char := cs.flatMap upperChar

/-- The lower case of a string. -/
def lower (s : String) : String := String.ofList (lowerList s.toList)

/-- The upper case of a string. -/
def upper (s : String) : String := String.ofList (upperList s.toList)

/-! ## ASCII text -/

theorem lowerFrom_of_ascii {cs : List Char} (h : ∀ c ∈ cs, c.toNat < 128) (before : List Char) :
    lowerFrom before cs = cs.map asciiLower := by
  induction cs generalizing before with
  | nil => rfl
  | cons c cs ih =>
    have hc : c.toNat < 128 := h c (by simp)
    have hs : c ≠ 'Σ' := by rintro rfl; exact absurd hc (by decide)
    simp [lowerFrom, lowerChar, hs, hc, ih fun d hd => h d (by simp [hd])]

/-- On ASCII text lower case works letter by letter. -/
theorem lowerList_of_ascii {cs : List Char} (h : ∀ c ∈ cs, c.toNat < 128) :
    lowerList cs = cs.map asciiLower :=
  lowerFrom_of_ascii h []

/-- On ASCII text upper case works letter by letter. -/
theorem upperList_of_ascii {cs : List Char} (h : ∀ c ∈ cs, c.toNat < 128) :
    upperList cs = cs.map asciiUpper := by
  induction cs with
  | nil => rfl
  | cons c cs ih =>
    have hc : c.toNat < 128 := h c (by simp)
    have := ih fun d hd => h d (by simp [hd])
    simp only [upperList] at this
    simp [upperList, upperChar, hc, this]

end Schemata.Text
