/-
  Classes of characters of any script: decimal digits with their values, letters and digits, and the
  characters that are printed as they are.
-/
import Schemata.Text.AlnumTable
import Schemata.Text.Case
import Schemata.Text.DigitTable
import Schemata.Text.PrintableTable

namespace Schemata.Text

/-- The value of a decimal digit of any script. -/
def digitValue? (c : Char) : Option Nat :=
  let n := c.toNat
  if n < 128 then if 48 ≤ n ∧ n ≤ 57 then some (n - 48) else none
  else (digitZeros.find? fun z => z ≤ n && n ≤ z + 9).map (n - ·)

/-- A decimal digit of any script. -/
def isDigit (c : Char) : Bool := (digitValue? c).isSome

/-- A letter, a digit or another numeric character of any script. -/
def isAlnum (c : Char) : Bool :=
  let n := c.toNat
  if n < 128 then (48 ≤ n && n ≤ 57) || (65 ≤ n && n ≤ 90) || (97 ≤ n && n ≤ 122)
  else inIntervals alnumIntervals n

/-- A character with a printed form of its own; of the blanks the plain space alone. -/
def isPrintable (c : Char) : Bool :=
  let n := c.toNat
  if n < 128 then 32 ≤ n && n ≤ 126 else inIntervals printableIntervals n

/-- A letter of the ASCII alphabet. -/
def isAsciiLetter (c : Char) : Bool :=
  let n := c.toNat
  (65 ≤ n && n ≤ 90) || (97 ≤ n && n ≤ 122)

/-- One of the digits `0` to `9`. -/
def isAsciiDigit (c : Char) : Bool := 48 ≤ c.toNat && c.toNat ≤ 57

theorem isDigit_of_isAsciiDigit {c : Char} (h : isAsciiDigit c = true) : isDigit c = true := by
  simp only [isAsciiDigit, Bool.and_eq_true, decide_eq_true_eq] at h
  have hn : c.toNat < 128 := by omega
  simp [isDigit, digitValue?, hn, h]

/-- Every character that core takes for a letter or digit is one. -/
theorem isAlnum_of_isAlphanum {c : Char} (h : c.isAlphanum = true) : isAlnum c = true := by
  delta Char.isAlphanum Char.isAlpha Char.isUpper Char.isLower Char.isDigit at h
  simp only [Bool.or_eq_true, decide_eq_true_eq, Bool.and_eq_true, UInt32.le_iff_toNat_le] at h
  have e : c.val.toNat = c.toNat := rfl
  simp [e] at h
  have hn : c.toNat < 128 := by omega
  simp [isAlnum, hn]
  omega

end Schemata.Text
