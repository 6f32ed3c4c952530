/-
  Rounding a quotient of natural numbers.  A half goes to the even neighbour.

  * `roundHalfEven num den` is the natural number nearest to `num / den`;
  * `fixed places num den` writes `num / den` with a fixed number of decimal places;
  * `roundHalfEven_near`: the result is at most half a unit away.
-/

namespace Schemata.Number

/-- The natural number nearest to `num / den`; a half goes to the even neighbour. -/
def roundHalfEven (num den : Nat) : Nat :=
  let q := num / den
  let r := num % den
  if 2 * r < den then q
  else if den < 2 * r then q + 1
  else if q % 2 = 0 then q else q + 1

/-- The rounded quotient is at most half a unit away from the exact one. -/
theorem roundHalfEven_near {num den : Nat} (h : 0 < den) :
    2 * (roundHalfEven num den * den) ≤ 2 * num + den ∧
      2 * num ≤ 2 * (roundHalfEven num den * den) + den := by
  have hd : den * (num / den) + num % den = num := Nat.div_add_mod num den
  have hr : num % den < den := Nat.mod_lt num h
  have hc : num / den * den = den * (num / den) := Nat.mul_comm _ _
  have hs : (num / den + 1) * den = den * (num / den) + den := by
    rw [Nat.add_mul, hc, Nat.one_mul]
  unfold roundHalfEven
  dsimp only
  split
  · omega
  · split
    · omega
    · split <;> omega

/-- A whole quotient is its own rounding. -/
theorem roundHalfEven_mul {n den : Nat} (h : 0 < den) : roundHalfEven (n * den) den = n := by
  simp [roundHalfEven, h]

/-- A decimal number padded with leading zeros to at least `width` digits. -/
def padded (width n : Nat) : String :=
  let digits := Nat.toDigits 10 n
  String.ofList (List.replicate (width - digits.length) '0' ++ digits)

/-- The quotient `num / den` with exactly `places` decimal places. -/
def fixed (places num den : Nat) : String :=
  let unit := Nat.pow 10 places
  let scaled := roundHalfEven (num * unit) den
  if places = 0 then toString scaled
  else toString (scaled / unit) ++ "." ++ padded places (scaled % unit)

end Schemata.Number
