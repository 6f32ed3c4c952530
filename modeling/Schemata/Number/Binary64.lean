/-
  Binary floating-point numbers of 64 bits, as exact values.

  * A finite number is `± significand · 2 ^ exponent` in its normal form: the significand has 53
    bits, or the exponent is the least one, `-1074`;
  * `ofRatio` rounds a quotient to the nearest number, a half to the even significand, and gives
    infinity beyond the range; `ofDecimal` and `ofInt` are its cases;
  * `same` is equality of numbers: the two zeros are the same number, and a value that is no number
    is the same as its own copies alone.
-/
import Schemata.Number.Rounding

namespace Schemata.Number

/-- A binary floating-point number of 64 bits. -/
inductive Binary64 where
  /-- The number `± significand · 2 ^ exponent`. -/
  | finite (negative : Bool) (significand : Nat) (exponent : Int)
  /-- Beyond every finite number. -/
  | infinity (negative : Bool)
  /-- No number.  Each one that is read from a text is a value of its own, which its copies share;
      it has a serial number from when it is recorded on.  The literal has the number 0 wherever it
      stands. -/
  | nan (serial : Option Nat)
deriving DecidableEq, Repr

namespace Binary64

/-- The number zero. -/
def zero : Binary64 := .finite false 0 (-1074)

/-- The number one. -/
def one : Binary64 := .finite false (Nat.pow 2 52) (-52)

/-- Whether the number is finite. -/
def isFinite : Binary64 → Bool
  | finite .. => true
  | _ => false

/-- Whether the number is one of the two zeros. -/
def isZero : Binary64 → Bool
  | finite _ 0 _ => true
  | _ => false

/-- Equality of numbers: equal forms, or two zeros.  A value that is no number and has no serial
    number yet is like no other. -/
def same : Binary64 → Binary64 → Bool
  | nan none, _ => false
  | a, b => a == b || (a.isZero && b.isZero)

/-- The value with a serial number, if it needs one. -/
def numbered (serial : Nat) : Binary64 → Binary64
  | nan none => nan (some serial)
  | x => x

/-- The serial number, 0 if there is none. -/
def serial : Binary64 → Nat
  | nan (some n) => n
  | _ => 0

@[simp] theorem numbered_finite (serial : Nat) (negative : Bool) (significand : Nat)
    (exponent : Int) :
    numbered serial (finite negative significand exponent) = finite negative significand exponent :=
  rfl

/-! ## Rounding -/

/-- A positive power of two as a factor of the numerator or of the denominator. -/
def scaleBy (num den : Nat) (exponent : Int) : Nat × Nat :=
  if 0 ≤ exponent then (num, den * Nat.pow 2 exponent.toNat)
  else (num * Nat.pow 2 (-exponent).toNat, den)

/-- The exponent of the form that a positive quotient is rounded in: `2 ^ 52 ≤ num / den / 2 ^ e <
    2 ^ 53`, but never below `-1074`. -/
def exponentFor (num den : Nat) : Int :=
  let guess : Int := (Nat.log2 num : Int) - Nat.log2 den - 52
  let (n, d) := scaleBy num den guess
  let e := if n < Nat.pow 2 52 * d then guess - 1 else guess
  max e (-1074)

/-- The number nearest to `± num / den`. -/
def ofRatio (negative : Bool) (num den : Nat) : Binary64 :=
  if num = 0 then .finite negative 0 (-1074)
  else
    let e := exponentFor num den
    let (n, d) := scaleBy num den e
    let significand := roundHalfEven n d
    let (significand, e) := if significand = Nat.pow 2 53 then (Nat.pow 2 52, e + 1)
      else (significand, e)
    if 971 < e then .infinity negative else .finite negative significand e

/-- The number nearest to `± digits · 10 ^ exponent`. -/
def ofDecimal (negative : Bool) (digits : Nat) (exponent : Int) : Binary64 :=
  -- beyond these bounds every number rounds to zero or infinity
  let count : Int := (Nat.toDigits 10 digits).length
  if digits = 0 ∨ exponent + count < -400 then .finite negative 0 (-1074)
  else if 400 < exponent + count then .infinity negative
  else if 0 ≤ exponent then ofRatio negative (digits * Nat.pow 10 exponent.toNat) 1
  else ofRatio negative digits (Nat.pow 10 (-exponent).toNat)

/-- The number nearest to an integer. -/
def ofInt (i : Int) : Binary64 := ofRatio (i < 0) i.natAbs 1

/-! ## Integers -/

/-- The absolute value of a finite number as a quotient. -/
def ratio (significand : Nat) (exponent : Int) : Nat × Nat :=
  if 0 ≤ exponent then (significand * Nat.pow 2 exponent.toNat, 1)
  else (significand, Nat.pow 2 (-exponent).toNat)

/-- The integer part of a finite number. -/
def truncate? : Binary64 → Option Int
  | finite negative significand exponent =>
    let (n, d) := ratio significand exponent
    let whole : Int := (n / d : Nat)
    some (if negative then -whole else whole)
  | _ => none

/-- The integer that a finite number is, if it has no fraction. -/
def toInt? : Binary64 → Option Int
  | finite negative significand exponent =>
    let (n, d) := ratio significand exponent
    if n % d = 0 then
      let whole : Int := (n / d : Nat)
      some (if negative then -whole else whole)
    else none
  | _ => none

end Binary64

end Schemata.Number
