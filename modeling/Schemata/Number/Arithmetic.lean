/-
  Sums and products of binary numbers: the number nearest to the exact result.
-/
import Schemata.Number.Binary64

namespace Schemata.Number.Binary64

/-- A finite number as an exact quotient. -/
def quotient? : Binary64 → Option (Int × Nat)
  | finite negative significand exponent =>
    let (n, d) := ratio significand exponent
    some (if negative then -n else n, d)
  | _ => none

/-- The number nearest to a quotient. -/
def ofQuotient (num : Int) (den : Nat) : Binary64 := ofRatio (num < 0) num.natAbs den

/-- The sum of two numbers; what is not finite stays. -/
def add (x y : Binary64) : Binary64 :=
  match x.quotient?, y.quotient? with
  | some (a, b), some (c, d) => ofQuotient (a * d + c * b) (b * d)
  | some _, none => y
  | none, _ => x

/-- The product of two numbers; what is not finite stays. -/
def mul (x y : Binary64) : Binary64 :=
  match x.quotient?, y.quotient? with
  | some (a, b), some (c, d) => ofQuotient (a * c) (b * d)
  | some _, none => y
  | none, _ => x

/-- The number with the other sign. -/
def negate : Binary64 → Binary64
  | finite negative significand exponent => finite (!negative) significand exponent
  | infinity negative => infinity (!negative)
  | nan serial => nan serial

end Schemata.Number.Binary64
