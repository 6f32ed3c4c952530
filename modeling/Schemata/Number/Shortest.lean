/-
  The shortest decimal text of a binary number: the fewest digits that read back as the number, and
  of those the nearest to it.

  * `digits significand exponent` chooses the digits: for one digit, two digits and so on, it tries
    the two neighbours of the number on the grid of that many digits, in exact arithmetic;
  * `text` lays them out: positional from `10⁻⁴` to below `10¹⁶`, with at least one decimal place,
    and with a signed exponent of at least two digits otherwise.
-/
import Schemata.Number.Binary64

namespace Schemata.Number.Binary64

/-! ## The digits -/

/-- The least number with 53 bits, below which the lower neighbour is only half as far away. -/
def leastNormal : Nat := Nat.pow 2 52

/-- Whether `a / b` reads as the number `significand · 2 ^ exponent`: it lies between the middles to
    its two neighbours, which are included when the significand is even. -/
def readsAs (significand : Nat) (exponent : Int) (a b : Nat) : Bool :=
  -- in quarters of a unit of the last place
  let lower := if significand = leastNormal ∧ -1074 < exponent then 4 * significand - 1
    else 4 * significand - 2
  let upper := 4 * significand + 2
  let (n, d) := scaleBy (4 * a) b exponent
  if significand % 2 = 0 then lower * d ≤ n && n ≤ upper * d
  else lower * d < n && n < upper * d

/-- The number of decimal digits before the point: `10 ^ (k - 1) ≤ num / den < 10 ^ k`. -/
def pointPosition (num den : Nat) : Int :=
  ((Nat.toDigits 10 (num * Nat.pow 10 342 / den)).length : Int) - 342

/-- The nearest candidate with `count` digits that reads as the number, as a number of units
    `10 ^ (k - count)`. -/
def candidate? (significand : Nat) (exponent k : Int) (count : Nat) : Option Nat :=
  let (num, den) := ratio significand exponent
  let unit : Int := k - count
  let (un, ud) : Nat × Nat :=
    if 0 ≤ unit then (Nat.pow 10 unit.toNat, 1) else (1, Nat.pow 10 (-unit).toNat)
  let low := num * ud / (den * un)
  let fits (c : Nat) : Bool := readsAs significand exponent (c * un) ud
  match fits low, fits (low + 1) with
  | true, true => some (roundHalfEven (num * ud) (den * un))
  | true, false => some low
  | false, true => some (low + 1)
  | false, false => none

/-- The first count of digits from `count` on that has a candidate, with the candidate. -/
def search (significand : Nat) (exponent k : Int) : (fuel count : Nat) → Nat × Nat
  | 0, count => (count, 0)
  | fuel + 1, count =>
    match candidate? significand exponent k count with
    | some c => (count, c)
    | none => search significand exponent k fuel (count + 1)

/-- The digits of a candidate with their count, without zeros at the end, and the position of the
    point, which is `k` for a candidate of as many digits as its count. -/
def candidateDigits (k : Int) (candidate : Nat × Nat) : List Char × Int :=
  let cs := Nat.toDigits 10 candidate.2
  -- a candidate `10 ^ count` has one digit more before the point
  ((cs.reverse.dropWhile (· == '0')).reverse, k + ((cs.length : Int) - candidate.1))

/-- The shortest digits of a positive number and the position of the point before or after them. -/
def digits (significand : Nat) (exponent : Int) : List Char × Int :=
  let r := ratio significand exponent
  let k := pointPosition r.1 r.2
  candidateDigits k (search significand exponent k 17 1)

/-! ## The layout -/

/-- A signed exponent of at least two digits. -/
def exponentText (e : Int) : String :=
  "e" ++ (if e < 0 then "-" else "+") ++ padded 2 e.natAbs

/-- Digits with the point after the first `k` of them. -/
def layout (cs : List Char) (k : Int) : String :=
  if -4 < k ∧ k ≤ 16 then
    if k ≤ 0 then
      String.ofList ('0' :: '.' :: (List.replicate (-k).toNat '0' ++ cs))
    else
      let whole := cs.take k.toNat ++ List.replicate (k.toNat - cs.length) '0'
      let fraction := cs.drop k.toNat
      String.ofList (whole ++ '.' :: (if fraction.isEmpty then ['0'] else fraction))
  else
    let mantissa := match cs with
      | [] => ['0']
      | [c] => [c]
      | c :: rest => c :: '.' :: rest
    String.ofList mantissa ++ exponentText (k - 1)

/-- The text of a number, with the given names for infinity and for no number. -/
def textWith (infinityName nanName : String) : Binary64 → String
  | finite negative significand exponent =>
    let body :=
      if significand = 0 then "0.0"
      else
        let (cs, k) := digits significand exponent
        layout cs k
    if negative then "-" ++ body else body
  | infinity negative => (if negative then "-" else "") ++ infinityName
  | nan _ => nanName

/-- The text of a number in messages. -/
def text : Binary64 → String := textWith "inf" "nan"

end Schemata.Number.Binary64
