import Mathlib.Data.Rat.Floor

/-!
# Numbers of 64 bits

Rounding of a rational number to the nearest one of 53 bits, to the even one of two that are as
near, and to the multiples of the least number where there are no more bits.
-/

set_option autoImplicit false

namespace Imconee.Lib

/-- A number of 64 bits; the sign of a zero is not kept. -/
inductive Binary64 where
  | finite (q : ℚ)
  | infinity (negative : Bool)
  | nan
  deriving DecidableEq

namespace Binary64

/-- The nearest integer -/
def roundEven (q : ℚ) : ℤ :=
  let rest := q - q.floor
  if rest < 1 / 2 ∨ rest = 1 / 2 ∧ q.floor % 2 = 0 then q.floor else q.floor + 1

/-- The nearest multiple of a power of two -/
def roundTo (e : ℤ) (q : ℚ) : ℚ := roundEven (q / 2 ^ e) * 2 ^ e

/-- The place of the first bit -/
def binade (q : ℚ) : ℤ :=
  let guess : ℤ := (q.num.natAbs.log2 : ℤ) - q.den.log2
  if 2 ^ guess ≤ |q| then guess else guess - 1

/-- The nearest number of 53 bits, however large or small it is -/
def roundBits (q : ℚ) : ℚ := roundTo (binade q - 52) q

/-- The number, and whether it is out of range: too large, or so small that bits have been lost -/
def ofRat (q : ℚ) : Binary64 × Bool :=
  let r := roundBits q
  if 2 ^ (1024 : ℤ) ≤ |r| then (.infinity (q < 0), true)
  else if |r| < 2 ^ (-1022 : ℤ) then (.finite (roundTo (-1074) q), roundTo (-1074) q ≠ q)
  else (.finite r, false)

/-- A conversion to an integer of 64 bits; what does not fit becomes the least one. -/
def toInt64 : Binary64 → ℤ
  | finite q =>
      let t := q.num.tdiv q.den
      if -(2 ^ 63) ≤ t ∧ t < 2 ^ 63 then t else -(2 ^ 63)
  | infinity _ => -(2 ^ 63)
  | nan => -(2 ^ 63)

end Binary64

end Imconee.Lib
