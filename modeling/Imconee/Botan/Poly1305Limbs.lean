import Imconee.Botan.Poly1305
import Mathlib.Tactic.Linarith
import Mathlib.Tactic.NormNum
import Mathlib.Tactic.Ring

/-!
# The limbs of Poly1305

What the words of 64 and 128 bits come to as numbers. No sum and no product is too large for
its word, one round of `poly1305_blocks` multiplies modulo `p`, and `poly1305_finish` reduces
completely unless the lower two limbs are nearly full.
-/

set_option autoImplicit false

namespace Imconee.Botan

open Imconee.Lib

@[simp]
theorem toNat_wide (x : UInt64) : (wide x).toNat = x.toNat := by
  rw [wide, BitVec.toNat_setWidth, UInt64.toNat_toBitVec, Nat.mod_eq_of_lt]
  exact Nat.lt_trans x.toNat_lt (by norm_num)

theorem toNat_loadLe64 {bytes : List UInt8} {index : ℕ} :
    (loadLe64 bytes index).toNat = LittleEndian.decode ((bytes.drop (8 * index)).take 8) := by
  have small := LittleEndian.decode_lt ((bytes.drop (8 * index)).take 8)
  have short : ((bytes.drop (8 * index)).take 8).length ≤ 8 := List.length_take_le _ _
  have below : 256 ^ ((bytes.drop (8 * index)).take 8).length ≤ 256 ^ 8 :=
    Nat.pow_le_pow_right (by norm_num) short
  rw [loadLe64, UInt64.toNat_ofNat']
  exact Nat.mod_eq_of_lt (Nat.lt_of_lt_of_le small below)

theorem toNat_carryShift (a : BitVec 128) (shift : ℕ) :
    (carryShift a shift).toNat = a.toNat / 2 ^ shift % 2 ^ 64 := by
  rw [carryShift, UInt64.toNat_ofBitVec, BitVec.toNat_setWidth, BitVec.toNat_ushiftRight,
    Nat.shiftRight_eq_div_pow]

theorem toNat_wide_mul (a b : UInt64) : (wide a * wide b).toNat = a.toNat * b.toNat := by
  have left := a.toNat_lt
  have right := b.toNat_lt
  have below : a.toNat * b.toNat < 2 ^ 128 := by
    have product := Nat.mul_lt_mul'' left right
    norm_num at product ⊢
    exact product
  rw [BitVec.toNat_mul, toNat_wide, toNat_wide, Nat.mod_eq_of_lt below]

/-- A column of the product with what is carried into it, as long as nothing is lost -/
theorem toNat_column {a b c d e f : UInt64}
    (small : a.toNat * b.toNat + c.toNat * d.toNat + e.toNat * f.toNat < 2 ^ 128) :
    (wide a * wide b + wide c * wide d + wide e * wide f).toNat =
      a.toNat * b.toNat + c.toNat * d.toNat + e.toNat * f.toNat := by
  have first : (wide a * wide b + wide c * wide d).toNat =
      a.toNat * b.toNat + c.toNat * d.toNat := by
    rw [BitVec.toNat_add, toNat_wide_mul, toNat_wide_mul]
    exact Nat.mod_eq_of_lt (Nat.lt_of_le_of_lt (Nat.le_add_right _ _) small)
  rw [BitVec.toNat_add, first, toNat_wide_mul, Nat.mod_eq_of_lt small]

theorem toNat_column_carry {column : BitVec 128} {carry : UInt64}
    (small : column.toNat + carry.toNat < 2 ^ 128) :
    (column + wide carry).toNat = column.toNat + carry.toNat := by
  rw [BitVec.toNat_add, toNat_wide, Nat.mod_eq_of_lt small]

theorem loadLe64_append {block : List UInt8} {index : ℕ} (inside : 8 * index + 8 ≤ block.length)
    (rest : List UInt8) : loadLe64 (block ++ rest) index = loadLe64 block index := by
  rw [loadLe64, loadLe64, List.drop_append_of_le_length (by omega),
    List.take_append_of_le_length (by rw [List.length_drop]; omega)]

/-- A block is two words. -/
theorem words_of_block {m : List UInt8} (full : m.length = 16) :
    (loadLe64 m 0).toNat = LittleEndian.decode m % 2 ^ 64 ∧
      (loadLe64 m 1).toNat = LittleEndian.decode m / 2 ^ 64 := by
  have first : (m.take 8).length = 8 := by
    rw [List.length_take]
    omega
  have second : (m.drop 8).take 8 = m.drop 8 := by
    apply List.take_of_length_le
    rw [List.length_drop]
    omega
  have low := LittleEndian.decode_lt (m.take 8)
  have whole := LittleEndian.decode_append (m.take 8) (m.drop 8)
  rw [List.take_append_drop, first] at whole
  rw [first] at low
  rw [toNat_loadLe64, toNat_loadLe64, Nat.mul_zero, List.drop_zero, Nat.mul_one, second, whole]
  constructor
  · omega
  · omega

theorem toNat_add_of_lt {a b : UInt64} (small : a.toNat + b.toNat < 2 ^ 64) :
    (a + b).toNat = a.toNat + b.toNat := by
  rw [UInt64.toNat_add, Nat.mod_eq_of_lt small]

namespace Poly1305

theorem toNat_and_m44 (x : UInt64) : (x &&& m44).toNat = x.toNat % 2 ^ 44 := by
  rw [UInt64.toNat_and]
  exact Nat.and_two_pow_sub_one_eq_mod _ 44

theorem toNat_and_m42 (x : UInt64) : (x &&& m42).toNat = x.toNat % 2 ^ 42 := by
  rw [UInt64.toNat_and]
  exact Nat.and_two_pow_sub_one_eq_mod _ 42

theorem toNat_masked_m44 (a : BitVec 128) : (masked a m44).toNat = a.toNat % 2 ^ 44 := by
  have low : a.toNat &&& m44.toNat = a.toNat % 2 ^ 44 := Nat.and_two_pow_sub_one_eq_mod _ 44
  rw [masked, UInt64.toNat_ofBitVec, BitVec.toNat_setWidth, BitVec.toNat_and, toNat_wide, low]
  exact Nat.mod_eq_of_lt (Nat.lt_trans (Nat.mod_lt _ (by norm_num)) (by norm_num))

theorem toNat_masked_m42 (a : BitVec 128) : (masked a m42).toNat = a.toNat % 2 ^ 42 := by
  have low : a.toNat &&& m42.toNat = a.toNat % 2 ^ 42 := Nat.and_two_pow_sub_one_eq_mod _ 42
  rw [masked, UInt64.toNat_ofBitVec, BitVec.toNat_setWidth, BitVec.toNat_and, toNat_wide, low]
  exact Nat.mod_eq_of_lt (Nat.lt_trans (Nat.mod_lt _ (by norm_num)) (by norm_num))

theorem toNat_shiftRight_44 (x : UInt64) : (x >>> 44).toNat = x.toNat / 2 ^ 44 := by
  rw [UInt64.toNat_shiftRight, Nat.shiftRight_eq_div_pow]
  rfl

theorem toNat_shiftRight_42 (x : UInt64) : (x >>> 42).toNat = x.toNat / 2 ^ 42 := by
  rw [UInt64.toNat_shiftRight, Nat.shiftRight_eq_div_pow]
  rfl

/-- The bits of two words from 44 on -/
theorem toNat_middle (t0 t1 : UInt64) :
    ((t0 >>> 44) ||| (t1 <<< 20)).toNat = t0.toNat / 2 ^ 44 + t1.toNat % 2 ^ 44 * 2 ^ 20 := by
  have high : (t1 <<< 20).toNat = 2 ^ 20 * (t1.toNat % 2 ^ 44) := by
    rw [UInt64.toNat_shiftLeft, Nat.shiftLeft_eq]
    change t1.toNat * 2 ^ 20 % 2 ^ 64 = _
    omega
  have small := t0.toNat_lt
  have below : t0.toNat / 2 ^ 44 < 2 ^ 20 := by omega
  rw [UInt64.toNat_or, toNat_shiftRight_44, high, Nat.or_comm,
    ← Nat.two_pow_add_eq_or_of_lt below]
  omega

theorem toNat_upper (t1 : UInt64) : ((t1 >>> 24) &&& m42).toNat = t1.toNat / 2 ^ 24 := by
  have small := t1.toNat_lt
  have shifted : (t1 >>> 24).toNat = t1.toNat / 2 ^ 24 := by
    rw [UInt64.toNat_shiftRight, Nat.shiftRight_eq_div_pow]
    rfl
  rw [toNat_and_m42, shifted]
  exact Nat.mod_eq_of_lt (by omega)

theorem toNat_upper_or_hibit (t1 : UInt64) (isFinal : Bool) :
    (((t1 >>> 24) &&& m42) ||| hibit isFinal).toNat =
      t1.toNat / 2 ^ 24 + if isFinal then 0 else 2 ^ 40 := by
  have small := t1.toNat_lt
  have below : t1.toNat / 2 ^ 24 < 2 ^ 40 := by omega
  rw [UInt64.toNat_or, toNat_upper]
  cases isFinal
  · have joined := Nat.two_pow_add_eq_or_of_lt below 1
    rw [Nat.or_comm]
    exact joined.symm.trans (Nat.add_comm _ _)
  · simp [hibit]

/-- `2 ^ 130 - 5` -/
def p : ℕ := 2 ^ 130 - 5

namespace Limbs

/-- The number that the limbs of `r` stand for -/
def r (X : Limbs) : ℕ := X.r0.toNat + 2 ^ 44 * X.r1.toNat + 2 ^ 88 * X.r2.toNat

/-- The number that the limbs of `h` stand for -/
def h (X : Limbs) : ℕ := X.h0.toNat + 2 ^ 44 * X.h1.toNat + 2 ^ 88 * X.h2.toNat

/-- The number that is added in the end -/
def pad (X : Limbs) : ℕ := X.pad0.toNat + 2 ^ 64 * X.pad1.toNat

/-- The limbs between two blocks; the second one of `h` has not been carried out of. -/
structure Bounded (X : Limbs) : Prop where
  r0_lt : X.r0.toNat < 2 ^ 44
  r1_lt : X.r1.toNat < 2 ^ 44
  r2_lt : X.r2.toNat < 2 ^ 40
  h0_lt : X.h0.toNat < 2 ^ 44
  h1_lt : X.h1.toNat < 2 ^ 44 + 2 ^ 14
  h2_lt : X.h2.toNat < 2 ^ 42

end Limbs

/-- The number of a block that stands in a whole block, or at the end -/
def blockValue (isFinal : Bool) (m : List UInt8) : ℕ :=
  LittleEndian.decode m + if isFinal then 0 else 2 ^ 128

/-- A block in limbs, added to `h` -/
structure Added (isFinal : Bool) (X : Limbs) (m : List UInt8) (h0 h1 h2 : UInt64) : Prop where
  h0_lt : h0.toNat < 2 ^ 45
  h1_lt : h1.toNat < 2 ^ 46
  h2_lt : h2.toNat < 2 ^ 43
  value : h0.toNat + 2 ^ 44 * h1.toNat + 2 ^ 88 * h2.toNat = X.h + blockValue isFinal m

/-- The limbs of the block are added to those of `h`. -/
theorem added_block {X : Limbs} (bounded : X.Bounded) (isFinal : Bool) {m : List UInt8}
    (full : m.length = 16) :
    Added isFinal X m (X.h0 + (loadLe64 m 0 &&& m44))
      (X.h1 + (((loadLe64 m 0 >>> 44) ||| (loadLe64 m 1 <<< 20)) &&& m44))
      (X.h2 + (((loadLe64 m 1 >>> 24) &&& m42) ||| hibit isFinal)) := by
  have small := LittleEndian.decode_lt m
  have wide : (256 : ℕ) ^ 16 = 2 ^ 128 := by norm_num
  rw [full, wide] at small
  rcases words_of_block full with ⟨word0, word1⟩
  have h0_lt := bounded.h0_lt
  have h1_lt := bounded.h1_lt
  have h2_lt := bounded.h2_lt
  have top : (if isFinal then 0 else 2 ^ 40 : ℕ) ≤ 2 ^ 40 := by
    split <;> norm_num
  have top_value : (if isFinal then 0 else 2 ^ 128 : ℕ) =
      2 ^ 88 * if isFinal then 0 else 2 ^ 40 := by
    split <;> norm_num
  have sum0 : (X.h0 + (loadLe64 m 0 &&& m44)).toNat =
      X.h0.toNat + LittleEndian.decode m % 2 ^ 44 := by
    rw [UInt64.toNat_add, toNat_and_m44, word0]
    omega
  have sum1 : (X.h1 + (((loadLe64 m 0 >>> 44) ||| (loadLe64 m 1 <<< 20)) &&& m44)).toNat =
      X.h1.toNat + LittleEndian.decode m / 2 ^ 44 % 2 ^ 44 := by
    rw [UInt64.toNat_add, toNat_and_m44, toNat_middle, word0, word1]
    omega
  have sum2 : (X.h2 + (((loadLe64 m 1 >>> 24) &&& m42) ||| hibit isFinal)).toNat =
      X.h2.toNat + (LittleEndian.decode m / 2 ^ 88 + if isFinal then 0 else 2 ^ 40) := by
    rw [UInt64.toNat_add, toNat_upper_or_hibit, word1]
    omega
  refine ⟨?_, ?_, ?_, ?_⟩
  · rw [sum0]
    omega
  · rw [sum1]
    omega
  · rw [sum2]
    omega
  · rw [sum0, sum1, sum2, Limbs.h, blockValue, top_value]
    omega

/-- The columns of the product, each with what is carried into it -/
structure Columns (X : Limbs) (h0 h1 h2 D0 D1 D2 : ℕ) : Prop where
  first : D0 = h0 * X.r0.toNat + h1 * (X.r2.toNat * 20) + h2 * (X.r1.toNat * 20)
  second : D1 = h0 * X.r1.toNat + h1 * X.r0.toNat + h2 * (X.r2.toNat * 20) + D0 / 2 ^ 44
  third : D2 = h0 * X.r2.toNat + h1 * X.r1.toNat + h2 * X.r0.toNat + D1 / 2 ^ 44
  first_lt : D0 < 2 ^ 93
  second_lt : D1 < 2 ^ 92
  third_lt : D2 < 2 ^ 92

theorem toNat_carryShift_of_lt {a : BitVec 128} {shift : ℕ} (small : a.toNat / 2 ^ shift < 2 ^ 64) :
    (carryShift a shift).toNat = a.toNat / 2 ^ shift := by
  rw [toNat_carryShift, Nat.mod_eq_of_lt small]

/-- What is carried out of the third column goes back into the first one. -/
theorem toNat_reduced {d0 d1 d2 : BitVec 128} (small : d2.toNat < 2 ^ 92) :
    ((masked d0 m44 + carryShift d2 42 * 5) &&& m44).toNat =
        (d0.toNat % 2 ^ 44 + d2.toNat / 2 ^ 42 * 5) % 2 ^ 44 ∧
      (masked d1 m44 + (masked d0 m44 + carryShift d2 42 * 5) >>> 44).toNat =
        d1.toNat % 2 ^ 44 + (d0.toNat % 2 ^ 44 + d2.toNat / 2 ^ 42 * 5) / 2 ^ 44 := by
  have carry : (carryShift d2 42 * 5).toNat = d2.toNat / 2 ^ 42 * 5 := by
    rw [UInt64.toNat_mul, toNat_carryShift_of_lt (by omega)]
    exact Nat.mod_eq_of_lt (by change d2.toNat / 2 ^ 42 * 5 < 2 ^ 64; omega)
  have low : (masked d0 m44 + carryShift d2 42 * 5).toNat =
      d0.toNat % 2 ^ 44 + d2.toNat / 2 ^ 42 * 5 := by
    rw [UInt64.toNat_add, toNat_masked_m44, carry]
    omega
  constructor
  · rw [toNat_and_m44, low]
  · rw [UInt64.toNat_add, toNat_masked_m44, toNat_shiftRight_44, low]
    omega

/-- Multiplying loses nothing: the limbs of the product come from its columns. -/
theorem multiply_columns {X : Limbs} (bounded : X.Bounded) {h0 h1 h2 : UInt64}
    (h0_lt : h0.toNat < 2 ^ 45) (h1_lt : h1.toNat < 2 ^ 46) (h2_lt : h2.toNat < 2 ^ 43) :
    ∃ D0 D1 D2, Columns X h0.toNat h1.toNat h2.toNat D0 D1 D2 ∧
      (multiply X h0 h1 h2).h0.toNat = (D0 % 2 ^ 44 + D2 / 2 ^ 42 * 5) % 2 ^ 44 ∧
      (multiply X h0 h1 h2).h1.toNat =
        D1 % 2 ^ 44 + (D0 % 2 ^ 44 + D2 / 2 ^ 42 * 5) / 2 ^ 44 ∧
      (multiply X h0 h1 h2).h2.toNat = D2 % 2 ^ 42 := by
  have r0_lt := bounded.r0_lt
  have r1_lt := bounded.r1_lt
  have r2_lt := bounded.r2_lt
  have s1 : (X.r1 * 20).toNat = X.r1.toNat * 20 := by
    rw [UInt64.toNat_mul]
    exact Nat.mod_eq_of_lt (by change X.r1.toNat * 20 < 2 ^ 64; omega)
  have s2 : (X.r2 * 20).toNat = X.r2.toNat * 20 := by
    rw [UInt64.toNat_mul]
    exact Nat.mod_eq_of_lt (by change X.r2.toNat * 20 < 2 ^ 64; omega)
  have s1_lt : X.r1.toNat * 20 < 2 ^ 49 := by omega
  have s2_lt : X.r2.toNat * 20 < 2 ^ 45 := by omega
  have p00 := Nat.mul_lt_mul'' h0_lt r0_lt
  have p01 := Nat.mul_lt_mul'' h0_lt r1_lt
  have p02 := Nat.mul_lt_mul'' h0_lt r2_lt
  have p10 := Nat.mul_lt_mul'' h1_lt r0_lt
  have p11 := Nat.mul_lt_mul'' h1_lt r1_lt
  have p12 := Nat.mul_lt_mul'' h1_lt s2_lt
  have p20 := Nat.mul_lt_mul'' h2_lt r0_lt
  have p21 := Nat.mul_lt_mul'' h2_lt s1_lt
  have p22 := Nat.mul_lt_mul'' h2_lt s2_lt
  have d0 : (wide h0 * wide X.r0 + wide h1 * wide (X.r2 * 20) + wide h2 * wide (X.r1 * 20)).toNat =
      h0.toNat * X.r0.toNat + h1.toNat * (X.r2.toNat * 20) + h2.toNat * (X.r1.toNat * 20) := by
    rw [toNat_column, s1, s2]
    rw [s1, s2]
    omega
  generalize first : wide h0 * wide X.r0 + wide h1 * wide (X.r2 * 20) +
    wide h2 * wide (X.r1 * 20) = w0 at d0
  have c0 := @toNat_carryShift_of_lt w0 44 (by omega)
  have d1 : (wide h0 * wide X.r1 + wide h1 * wide X.r0 + wide h2 * wide (X.r2 * 20) +
      wide (carryShift w0 44)).toNat = h0.toNat * X.r1.toNat + h1.toNat * X.r0.toNat +
        h2.toNat * (X.r2.toNat * 20) + w0.toNat / 2 ^ 44 := by
    have column := @toNat_column h0 X.r1 h1 X.r0 h2 (X.r2 * 20) (by rw [s2]; omega)
    rw [s2] at column
    rw [toNat_column_carry (by omega), column, c0]
  generalize second : wide h0 * wide X.r1 + wide h1 * wide X.r0 + wide h2 * wide (X.r2 * 20) +
    wide (carryShift w0 44) = w1 at d1
  have c1 := @toNat_carryShift_of_lt w1 44 (by omega)
  have d2 : (wide h0 * wide X.r2 + wide h1 * wide X.r1 + wide h2 * wide X.r0 +
      wide (carryShift w1 44)).toNat = h0.toNat * X.r2.toNat + h1.toNat * X.r1.toNat +
        h2.toNat * X.r0.toNat + w1.toNat / 2 ^ 44 := by
    have column := @toNat_column h0 X.r2 h1 X.r1 h2 X.r0 (by omega)
    rw [toNat_column_carry (by omega), column, c1]
  generalize third : wide h0 * wide X.r2 + wide h1 * wide X.r1 + wide h2 * wide X.r0 +
    wide (carryShift w1 44) = w2 at d2
  have w2_lt : w2.toNat < 2 ^ 92 := by omega
  rcases @toNat_reduced w0 w1 w2 w2_lt with ⟨low, middle⟩
  refine ⟨w0.toNat, w1.toNat, w2.toNat, ⟨d0, d1, d2, by omega, by omega, w2_lt⟩, ?_, ?_, ?_⟩
  · rw [← low, multiply, first, second, third]
  · rw [← middle, multiply, first, second, third]
  · rw [← toNat_masked_m42, multiply, first, second, third]

theorem p_add_five : p + 5 = 2 ^ 130 := rfl

/-- What the limbs of the product leave out is a multiple of `p`. -/
theorem Columns.residue {X : Limbs} {h0 h1 h2 D0 D1 D2 : ℕ}
    (columns : Columns X h0 h1 h2 D0 D1 D2) :
    (D0 % 2 ^ 44 + D2 / 2 ^ 42 * 5 + 2 ^ 44 * (D1 % 2 ^ 44) + 2 ^ 88 * (D2 % 2 ^ 42)) % p =
      (h0 + 2 ^ 44 * h1 + 2 ^ 88 * h2) * X.r % p := by
  have first := columns.first
  have second := columns.second
  have third := columns.third
  generalize folded : h1 * X.r2.toNat + h2 * X.r1.toNat + 2 ^ 44 * (h2 * X.r2.toNat) = Q
  have product : (h0 + 2 ^ 44 * h1 + 2 ^ 88 * h2) * X.r + 20 * Q =
      (h0 * X.r0.toNat + h1 * (X.r2.toNat * 20) + h2 * (X.r1.toNat * 20)) +
        2 ^ 44 * (h0 * X.r1.toNat + h1 * X.r0.toNat + h2 * (X.r2.toNat * 20)) +
        2 ^ 88 * (h0 * X.r2.toNat + h1 * X.r1.toNat + h2 * X.r0.toNat) + 2 ^ 132 * Q := by
    rw [Limbs.r, ← folded]
    ring
  have carried : D0 % 2 ^ 44 + D2 / 2 ^ 42 * 5 + 2 ^ 44 * (D1 % 2 ^ 44) + 2 ^ 88 * (D2 % 2 ^ 42) +
      (p + 5) * (D2 / 2 ^ 42) =
      (h0 * X.r0.toNat + h1 * (X.r2.toNat * 20) + h2 * (X.r1.toNat * 20)) +
        2 ^ 44 * (h0 * X.r1.toNat + h1 * X.r0.toNat + h2 * (X.r2.toNat * 20)) +
        2 ^ 88 * (h0 * X.r2.toNat + h1 * X.r1.toNat + h2 * X.r0.toNat) +
        D2 / 2 ^ 42 * 5 := by
    rw [p_add_five]
    omega
  have wraps : 2 ^ 132 * Q = 4 * (p + 5) * Q := by
    rw [p_add_five]
    ring
  have whole : (h0 + 2 ^ 44 * h1 + 2 ^ 88 * h2) * X.r =
      D0 % 2 ^ 44 + D2 / 2 ^ 42 * 5 + 2 ^ 44 * (D1 % 2 ^ 44) + 2 ^ 88 * (D2 % 2 ^ 42) +
        p * (D2 / 2 ^ 42 + 4 * Q) := by
    linarith
  rw [whole, Nat.add_mul_mod_self_left]

/-- `h` plus the block, times `r` -/
theorem poly1305Block_spec {X : Limbs} (bounded : X.Bounded) (isFinal : Bool) {m : List UInt8}
    (full : m.length = 16) :
    (poly1305Block isFinal X m).Bounded ∧ (poly1305Block isFinal X m).r = X.r ∧
      (poly1305Block isFinal X m).pad = X.pad ∧
      (poly1305Block isFinal X m).h % p = (X.h + blockValue isFinal m) * X.r % p := by
  have added := added_block bounded isFinal full
  rcases multiply_columns bounded added.h0_lt added.h1_lt added.h2_lt with
    ⟨D0, D1, D2, columns, low, middle, high⟩
  have third_lt := columns.third_lt
  refine ⟨⟨bounded.r0_lt, bounded.r1_lt, bounded.r2_lt, ?_, ?_, ?_⟩, rfl, rfl, ?_⟩
  · rw [poly1305Block, low]
    omega
  · rw [poly1305Block, middle]
    omega
  · rw [poly1305Block, high]
    omega
  · have limbs : (poly1305Block isFinal X m).h = D0 % 2 ^ 44 + D2 / 2 ^ 42 * 5 +
        2 ^ 44 * (D1 % 2 ^ 44) + 2 ^ 88 * (D2 % 2 ^ 42) := by
      rw [Limbs.h, poly1305Block, low, middle, high]
      omega
    rw [limbs, columns.residue, added.value]

/-- The number that three limbs stand for -/
def Limbs3.value (h : Limbs3) : ℕ := h.1.toNat + 2 ^ 44 * h.2.1.toNat + 2 ^ 88 * h.2.2.toNat

/-- Carrying keeps the residue, and two passes are enough. -/
theorem carryPass_spec {h : Limbs3} (h0_lt : h.1.toNat < 2 ^ 44)
    (h1_lt : h.2.1.toNat < 2 ^ 44 + 2 ^ 14) (h2_lt : h.2.2.toNat < 2 ^ 42) :
    (carryPass h).1.toNat < 2 ^ 44 ∧ (carryPass h).2.1.toNat ≤ 2 ^ 44 ∧
      (carryPass h).2.2.toNat < 2 ^ 42 ∧
      (h.2.1.toNat ≤ 2 ^ 44 → (carryPass h).2.1.toNat < 2 ^ 44) ∧
      (carryPass h).value % p = h.value % p := by
  have sum2 : (h.2.2 + h.2.1 >>> 44).toNat = h.2.2.toNat + h.2.1.toNat / 2 ^ 44 := by
    rw [toNat_add_of_lt, toNat_shiftRight_44]
    rw [toNat_shiftRight_44]
    omega
  generalize upper : h.2.2 + h.2.1 >>> 44 = b2 at sum2
  have times : (b2 >>> 42 * 5).toNat = b2.toNat / 2 ^ 42 * 5 := by
    rw [UInt64.toNat_mul, toNat_shiftRight_42]
    exact Nat.mod_eq_of_lt (by change b2.toNat / 2 ^ 42 * 5 < 2 ^ 64; omega)
  have sum0 : (h.1 + b2 >>> 42 * 5).toNat = h.1.toNat + b2.toNat / 2 ^ 42 * 5 := by
    rw [toNat_add_of_lt, times]
    rw [times]
    omega
  generalize lower : h.1 + b2 >>> 42 * 5 = b0 at sum0
  have sum1 : ((h.2.1 &&& m44) + b0 >>> 44).toNat = h.2.1.toNat % 2 ^ 44 + b0.toNat / 2 ^ 44 := by
    rw [toNat_add_of_lt, toNat_and_m44, toNat_shiftRight_44]
    rw [toNat_and_m44, toNat_shiftRight_44]
    omega
  have first : (carryPass h).1.toNat = b0.toNat % 2 ^ 44 := by
    rw [← toNat_and_m44, ← lower, ← upper]
    rfl
  have second : (carryPass h).2.1.toNat = h.2.1.toNat % 2 ^ 44 + b0.toNat / 2 ^ 44 := by
    rw [← sum1, ← lower, ← upper]
    rfl
  have third : (carryPass h).2.2.toNat = b2.toNat % 2 ^ 42 := by
    rw [← toNat_and_m42, ← upper]
    rfl
  refine ⟨by omega, by omega, by omega, by omega, ?_⟩
  have five := p_add_five
  have carried : h.value = (carryPass h).value + p * (b2.toNat / 2 ^ 42) := by
    have wraps : (p + 5) * (b2.toNat / 2 ^ 42) = 2 ^ 130 * (b2.toNat / 2 ^ 42) := by rw [five]
    rw [Nat.add_mul] at wraps
    rw [Limbs3.value, Limbs3.value, first, second, third]
    omega
  rw [carried, Nat.add_mul_mod_self_left]

/-- What `selectReduced` makes of a number below `2 ^ 130` -/
def selected (value : ℕ) : ℕ :=
  if 2 ^ 88 - 5 ≤ value % 2 ^ 88 then value + 5 else value

theorem ofBitVec_select {mask : Mask 64} {set : Bool} (means : mask.Means set) (x y : UInt64) :
    (⟨mask.select x.toBitVec y.toBitVec⟩ : UInt64) = if set then x else y := by
  rw [means.select]
  split <;> rfl

/-- Which limbs the mask selects -/
theorem selectReduced_eq (h : Limbs3) :
    selectReduced h =
      if ((h.2.1 + (h.1 + 5) >>> 44) >>> 44).toNat ≠ 0 then
        ((h.1 + 5) &&& m44, (h.2.1 + (h.1 + 5) >>> 44) &&& m44,
          h.2.2 + (h.2.1 + (h.1 + 5) >>> 44) >>> 44 - (1 : UInt64) <<< 42)
      else h := by
  have means := Mask.means_expand ((h.2.1 + (h.1 + 5) >>> 44) >>> 44).toBitVec
  have number : ((h.2.1 + (h.1 + 5) >>> 44) >>> 44).toBitVec ≠ 0 ↔
      ((h.2.1 + (h.1 + 5) >>> 44) >>> 44).toNat ≠ 0 := by
    rw [← UInt64.toNat_toBitVec]
    exact not_congr (@BitVec.toNat_inj 64 _ 0).symm
  have same : decide (((h.2.1 + (h.1 + 5) >>> 44) >>> 44).toBitVec ≠ 0) =
      decide (((h.2.1 + (h.1 + 5) >>> 44) >>> 44).toNat ≠ 0) := decide_eq_decide.mpr number
  rw [same] at means
  simp only [selectReduced, ofBitVec_select means, decide_eq_true_eq]
  split <;> rfl

/-- The carry out of the lower two limbs decides. -/
theorem selectReduced_spec {h : Limbs3} (h0_lt : h.1.toNat < 2 ^ 44) (h1_lt : h.2.1.toNat < 2 ^ 44)
    (h2_lt : h.2.2.toNat < 2 ^ 42) :
    (selectReduced h).1.toNat < 2 ^ 44 ∧ (selectReduced h).2.1.toNat < 2 ^ 44 ∧
      ((selectReduced h).1.toNat + 2 ^ 44 * (selectReduced h).2.1.toNat +
        2 ^ 88 * (selectReduced h).2.2.toNat) % 2 ^ 130 = selected h.value % 2 ^ 130 := by
  have sum0 : (h.1 + 5).toNat = h.1.toNat + 5 :=
    toNat_add_of_lt (by change h.1.toNat + 5 < 2 ^ 64; omega)
  have sum1 : (h.2.1 + (h.1 + 5) >>> 44).toNat = h.2.1.toNat + (h.1.toNat + 5) / 2 ^ 44 := by
    rw [toNat_add_of_lt, toNat_shiftRight_44, sum0]
    rw [toNat_shiftRight_44, sum0]
    omega
  rw [selectReduced_eq, selected]
  generalize h.2.1 + (h.1 + 5) >>> 44 = g1 at sum1
  have carry : (g1 >>> 44).toNat = g1.toNat / 2 ^ 44 := toNat_shiftRight_44 g1
  split
  · rename_i carries
    have sum2 : (h.2.2 + g1 >>> 44 - (1 : UInt64) <<< 42).toNat =
        (h.2.2.toNat + 1 + (2 ^ 64 - 2 ^ 42)) % 2 ^ 64 := by
      rw [UInt64.toNat_sub, toNat_add_of_lt (by omega)]
      change (2 ^ 64 - 2 ^ 42 + (h.2.2.toNat + (g1 >>> 44).toNat)) % 2 ^ 64 = _
      omega
    rw [if_pos (by rw [Limbs3.value]; omega)]
    refine ⟨?_, ?_, ?_⟩
    · rw [toNat_and_m44]
      omega
    · rw [toNat_and_m44]
      omega
    · rw [toNat_and_m44, toNat_and_m44, sum0, sum2, Limbs3.value]
      omega
  · rename_i stays
    rw [if_neg (by rw [Limbs3.value]; omega)]
    exact ⟨h0_lt, h1_lt, rfl⟩

/-- Limbs that are full but for the third one, where only 42 bits matter -/
theorem addPad_spec {h : Limbs3} (h0_lt : h.1.toNat < 2 ^ 44) (h1_lt : h.2.1.toNat < 2 ^ 44)
    (t0 t1 : UInt64) :
    (addPad h t0 t1).1.toNat < 2 ^ 44 ∧ (addPad h t0 t1).2.1.toNat < 2 ^ 44 ∧
      (addPad h t0 t1).2.2.toNat < 2 ^ 42 ∧
      (addPad h t0 t1).value = (h.value + (t0.toNat + 2 ^ 64 * t1.toNat)) % 2 ^ 130 := by
  have t0_lt := t0.toNat_lt
  have t1_lt := t1.toNat_lt
  have sum0 : (h.1 + (t0 &&& m44)).toNat = h.1.toNat + t0.toNat % 2 ^ 44 := by
    rw [toNat_add_of_lt, toNat_and_m44]
    rw [toNat_and_m44]
    omega
  generalize lower : h.1 + (t0 &&& m44) = b0 at sum0
  have sum1 : (h.2.1 + (((t0 >>> 44) ||| (t1 <<< 20)) &&& m44) + b0 >>> 44).toNat =
      h.2.1.toNat + (t0.toNat / 2 ^ 44 + t1.toNat % 2 ^ 24 * 2 ^ 20) + b0.toNat / 2 ^ 44 := by
    rw [UInt64.toNat_add, UInt64.toNat_add, toNat_and_m44, toNat_middle, toNat_shiftRight_44]
    omega
  generalize middle : h.2.1 + (((t0 >>> 44) ||| (t1 <<< 20)) &&& m44) + b0 >>> 44 = b1 at sum1
  have sum2 : (h.2.2 + ((t1 >>> 24) &&& m42) + b1 >>> 44).toNat =
      (h.2.2.toNat + t1.toNat / 2 ^ 24 + b1.toNat / 2 ^ 44) % 2 ^ 64 := by
    rw [UInt64.toNat_add, UInt64.toNat_add, toNat_upper, toNat_shiftRight_44]
    omega
  have first : (addPad h t0 t1).1.toNat = b0.toNat % 2 ^ 44 := by
    rw [← toNat_and_m44, ← lower]
    rfl
  have second : (addPad h t0 t1).2.1.toNat = b1.toNat % 2 ^ 44 := by
    rw [← toNat_and_m44, ← middle, ← lower]
    rfl
  have third : (addPad h t0 t1).2.2.toNat =
      (h.2.2.toNat + t1.toNat / 2 ^ 24 + b1.toNat / 2 ^ 44) % 2 ^ 64 % 2 ^ 42 := by
    rw [← sum2, ← toNat_and_m42, ← middle, ← lower]
    rfl
  refine ⟨by omega, by omega, by omega, ?_⟩
  rw [Limbs3.value, Limbs3.value, first, second, third]
  omega

/-- The limbs are stored as one number of sixteen bytes. -/
theorem storeMac_spec {h : Limbs3} (h0_lt : h.1.toNat < 2 ^ 44)
    (h1_lt : h.2.1.toNat < 2 ^ 44) : storeMac h = LittleEndian.encode 16 h.value := by
  have low : (h.1 ||| (h.2.1 <<< 44)).toNat = h.1.toNat + 2 ^ 44 * (h.2.1.toNat % 2 ^ 20) := by
    have high : (h.2.1 <<< 44).toNat = 2 ^ 44 * (h.2.1.toNat % 2 ^ 20) := by
      rw [UInt64.toNat_shiftLeft, Nat.shiftLeft_eq]
      change h.2.1.toNat * 2 ^ 44 % 2 ^ 64 = _
      omega
    rw [UInt64.toNat_or, high, Nat.or_comm, ← Nat.two_pow_add_eq_or_of_lt h0_lt]
    omega
  have high : ((h.2.1 >>> 20) ||| (h.2.2 <<< 24)).toNat =
      h.2.1.toNat / 2 ^ 20 + 2 ^ 24 * (h.2.2.toNat % 2 ^ 40) := by
    have shifted : (h.2.1 >>> 20).toNat = h.2.1.toNat / 2 ^ 20 := by
      rw [UInt64.toNat_shiftRight, Nat.shiftRight_eq_div_pow]
      rfl
    have upper : (h.2.2 <<< 24).toNat = 2 ^ 24 * (h.2.2.toNat % 2 ^ 40) := by
      rw [UInt64.toNat_shiftLeft, Nat.shiftLeft_eq]
      change h.2.2.toNat * 2 ^ 24 % 2 ^ 64 = _
      omega
    have below : h.2.1.toNat / 2 ^ 20 < 2 ^ 24 := by omega
    rw [UInt64.toNat_or, shifted, upper, Nat.or_comm, ← Nat.two_pow_add_eq_or_of_lt below]
    omega
  have split := LittleEndian.encode_add_width 8 8 h.value
  have words : storeMac h = LittleEndian.encode 8 (h.1.toNat + 2 ^ 44 * (h.2.1.toNat % 2 ^ 20)) ++
      LittleEndian.encode 8 (h.2.1.toNat / 2 ^ 20 + 2 ^ 24 * (h.2.2.toNat % 2 ^ 40)) := by
    rw [← low, ← high]
    rfl
  rw [words, split]
  have width : (256 : ℕ) ^ 8 = 2 ^ 64 := by norm_num
  rw [width]
  apply congrArg₂
  · apply LittleEndian.encode_congr
    rw [width, Limbs3.value]
    omega
  · apply LittleEndian.encode_congr
    rw [width, Limbs3.value]
    omega

end Poly1305

end Imconee.Botan
