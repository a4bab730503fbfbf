import Mathlib.Data.BitVec
import Mathlib.Tactic.Common

/-!
# `Botan::CT`

Comparisons without branches: a `Mask` has all of its bits set or none. What the words come
to that the bit tricks compute is the comparison they are named after, at every width.
-/

set_option autoImplicit false

namespace Imconee.Botan

variable {w : ℕ}

/-- `expand_top_bit` -/
def expandTopBit (a : BitVec w) : BitVec w := 0 - (a >>> (w - 1))

/-- `ct_is_zero` -/
def ctIsZero (x : BitVec w) : BitVec w := expandTopBit (~~~x &&& (x - 1))

/-- `choose` -/
def choose (mask a b : BitVec w) : BitVec w := b ^^^ (mask &&& (a ^^^ b))

/-- All bits, or none -/
def spread (w : ℕ) (set : Bool) : BitVec w := if set then BitVec.allOnes w else 0

theorem expandTopBit_eq (a : BitVec w) : expandTopBit a = spread w a.msb := by
  rcases Nat.eq_zero_or_pos w with rfl | positive
  · exact Subsingleton.elim _ _
  apply BitVec.eq_of_toNat_eq
  have double := Nat.two_pow_pred_mul_two positive
  have bound := a.isLt
  have top : a.toNat >>> (w - 1) = if a.msb then 1 else 0 := by
    rw [BitVec.msb_eq_decide, Nat.shiftRight_eq_div_pow]
    by_cases high : 2 ^ (w - 1) ≤ a.toNat
    · simp only [high, decide_true, if_true]
      apply Nat.div_eq_of_lt_le
      · omega
      · omega
    · simp only [high, decide_false, Bool.false_eq_true, if_false]
      exact Nat.div_eq_of_lt (by omega)
  have one : 1 < 2 ^ w := Nat.one_lt_two_pow (by omega)
  rw [expandTopBit, spread, BitVec.toNat_sub, BitVec.toNat_ushiftRight, top]
  split
  · simp [BitVec.toNat_allOnes]
  · simp

theorem toNat_sub_one {x : BitVec w} (some : x ≠ 0) : (x - 1).toNat = x.toNat - 1 := by
  have positive : 0 < w := by
    by_contra none
    have zero : w = 0 := by omega
    subst zero
    exact some (Subsingleton.elim _ _)
  have one : 1 < 2 ^ w := Nat.one_lt_two_pow (by omega)
  have bound := x.isLt
  have any : x.toNat ≠ 0 := fun zero => some (BitVec.eq_of_toNat_eq (by simpa using zero))
  have unit : (1 : BitVec w).toNat = 1 := by simp [Nat.mod_eq_of_lt one]
  rw [BitVec.toNat_sub, unit]
  have wraps : 2 ^ w - 1 + x.toNat = x.toNat - 1 + 2 ^ w := by omega
  rw [wraps, Nat.add_mod_right, Nat.mod_eq_of_lt (by omega)]

/-- The top bit of `~x & (x - 1)` tells. -/
theorem ctIsZero_eq (x : BitVec w) : ctIsZero x = spread w (x = 0) := by
  rcases Nat.eq_zero_or_pos w with rfl | positive
  · exact Subsingleton.elim _ _
  rw [ctIsZero, expandTopBit_eq, BitVec.msb_and, BitVec.msb_not]
  apply congrArg (spread w)
  have double := Nat.two_pow_pred_mul_two positive
  have bound := x.isLt
  by_cases zero : x = 0
  · subst zero
    have ones : (0 - 1 : BitVec w) = BitVec.allOnes w := by
      rw [← BitVec.neg_one_eq_allOnes]
      exact BitVec.zero_sub _
    rw [ones, BitVec.msb_allOnes positive]
    simp [positive]
  · have before := toNat_sub_one zero
    rw [BitVec.msb_eq_decide, BitVec.msb_eq_decide, before]
    simp only [positive, decide_true, Bool.true_and, zero, decide_false, Bool.and_eq_false_imp,
      Bool.not_eq_true', decide_eq_false_iff_not]
    omega

/-- `choose` takes one of two words, bit by bit. -/
@[simp]
theorem choose_spread (set : Bool) (a b : BitVec w) :
    choose (spread w set) a b = if set then a else b := by
  rw [choose, spread]
  split
  · rw [BitVec.allOnes_and, BitVec.xor_comm a, ← BitVec.xor_assoc, BitVec.xor_self,
      BitVec.zero_xor]
  · simp

/-- A `Mask<T>` -/
structure Mask (w : ℕ) where
  value : BitVec w
  spread_value : ∃ set, value = spread w set

namespace Mask

/-- A mask is what a top bit is expanded to. -/
theorem exists_spread (a : BitVec w) : ∃ set, expandTopBit a = spread w set :=
  ⟨_, expandTopBit_eq a⟩

theorem exists_spread_not {value : BitVec w} (mask : ∃ set, value = spread w set) :
    ∃ set, ~~~value = spread w set := by
  rcases mask with ⟨set, rfl⟩
  refine ⟨!set, ?_⟩
  cases set <;> simp [spread]

/-- `operator~` -/
def not (mask : Mask w) : Mask w := ⟨~~~mask.value, exists_spread_not mask.spread_value⟩

/-- `is_zero` -/
def isZero (x : BitVec w) : Mask w := ⟨ctIsZero x, exists_spread _⟩

/-- `expand`: set if the word is not zero -/
def expand (v : BitVec w) : Mask w := (isZero v).not

/-- `is_equal` -/
def isEqual (x y : BitVec w) : Mask w := isZero (x ^^^ y)

/-- `is_lt`, without a branch: the borrow of the difference decides. -/
def isLt (x y : BitVec w) : Mask w :=
  ⟨expandTopBit (x ^^^ ((x ^^^ y) ||| ((x - y) ^^^ x))), exists_spread _⟩

/-- `is_gt` -/
def isGt (x y : BitVec w) : Mask w := isLt y x

/-- `is_lte` -/
def isLte (x y : BitVec w) : Mask w := (isGt x y).not

/-- `if_set_return` -/
def ifSetReturn (mask : Mask w) (x : BitVec w) : BitVec w := mask.value &&& x

/-- `select`: the first word if the mask is set -/
def select (mask : Mask w) (x y : BitVec w) : BitVec w := choose mask.value x y

/-- `as_bool` -/
def asBool (mask : Mask w) : Bool := mask.value ≠ 0

variable {mask : Mask w} {set : Bool} {x y : BitVec w}

/-- The mask stands for `set`. -/
def Means (mask : Mask w) (set : Bool) : Prop := mask.value = spread w set

/-- A mask selects one of two words. -/
theorem Means.select (means : mask.Means set) (x y : BitVec w) :
    mask.select x y = if set then x else y := by
  rw [Mask.select, means, choose_spread]

theorem Means.ifSetReturn (means : mask.Means set) (x : BitVec w) :
    mask.ifSetReturn x = if set then x else 0 := by
  rw [Mask.ifSetReturn, means, spread]
  split <;> simp

theorem Means.asBool (means : mask.Means set) (positive : 0 < w) : mask.asBool = set := by
  have ones : BitVec.allOnes w ≠ 0 := by
    intro same
    have numbers := congrArg BitVec.toNat same
    have one : 1 < 2 ^ w := Nat.one_lt_two_pow (by omega)
    rw [BitVec.toNat_allOnes] at numbers
    simp only [BitVec.ofNat_eq_ofNat, BitVec.toNat_ofNat, Nat.zero_mod] at numbers
    omega
  rw [Mask.asBool, means, spread]
  cases set
  · simp
  · simpa using ones

theorem Means.not (means : mask.Means set) : mask.not.Means (!set) := by
  have negated : mask.not.value = ~~~mask.value := rfl
  rw [Means, negated, means]
  cases set <;> simp [spread]

theorem means_isZero (x : BitVec w) : (isZero x).Means (x = 0) := ctIsZero_eq x

theorem means_expand (v : BitVec w) : (expand v).Means (v ≠ 0) := by
  have means := (means_isZero v).not
  simpa [expand] using means

/-- The sign of the difference decides between words of one half, the top bits between the
halves. -/
theorem means_isLt (x y : BitVec w) : (isLt x y).Means (x < y) := by
  rcases Nat.eq_zero_or_pos w with rfl | positive
  · exact Subsingleton.elim _ _
  have double := Nat.two_pow_pred_mul_two positive
  have left := x.isLt
  have right := y.isLt
  apply (expandTopBit_eq _).trans
  apply congrArg (spread w)
  rw [BitVec.msb_xor, BitVec.msb_or, BitVec.msb_xor, BitVec.msb_xor]
  have difference : (x - y).toNat =
      if x.toNat < y.toNat then x.toNat + 2 ^ w - y.toNat else x.toNat - y.toNat := by
    rw [BitVec.toNat_sub]
    split
    · rw [Nat.mod_eq_of_lt (by omega)]
      omega
    · have wraps : 2 ^ w - y.toNat + x.toNat = x.toNat - y.toNat + 2 ^ w := by omega
      rw [wraps, Nat.add_mod_right, Nat.mod_eq_of_lt (by omega)]
  have sign : (x - y).msb = decide (2 ^ (w - 1) ≤ (x - y).toNat) := BitVec.msb_eq_decide _
  rw [difference] at sign
  have x_sign : x.msb = decide (2 ^ (w - 1) ≤ x.toNat) := BitVec.msb_eq_decide _
  have y_sign : y.msb = decide (2 ^ (w - 1) ≤ y.toNat) := BitVec.msb_eq_decide _
  have below : decide (x < y) = decide (x.toNat < y.toNat) := decide_eq_decide.mpr BitVec.lt_def
  rw [sign, x_sign, y_sign, below]
  by_cases x_high : 2 ^ (w - 1) ≤ x.toNat <;> by_cases y_high : 2 ^ (w - 1) ≤ y.toNat <;>
    by_cases less : x.toNat < y.toNat <;> simp [x_high, y_high, less] <;> omega

/-- `is_lte` is the order of numbers without sign. -/
theorem means_isLte (x y : BitVec w) : (isLte x y).Means (x ≤ y) := by
  have means := (means_isLt y x).not
  have above : (!decide (y < x)) = decide (x ≤ y) := by
    rw [← decide_not]
    exact decide_eq_decide.mpr BitVec.not_lt
  rwa [above] at means

end Mask

/-- What the loop of `CT::is_equal` puts together -/
def ctDifference (x y : List (BitVec w)) : BitVec w :=
  (List.zip x y).foldl (fun difference pair => difference ||| (pair.1 ^^^ pair.2)) 0

/-- `CT::is_equal` over `len` words -/
def ctIsEqual (x y : List (BitVec w)) : Mask w := Mask.isZero (ctDifference x y)

theorem foldl_or_eq_zero (pairs : List (BitVec w × BitVec w)) (difference : BitVec w) :
    pairs.foldl (fun difference pair => difference ||| (pair.1 ^^^ pair.2)) difference = 0 ↔
      difference = 0 ∧ ∀ pair ∈ pairs, pair.1 = pair.2 := by
  induction pairs generalizing difference with
  | nil => simp
  | cons pair pairs ih =>
      rw [List.foldl_cons, ih]
      have zero : difference ||| (pair.1 ^^^ pair.2) = 0 ↔ difference = 0 ∧ pair.1 = pair.2 :=
        BitVec.or_eq_zero_iff.trans (and_congr_right' BitVec.xor_eq_zero_iff)
      rw [zero, List.forall_mem_cons, and_assoc]

theorem forall_mem_zip_eq {α : Type} {x y : List α} (lengths : x.length = y.length) :
    (∀ pair ∈ List.zip x y, pair.1 = pair.2) ↔ x = y := by
  induction x generalizing y with
  | nil =>
      have none := List.length_eq_zero_iff.mp lengths.symm
      subst none
      simp
  | cons first x ih =>
      cases y with
      | nil => simp at lengths
      | cons other y =>
          rw [List.zip_cons_cons, List.forall_mem_cons, ih (by simpa using lengths)]
          simp

/-- Texts of one length are equal when no difference has been found. -/
theorem asBool_ctIsEqual {x y : List (BitVec w)} (positive : 0 < w)
    (lengths : x.length = y.length) : (ctIsEqual x y).asBool = true ↔ x = y := by
  rw [ctIsEqual, (Mask.means_isZero _).asBool positive, decide_eq_true_iff, ctDifference,
    foldl_or_eq_zero, forall_mem_zip_eq lengths]
  exact and_iff_right rfl

end Imconee.Botan
