import Mathlib.Data.List.Induction
import Mathlib.Data.Nat.Digits.Lemmas
import Mathlib.Tactic.Common
import Mathlib.Tactic.IntervalCases

/-!
# Numerals

Numbers as texts, the most significant digit first. What is printed has no leading zeros and is
read back as the number; what is read may have leading zeros and digits of either case.
-/

set_option autoImplicit false

namespace Imconee.Lib.Numeral

/-- The number that digits make up. -/
def value (base : ℕ) (digits : List ℕ) : ℕ :=
  digits.foldl (fun number digit => base * number + digit) 0

theorem value_append_singleton (base : ℕ) (digits : List ℕ) (digit : ℕ) :
    value base (digits ++ [digit]) = base * value base digits + digit := by
  rw [value, List.foldl_append]
  rfl

theorem value_eq_ofDigits (base : ℕ) (digits : List ℕ) :
    value base digits = Nat.ofDigits base digits.reverse := by
  induction digits using List.reverseRecOn with
  | nil => rfl
  | append_singleton digits digit ih =>
      rw [value_append_singleton, ih, List.reverse_append, List.reverse_singleton,
        List.singleton_append, Nat.ofDigits_cons, Nat.add_comm]

theorem value_cons (base digit : ℕ) (digits : List ℕ) :
    value base (digit :: digits) = digit * base ^ digits.length + value base digits := by
  rw [value_eq_ofDigits, value_eq_ofDigits, List.reverse_cons, Nat.ofDigits_append,
    Nat.ofDigits_singleton, List.length_reverse, Nat.add_comm, Nat.mul_comm]

/-- The digits of a number, at least one. -/
def digits (base number : ℕ) : List ℕ :=
  if number = 0 then [0] else (base.digits number).reverse

@[simp]
theorem value_digits (base number : ℕ) : value base (digits base number) = number := by
  rw [digits]
  split
  · rename_i zero
    rw [zero]
    rfl
  · rw [value_eq_ofDigits, List.reverse_reverse, Nat.ofDigits_digits]

/-- Digits of which the first is not zero are those of their number. -/
theorem digits_value {base digit : ℕ} {rest : List ℕ} (two : 1 < base)
    (small : ∀ d ∈ digit :: rest, d < base) (positive : digit ≠ 0) :
    digits base (value base (digit :: rest)) = digit :: rest := by
  have nonzero : value base (digit :: rest) ≠ 0 := by
    rw [value_cons]
    have power : 0 < base ^ rest.length := Nat.pow_pos (by omega)
    exact Nat.ne_of_gt (Nat.add_pos_left (Nat.mul_pos (Nat.pos_of_ne_zero positive) power) _)
  rw [digits, if_neg nonzero, value_eq_ofDigits, Nat.digits_ofDigits base two,
    List.reverse_reverse]
  · exact fun d mem => small d (List.mem_reverse.mp mem)
  · intro nonempty
    rw [List.getLast_reverse, List.head_cons]
    exact positive

theorem digits_ne_nil (base number : ℕ) : digits base number ≠ [] := by
  rw [digits]
  split
  · exact List.cons_ne_nil _ _
  · rename_i positive
    exact fun none => positive (Nat.digits_eq_nil_iff_eq_zero.mp (List.reverse_eq_nil_iff.mp none))

theorem lt_of_mem_digits {base number digit : ℕ} (two : 1 < base)
    (mem : digit ∈ digits base number) : digit < base := by
  rw [digits] at mem
  split at mem
  · rw [List.mem_singleton.mp mem]
    exact Nat.zero_lt_of_lt two
  · exact Nat.digits_lt_base two (List.mem_reverse.mp mem)

theorem length_digits_le {base number width : ℕ} (two : 1 < base) (lt : number < base ^ width)
    (positive : 0 < width) : (digits base number).length ≤ width := by
  rw [digits]
  split
  · exact positive
  · rw [List.length_reverse]
    exact (Nat.digits_length_le_iff two number).mpr lt

theorem head_digits_ne_zero {base number : ℕ} (positive : number ≠ 0) :
    (digits base number).head? ≠ some 0 := by
  have nonempty : base.digits number ≠ [] := Nat.digits_ne_nil_iff_ne_zero.mpr positive
  rw [digits, if_neg positive, List.head?_reverse, List.getLast?_eq_some_getLast nonempty]
  exact fun same => Nat.getLast_digit_ne_zero base positive (Option.some.inj same)

/-! ### Characters -/

/-- The character of a digit; those behind the nine are lower-case letters. -/
def digitChar (digit : ℕ) : UInt8 := UInt8.ofNat (if digit < 10 then 48 + digit else 87 + digit)

/-- The digit that a character stands for, a letter of either case. -/
def charDigit (c : UInt8) : Option ℕ :=
  if 48 ≤ c ∧ c ≤ 57 then some (c.toNat - 48)
  else if 97 ≤ c ∧ c ≤ 102 then some (c.toNat - 87)
  else if 65 ≤ c ∧ c ≤ 70 then some (c.toNat - 55)
  else none

theorem charDigit_digitChar {digit : ℕ} (small : digit < 16) :
    charDigit (digitChar digit) = some digit := by
  interval_cases digit <;> rfl

theorem charDigit_lt {c : UInt8} {digit : ℕ} (stands : charDigit c = some digit) : digit < 16 := by
  simp only [charDigit, UInt8.le_iff_toNat_le, UInt8.reduceToNat] at stands
  split_ifs at stands <;> cases stands <;> omega

/-- A number as it is printed. -/
def print (base number : ℕ) : List UInt8 := (digits base number).map digitChar

theorem print_ne_nil (base number : ℕ) : print base number ≠ [] :=
  mt List.map_eq_nil_iff.mp (digits_ne_nil base number)

/-- Each character that is printed stands for its digit. -/
theorem mem_print {base number : ℕ} (two : 1 < base) {c : UInt8} (mem : c ∈ print base number) :
    ∃ digit < base, c = digitChar digit := by
  rcases List.mem_map.mp mem with ⟨digit, among, rfl⟩
  exact ⟨digit, lt_of_mem_digits two among, rfl⟩

/-- What the characters of a text stand for. -/
def charDigits (text : List UInt8) : List ℕ := text.map fun c => (charDigit c).getD 0

@[simp]
theorem charDigits_print {base number : ℕ} (two : 1 < base) (sixteen : base ≤ 16) :
    charDigits (print base number) = digits base number := by
  rw [charDigits, print, List.map_map]
  refine (List.map_congr_left fun digit mem => ?_).trans (List.map_id _)
  have small := Nat.lt_of_lt_of_le (lt_of_mem_digits two mem) sixteen
  rw [Function.comp_apply, charDigit_digitChar small, Option.getD_some, id]

end Imconee.Lib.Numeral
