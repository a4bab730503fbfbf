import Mathlib.Algebra.Group.Nat.Defs
import Mathlib.Data.List.Nodup
import Mathlib.Tactic.Common

/-!
# Little-endian counters

`encode width value` writes a number into `width` bytes, least significant byte first, and
drops what does not fit. A counter kept in that form is as good as a number: increments
are additions and values below `256 ^ width` are told apart.
-/

set_option autoImplicit false

namespace Imconee.Lib.LittleEndian

def encode : ℕ → ℕ → List UInt8
  | 0, _ => []
  | width + 1, value => UInt8.ofNat value :: encode width (value / 256)

@[simp]
theorem length_encode (width value : ℕ) : (encode width value).length = width := by
  induction width generalizing value with
  | zero => rfl
  | succ width ih => simp [encode, ih]

theorem encode_zero (width : ℕ) : encode width 0 = List.replicate width 0 := by
  induction width with
  | zero => rfl
  | succ width ih => simp [encode, ih, List.replicate_succ]

theorem encode_mod (width value : ℕ) : encode width (value % 256 ^ width) = encode width value := by
  induction width generalizing value with
  | zero => rfl
  | succ width ih =>
      have low : value % 256 ^ (width + 1) % 256 = value % 256 := by
        rw [Nat.pow_succ, Nat.mod_mul_left_mod]
      have high : value % 256 ^ (width + 1) / 256 = value / 256 % 256 ^ width := by
        rw [Nat.pow_succ, Nat.mul_comm, Nat.mod_mul_right_div_self]
      have digit : UInt8.ofNat (value % 256 ^ (width + 1)) = UInt8.ofNat value := by
        apply UInt8.toNat_inj.mp
        rw [UInt8.toNat_ofNat', UInt8.toNat_ofNat']
        exact low
      rw [encode, encode, digit, high, ih]

theorem encode_injective {width left right : ℕ} (leftLt : left < 256 ^ width)
    (rightLt : right < 256 ^ width) (same : encode width left = encode width right) :
    left = right := by
  induction width generalizing left right with
  | zero => omega
  | succ width ih =>
      simp only [encode, List.cons.injEq] at same
      have low : left % 256 = right % 256 := by simpa using congrArg UInt8.toNat same.1
      have high := ih (Nat.div_lt_of_lt_mul (by rwa [Nat.pow_succ, Nat.mul_comm] at leftLt))
        (Nat.div_lt_of_lt_mul (by rwa [Nat.pow_succ, Nat.mul_comm] at rightLt)) same.2
      omega

/-- A run of counter values shorter than the counter's range repeats none. -/
theorem nodup_encode_range {width count : ℕ} (short : count ≤ 256 ^ width) :
    ((List.range count).map (encode width)).Nodup := by
  apply List.Nodup.map_on _ List.nodup_range
  intro left leftMem right rightMem same
  rw [List.mem_range] at leftMem rightMem
  exact encode_injective (by omega) (by omega) same

/-- The number in these bytes. -/
def decode : List UInt8 → ℕ
  | [] => 0
  | digit :: rest => digit.toNat + 256 * decode rest

theorem decode_encode (width value : ℕ) : decode (encode width value) = value % 256 ^ width := by
  induction width generalizing value with
  | zero => rw [Nat.pow_zero, Nat.mod_one, encode, decode]
  | succ width ih =>
      have digit : (UInt8.ofNat value).toNat = value % 256 := by simp
      rw [encode, decode, ih, digit, Nat.pow_succ, Nat.mul_comm (256 ^ width), Nat.mod_mul]

theorem encode_add_width (first second value : ℕ) :
    encode (first + second) value = encode first value ++ encode second (value / 256 ^ first) := by
  induction first generalizing value with
  | zero => simp [encode]
  | succ first ih =>
      rw [Nat.succ_add, encode, encode, ih, List.cons_append, Nat.div_div_eq_div_mul,
        ← Nat.pow_succ']

theorem encode_congr {width left right : ℕ} (same : left % 256 ^ width = right % 256 ^ width) :
    encode width left = encode width right := by
  rw [← encode_mod width left, same, encode_mod]

theorem decode_lt (bytes : List UInt8) : decode bytes < 256 ^ bytes.length := by
  induction bytes with
  | nil => simp [decode]
  | cons digit rest ih =>
      have small := digit.toNat_lt
      rw [decode, List.length_cons, Nat.pow_succ]
      omega

theorem decode_append (first second : List UInt8) :
    decode (first ++ second) = decode first + 256 ^ first.length * decode second := by
  induction first with
  | nil => simp [decode]
  | cons digit rest ih =>
      rw [List.cons_append, decode, decode, ih, List.length_cons, Nat.pow_succ', Nat.mul_add,
        Nat.add_assoc, Nat.mul_assoc]

theorem decode_replicate_zero (count : ℕ) : decode (List.replicate count 0) = 0 := by
  induction count with
  | zero => rfl
  | succ count ih => simp [List.replicate_succ, decode, ih]

/-- What adding `carry` to the lowest byte does: the byte that stays and the carry that
goes on. -/
theorem encode_add (width value carry : ℕ) :
    encode (width + 1) (value + carry) =
      UInt8.ofNat (value % 256 + carry) ::
        encode width (value / 256 + (value % 256 + carry) / 256) := by
  have digit : UInt8.ofNat (value + carry) = UInt8.ofNat (value % 256 + carry) := by
    apply UInt8.toNat_inj.mp
    simp
  have high : (value + carry) / 256 = value / 256 + (value % 256 + carry) / 256 := by omega
  rw [encode, digit, high]

end Imconee.Lib.LittleEndian
