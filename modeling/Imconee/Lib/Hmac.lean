import Mathlib.Data.List.Basic
import Mathlib.Tactic.Common

/-!
# HMAC and HKDF

A hash function of bytes makes a keyed one, as in RFC 2104, and a keyed one makes keys of any
length from a secret, as in RFC 5869.
-/

set_option autoImplicit false

namespace Imconee.Lib

namespace Hmac

variable (hash : List UInt8 → List UInt8) (size : ℕ)

/-- The key in a block: a longer one is hashed first, and zeros fill the rest. -/
def keyBlock (key : List UInt8) : List UInt8 :=
  let short := if size < key.length then hash key else key
  short ++ List.replicate (size - short.length) 0

def padded (pad : UInt8) (key : List UInt8) : List UInt8 :=
  (keyBlock hash size key).map (· ^^^ pad)

def mac (key message : List UInt8) : List UInt8 :=
  hash (padded hash size 0x5C key ++ hash (padded hash size 0x36 key ++ message))

end Hmac

namespace Hkdf

variable (mac : List UInt8 → List UInt8 → List UInt8) (length : ℕ)

/-- `length` is that of what `mac` computes. -/
def extract (salt secret : List UInt8) : List UInt8 :=
  mac (if salt = [] then List.replicate length 0 else salt) secret

/-- T(0), T(1) and so on -/
def block (key info : List UInt8) : ℕ → List UInt8
  | 0 => []
  | number + 1 => mac key (block key info number ++ info ++ [UInt8.ofNat (number + 1)])

/-- The first bytes of T(1), T(2) and so on, of which there are as many as are needed. -/
def expand (key info : List UInt8) (wanted : ℕ) : List UInt8 :=
  ((List.range ((wanted + length - 1) / length)).flatMap fun number =>
    block mac key info (number + 1)).take wanted

variable {mac length}

/-- Blocks from some number on: the first one, and the rest behind it -/
theorem take_blocks_succ (key info : List UInt8) {first : ℕ}
    (full : (block mac key info (first + 1)).length = length) (count wanted : ℕ) :
    ((List.range' first (count + 1)).flatMap fun number =>
        block mac key info (number + 1)).take wanted =
      (block mac key info (first + 1)).take (min length wanted) ++
        ((List.range' (first + 1) count).flatMap fun number =>
          block mac key info (number + 1)).take (wanted - min length wanted) := by
  have behind : wanted - min length wanted = wanted - length := by omega
  have front : (block mac key info (first + 1)).take (min length wanted) =
      (block mac key info (first + 1)).take wanted := by
    simp only [← full, Nat.min_comm _ wanted, List.take_eq_take_iff]
    omega
  simp only [List.range'_succ, List.flatMap_cons, List.take_append, behind, front, full]

end Hkdf

end Imconee.Lib
