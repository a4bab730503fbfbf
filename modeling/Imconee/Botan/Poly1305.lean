import Imconee.Botan.AlignmentBuffer
import Imconee.Botan.Mask
import Imconee.Lib.LittleEndian

/-!
# `Botan::Poly1305`

The one-time authenticator with limbs of 44, 44 and 42 bits, as 64-bit words with products of
128 bits. No limb overflows, and the limbs together carry the polynomial of the message
modulo `2 ^ 130 - 5`.

The last step is to take `p` away from what has not been reduced completely. It is taken away
when adding 5 carries out of the lower two limbs, whatever the third one is: a residue whose
lower 88 bits are at least `2 ^ 88 - 5` comes out 5 too large.
-/

set_option autoImplicit false

namespace Imconee.Botan

open Imconee.Lib

/-- `load_le<uint64_t>` -/
def loadLe64 (bytes : List UInt8) (index : ℕ) : UInt64 :=
  UInt64.ofNat (LittleEndian.decode ((bytes.drop (8 * index)).take 8))

/-- `uint128_t(x)` -/
def wide (x : UInt64) : BitVec 128 := x.toBitVec.setWidth 128

/-- `carry_shift` -/
def carryShift (a : BitVec 128) (shift : ℕ) : UInt64 := ⟨(a >>> shift).setWidth 64⟩

/-- `uint128_t & uint64_t`, stored in a `uint64_t` -/
def masked (a : BitVec 128) (mask : UInt64) : UInt64 := ⟨(a &&& wide mask).setWidth 64⟩

namespace Poly1305

/-- The words of `m_poly`: `r`, `h` and the pad. -/
@[ext]
structure Limbs where
  r0 : UInt64
  r1 : UInt64
  r2 : UInt64
  h0 : UInt64
  h1 : UInt64
  h2 : UInt64
  pad0 : UInt64
  pad1 : UInt64
  deriving DecidableEq, Repr

/-- 44 bits, the size of the first two limbs -/
def m44 : UInt64 := 0xFFFFFFFFFFF

/-- 42 bits, the size of the last one -/
def m42 : UInt64 := 0x3FFFFFFFFFF

/-- `poly1305_init`: `r` is clamped as it is cut into limbs. -/
def poly1305Init (key : List UInt8) : Limbs :=
  let t0 := loadLe64 key 0
  let t1 := loadLe64 key 1
  { r0 := t0 &&& 0xffc0fffffff
    r1 := ((t0 >>> 44) ||| (t1 <<< 20)) &&& 0xfffffc0ffff
    r2 := (t1 >>> 24) &&& 0x00ffffffc0f
    h0 := 0
    h1 := 0
    h2 := 0
    pad0 := loadLe64 key 2
    pad1 := loadLe64 key 3 }

/-- The bit behind a whole block -/
def hibit (isFinal : Bool) : UInt64 := if isFinal then 0 else (1 : UInt64) <<< 40

/-- `h` times `r`, the second half of the body of the loop of `poly1305_blocks` -/
def multiply (X : Limbs) (h0 h1 h2 : UInt64) : Limbs :=
  let s1 := X.r1 * 20
  let s2 := X.r2 * 20
  let d0 := wide h0 * wide X.r0 + wide h1 * wide s2 + wide h2 * wide s1
  let c0 := carryShift d0 44
  let d1 := wide h0 * wide X.r1 + wide h1 * wide X.r0 + wide h2 * wide s2 + wide c0
  let c1 := carryShift d1 44
  let d2 := wide h0 * wide X.r2 + wide h1 * wide X.r1 + wide h2 * wide X.r0 + wide c1
  let c2 := carryShift d2 42
  let h0 := masked d0 m44
  let h1 := masked d1 m44
  let h2 := masked d2 m42
  let h0 := h0 + c2 * 5
  let h1 := h1 + h0 >>> 44
  let h0 := h0 &&& m44
  { X with h0, h1, h2 }

/-- The body of the loop of `poly1305_blocks` -/
def poly1305Block (isFinal : Bool) (X : Limbs) (m : List UInt8) : Limbs :=
  let t0 := loadLe64 m 0
  let t1 := loadLe64 m 1
  let h0 := X.h0 + (t0 &&& m44)
  let h1 := X.h1 + (((t0 >>> 44) ||| (t1 <<< 20)) &&& m44)
  let h2 := X.h2 + (((t1 >>> 24) &&& m42) ||| hibit isFinal)
  multiply X h0 h1 h2

/-- `poly1305_blocks` -/
def poly1305Blocks (isFinal : Bool) : Limbs → List UInt8 → ℕ → Limbs
  | X, _, 0 => X
  | X, m, blocks + 1 => poly1305Blocks isFinal (poly1305Block isFinal X m) (m.drop 16) blocks

/-- Three limbs of `poly1305_finish` -/
abbrev Limbs3 := UInt64 × UInt64 × UInt64

/-- What `poly1305_finish` does twice to fully carry `h` -/
def carryPass (h : Limbs3) : Limbs3 :=
  let h0 := h.1
  let h1 := h.2.1
  let h2 := h.2.2
  let c := h1 >>> 44
  let h1 := h1 &&& m44
  let h2 := h2 + c
  let c := h2 >>> 42
  let h2 := h2 &&& m42
  let h0 := h0 + c * 5
  let c := h0 >>> 44
  let h0 := h0 &&& m44
  let h1 := h1 + c
  (h0, h1, h2)

/-- `h` if `h < p`, or `h + -p` if `h >= p` -/
def selectReduced (h : Limbs3) : Limbs3 :=
  let h0 := h.1
  let h1 := h.2.1
  let h2 := h.2.2
  let g0 := h0 + 5
  let c := g0 >>> 44
  let g0 := g0 &&& m44
  let g1 := h1 + c
  let c := g1 >>> 44
  let g1 := g1 &&& m44
  let g2 := h2 + c - (1 : UInt64) <<< 42
  let cMask := Mask.expand c.toBitVec
  (⟨cMask.select g0.toBitVec h0.toBitVec⟩, ⟨cMask.select g1.toBitVec h1.toBitVec⟩,
    ⟨cMask.select g2.toBitVec h2.toBitVec⟩)

/-- `h + pad` in limbs -/
def addPad (h : Limbs3) (t0 t1 : UInt64) : Limbs3 :=
  let h0 := h.1
  let h1 := h.2.1
  let h2 := h.2.2
  let h0 := h0 + (t0 &&& m44)
  let c := h0 >>> 44
  let h0 := h0 &&& m44
  let h1 := h1 + (((t0 >>> 44) ||| (t1 <<< 20)) &&& m44) + c
  let c := h1 >>> 44
  let h1 := h1 &&& m44
  let h2 := h2 + ((t1 >>> 24) &&& m42) + c
  let h2 := h2 &&& m42
  (h0, h1, h2)

/-- `h % (2^128)` as bytes -/
def storeMac (h : Limbs3) : List UInt8 :=
  let h0 := h.1
  let h1 := h.2.1
  let h2 := h.2.2
  let h0 := h0 ||| (h1 <<< 44)
  let h1 := (h1 >>> 20) ||| (h2 <<< 24)
  LittleEndian.encode 8 h0.toNat ++ LittleEndian.encode 8 h1.toNat

/-- `poly1305_finish`: the tag -/
def poly1305Finish (X : Limbs) : List UInt8 :=
  let h := carryPass (carryPass (X.h0, X.h1, X.h2))
  let h := selectReduced h
  storeMac (addPad h X.pad0 X.pad1)

end Poly1305

/-- `Poly1305`; without a key `m_poly` is empty. -/
structure Poly1305 where
  poly : Option Poly1305.Limbs
  buffer : AlignmentBuffer 16 .isNotSpecial
  deriving Repr

namespace Poly1305

/-- `set_key`, where 32 bytes are required -/
def setKey (self : Poly1305) (key : List UInt8) : Option Poly1305 :=
  if key.length = 32 then some { poly := some (poly1305Init key), buffer := self.buffer.clear }
  else none

/-- `update` -/
def addData (self : Poly1305) (input : List UInt8) : Option Poly1305 := do
  let poly ← self.poly
  let added ← AlignmentBuffer.addData (poly1305Blocks false) poly self.buffer input
  return { poly := some added.1, buffer := added.2 }

/-- `final`: the tag and what is left of the object -/
def finalResult (self : Poly1305) : Option (List UInt8 × Poly1305) := do
  let poly ← self.poly
  if self.buffer.inAlignment then
    return (poly1305Finish poly, { poly := none, buffer := self.buffer.clear })
  else
    let buffer ← self.buffer.append [0x01]
    let consumed ← buffer.fillUpWithZeros.consume
    return (poly1305Finish (poly1305Blocks true poly consumed.2 1),
      { poly := none, buffer := consumed.1.clear })

end Poly1305

end Imconee.Botan
