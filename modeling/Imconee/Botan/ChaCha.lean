import Imconee.Lib.LittleEndian
import Imconee.Lib.Refill

/-!
# `Botan::ChaCha`

The keystream comes in blocks of 64 bytes, and the sixteen words of the state count them in
words 12 and 13. The base version makes one block after another. The versions for SIMD
registers make 4, 8 or 16 at once: each lane computes a block of its own, and the words are
transposed before they are stored.
-/

set_option autoImplicit false

namespace Imconee.Botan

open Imconee.Lib

/-- `rotl` -/
def rotl (rotation : UInt32) (input : UInt32) : UInt32 :=
  (input <<< rotation) ||| (input >>> (32 - rotation))

/-- `store_le`, of one word after another -/
def storeLe32 (words : List UInt32) : List UInt8 :=
  words.flatMap fun word => LittleEndian.encode 4 word.toNat

/-- `load_le<uint32_t>` -/
def loadLe32 (bytes : List UInt8) (index : ℕ) : UInt32 :=
  UInt32.ofNat (LittleEndian.decode ((bytes.drop (4 * index)).take 4))

namespace ChaCha

/-- The words of a state, or the registers that hold such a word in each lane. -/
@[ext]
structure Words (α : Type) where
  x00 : α
  x01 : α
  x02 : α
  x03 : α
  x04 : α
  x05 : α
  x06 : α
  x07 : α
  x08 : α
  x09 : α
  x10 : α
  x11 : α
  x12 : α
  x13 : α
  x14 : α
  x15 : α
  deriving DecidableEq, Repr

/-- The words of one block -/
abbrev State := Words UInt32

/-- The words in their order in the block -/
def Words.toList {α : Type} (x : Words α) : List α :=
  [x.x00, x.x01, x.x02, x.x03, x.x04, x.x05, x.x06, x.x07, x.x08, x.x09, x.x10, x.x11, x.x12,
    x.x13, x.x14, x.x15]

/-- The arguments of `chacha_quarter_round` -/
structure Quarter where
  a : UInt32
  b : UInt32
  c : UInt32
  d : UInt32

/-- `chacha_quarter_round` -/
def chachaQuarterRound (a b c d : UInt32) : Quarter :=
  let a := a + b
  let d := d ^^^ a
  let d := rotl 16 d
  let c := c + d
  let b := b ^^^ c
  let b := rotl 12 b
  let a := a + b
  let d := d ^^^ a
  let d := rotl 8 d
  let c := c + d
  let b := b ^^^ c
  let b := rotl 7 b
  ⟨a, b, c, d⟩

/-- The four quarter rounds over the columns -/
def columnRound (x : State) : State :=
  let q0 := chachaQuarterRound x.x00 x.x04 x.x08 x.x12
  let q1 := chachaQuarterRound x.x01 x.x05 x.x09 x.x13
  let q2 := chachaQuarterRound x.x02 x.x06 x.x10 x.x14
  let q3 := chachaQuarterRound x.x03 x.x07 x.x11 x.x15
  { x00 := q0.a, x04 := q0.b, x08 := q0.c, x12 := q0.d
    x01 := q1.a, x05 := q1.b, x09 := q1.c, x13 := q1.d
    x02 := q2.a, x06 := q2.b, x10 := q2.c, x14 := q2.d
    x03 := q3.a, x07 := q3.b, x11 := q3.c, x15 := q3.d }

/-- The four quarter rounds over the diagonals -/
def diagonalRound (x : State) : State :=
  let q0 := chachaQuarterRound x.x00 x.x05 x.x10 x.x15
  let q1 := chachaQuarterRound x.x01 x.x06 x.x11 x.x12
  let q2 := chachaQuarterRound x.x02 x.x07 x.x08 x.x13
  let q3 := chachaQuarterRound x.x03 x.x04 x.x09 x.x14
  { x00 := q0.a, x05 := q0.b, x10 := q0.c, x15 := q0.d
    x01 := q1.a, x06 := q1.b, x11 := q1.c, x12 := q1.d
    x02 := q2.a, x07 := q2.b, x08 := q2.c, x13 := q2.d
    x03 := q3.a, x04 := q3.b, x09 := q3.c, x14 := q3.d }

/-- The loop over the rounds, two at a time -/
def doubleRounds {α : Type} (twice : Words α → Words α) : ℕ → Words α → Words α
  | 0, x => x
  | count + 1, x => doubleRounds twice count (twice x)

/-- `hchacha`: the eight words of its output -/
def hchacha (input : State) (rounds : ℕ) : List UInt32 :=
  let x := doubleRounds (fun x => diagonalRound (columnRound x)) (rounds / 2) input
  [x.x00, x.x01, x.x02, x.x03, x.x12, x.x13, x.x14, x.x15]

/-- `x00 += state[0]` and so on -/
def Words.add {α : Type} [Add α] (x state : Words α) : Words α where
  x00 := x.x00 + state.x00
  x01 := x.x01 + state.x01
  x02 := x.x02 + state.x02
  x03 := x.x03 + state.x03
  x04 := x.x04 + state.x04
  x05 := x.x05 + state.x05
  x06 := x.x06 + state.x06
  x07 := x.x07 + state.x07
  x08 := x.x08 + state.x08
  x09 := x.x09 + state.x09
  x10 := x.x10 + state.x10
  x11 := x.x11 + state.x11
  x12 := x.x12 + state.x12
  x13 := x.x13 + state.x13
  x14 := x.x14 + state.x14
  x15 := x.x15 + state.x15

/-- The words of the block that a state stands for -/
def blockWords (rounds : ℕ) (state : State) : State :=
  (doubleRounds (fun x => diagonalRound (columnRound x)) (rounds / 2) state).add state

/-- The body of the last loop of `chacha` -/
def chachaBlock (rounds : ℕ) (state : State) : List UInt8 × State :=
  let x12 := state.x12 + 1
  (storeLe32 (blockWords rounds state).toList,
    { state with x12 := x12, x13 := state.x13 + if x12 = 0 then 1 else 0 })

/-! ### Registers -/

/-- `SIMD_4x32`, `SIMD_8x32` and `SIMD_16x32`: a word in each lane -/
structure Lanes (width : ℕ) where
  words : List UInt32
  length_words : words.length = width
  deriving DecidableEq, Repr

theorem length_map_range (width : ℕ) (word : ℕ → UInt32) :
    ((List.range width).map word).length = width := by
  simp

namespace Lanes

variable {width : ℕ}

/-- One lane of a register -/
def lane (x : Lanes width) (index : ℕ) : UInt32 := x.words.getD index 0

/-- A register from what each lane is to hold -/
def byLane (word : ℕ → UInt32) : Lanes width :=
  ⟨(List.range width).map word, length_map_range width word⟩

instance : Add (Lanes width) := ⟨fun x y => byLane fun lane => x.lane lane + y.lane lane⟩

instance : XorOp (Lanes width) := ⟨fun x y => byLane fun lane => x.lane lane ^^^ y.lane lane⟩

/-- `rotl` of every lane -/
def rotl (rotation : UInt32) (x : Lanes width) : Lanes width :=
  byLane fun lane => Botan.rotl rotation (x.lane lane)

/-- `splat`: the same word in every lane -/
def splat (x : UInt32) : Lanes width := byLane fun _ => x

/-- `_mm_unpacklo_epi32` and the same for wider registers: it works within each 128 bits -/
def unpackloEpi32 (a b : Lanes width) : Lanes width := byLane fun lane =>
  let first := lane / 4 * 4
  [a.lane first, b.lane first, a.lane (first + 1), b.lane (first + 1)].getD (lane % 4) 0

/-- `_mm_unpackhi_epi32` -/
def unpackhiEpi32 (a b : Lanes width) : Lanes width := byLane fun lane =>
  let first := lane / 4 * 4
  [a.lane (first + 2), b.lane (first + 2), a.lane (first + 3), b.lane (first + 3)].getD
    (lane % 4) 0

/-- `_mm_unpacklo_epi64` -/
def unpackloEpi64 (a b : Lanes width) : Lanes width := byLane fun lane =>
  let first := lane / 4 * 4
  [a.lane first, a.lane (first + 1), b.lane first, b.lane (first + 1)].getD (lane % 4) 0

/-- `_mm_unpackhi_epi64` -/
def unpackhiEpi64 (a b : Lanes width) : Lanes width := byLane fun lane =>
  let first := lane / 4 * 4
  [a.lane (first + 2), a.lane (first + 3), b.lane (first + 2), b.lane (first + 3)].getD
    (lane % 4) 0

/-- `_mm256_permute2x128_si256`: four bits select each half from the halves of both -/
def permute2x128 (a b : Lanes 8) (control : ℕ) : Lanes 8 := byLane fun lane =>
  let selected := control / 16 ^ (lane / 4) % 4
  (if selected < 2 then a else b).lane (selected % 2 * 4 + lane % 4)

/-- `_mm512_shuffle_i32x4`: two bits select each quarter, the lower two from the first -/
def shuffleI32x4 (a b : Lanes 16) (control : ℕ) : Lanes 16 := byLane fun lane =>
  let selected := control / 4 ^ (lane / 4) % 4
  (if lane / 4 < 2 then a else b).lane (selected * 4 + lane % 4)

/-- Four registers -/
structure Four (width : ℕ) where
  b0 : Lanes width
  b1 : Lanes width
  b2 : Lanes width
  b3 : Lanes width

/-- `transpose` of four registers, of any width -/
def transpose4 (b0 b1 b2 b3 : Lanes width) : Four width :=
  let t0 := unpackloEpi32 b0 b1
  let t1 := unpackloEpi32 b2 b3
  let t2 := unpackhiEpi32 b0 b1
  let t3 := unpackhiEpi32 b2 b3
  ⟨unpackloEpi64 t0 t1, unpackhiEpi64 t0 t1, unpackloEpi64 t2 t3, unpackhiEpi64 t2 t3⟩

/-- Eight registers -/
structure Eight where
  b0 : Lanes 8
  b1 : Lanes 8
  b2 : Lanes 8
  b3 : Lanes 8
  b4 : Lanes 8
  b5 : Lanes 8
  b6 : Lanes 8
  b7 : Lanes 8

/-- `SIMD_8x32::transpose` of eight registers; `swap_tops` is the pair of permutations -/
def transpose8 (b0 b1 b2 b3 b4 b5 b6 b7 : Lanes 8) : Eight :=
  let low := transpose4 b0 b1 b2 b3
  let high := transpose4 b4 b5 b6 b7
  { b0 := permute2x128 low.b0 high.b0 0x20
    b4 := permute2x128 low.b0 high.b0 0x31
    b1 := permute2x128 low.b1 high.b1 0x20
    b5 := permute2x128 low.b1 high.b1 0x31
    b2 := permute2x128 low.b2 high.b2 0x20
    b6 := permute2x128 low.b2 high.b2 0x31
    b3 := permute2x128 low.b3 high.b3 0x20
    b7 := permute2x128 low.b3 high.b3 0x31 }

/-- `SIMD_16x32::transpose` of sixteen registers -/
def transpose16 (b : Words (Lanes 16)) : Words (Lanes 16) :=
  let t0 := unpackloEpi32 b.x00 b.x01
  let t1 := unpackhiEpi32 b.x00 b.x01
  let t2 := unpackloEpi32 b.x02 b.x03
  let t3 := unpackhiEpi32 b.x02 b.x03
  let t4 := unpackloEpi32 b.x04 b.x05
  let t5 := unpackhiEpi32 b.x04 b.x05
  let t6 := unpackloEpi32 b.x06 b.x07
  let t7 := unpackhiEpi32 b.x06 b.x07
  let t8 := unpackloEpi32 b.x08 b.x09
  let t9 := unpackhiEpi32 b.x08 b.x09
  let ta := unpackloEpi32 b.x10 b.x11
  let tb := unpackhiEpi32 b.x10 b.x11
  let tc := unpackloEpi32 b.x12 b.x13
  let td := unpackhiEpi32 b.x12 b.x13
  let te := unpackloEpi32 b.x14 b.x15
  let tf := unpackhiEpi32 b.x14 b.x15
  let r0 := unpackloEpi64 t0 t2
  let r1 := unpackhiEpi64 t0 t2
  let r2 := unpackloEpi64 t1 t3
  let r3 := unpackhiEpi64 t1 t3
  let r4 := unpackloEpi64 t4 t6
  let r5 := unpackhiEpi64 t4 t6
  let r6 := unpackloEpi64 t5 t7
  let r7 := unpackhiEpi64 t5 t7
  let r8 := unpackloEpi64 t8 ta
  let r9 := unpackhiEpi64 t8 ta
  let ra := unpackloEpi64 t9 tb
  let rb := unpackhiEpi64 t9 tb
  let rc := unpackloEpi64 tc te
  let rd := unpackhiEpi64 tc te
  let re := unpackloEpi64 td tf
  let rf := unpackhiEpi64 td tf
  let t0 := shuffleI32x4 r0 r4 0x88
  let t1 := shuffleI32x4 r1 r5 0x88
  let t2 := shuffleI32x4 r2 r6 0x88
  let t3 := shuffleI32x4 r3 r7 0x88
  let t4 := shuffleI32x4 r0 r4 0xdd
  let t5 := shuffleI32x4 r1 r5 0xdd
  let t6 := shuffleI32x4 r2 r6 0xdd
  let t7 := shuffleI32x4 r3 r7 0xdd
  let t8 := shuffleI32x4 r8 rc 0x88
  let t9 := shuffleI32x4 r9 rd 0x88
  let ta := shuffleI32x4 ra re 0x88
  let tb := shuffleI32x4 rb rf 0x88
  let tc := shuffleI32x4 r8 rc 0xdd
  let td := shuffleI32x4 r9 rd 0xdd
  let te := shuffleI32x4 ra re 0xdd
  let tf := shuffleI32x4 rb rf 0xdd
  { x00 := shuffleI32x4 t0 t8 0x88
    x01 := shuffleI32x4 t1 t9 0x88
    x02 := shuffleI32x4 t2 ta 0x88
    x03 := shuffleI32x4 t3 tb 0x88
    x04 := shuffleI32x4 t4 tc 0x88
    x05 := shuffleI32x4 t5 td 0x88
    x06 := shuffleI32x4 t6 te 0x88
    x07 := shuffleI32x4 t7 tf 0x88
    x08 := shuffleI32x4 t0 t8 0xdd
    x09 := shuffleI32x4 t1 t9 0xdd
    x10 := shuffleI32x4 t2 ta 0xdd
    x11 := shuffleI32x4 t3 tb 0xdd
    x12 := shuffleI32x4 t4 tc 0xdd
    x13 := shuffleI32x4 t5 td 0xdd
    x14 := shuffleI32x4 t6 te 0xdd
    x15 := shuffleI32x4 t7 tf 0xdd }

end Lanes

section

variable {α : Type} [Add α] [XorOp α] (rotl : UInt32 → α → α)

/-- `R00 += R04` and so on, `R12 ^= R00` and so on, and the rotation of the latter -/
def columnsUpper (rotation : UInt32) (R : Words α) : Words α :=
  let R := { R with
    x00 := R.x00 + R.x04, x01 := R.x01 + R.x05, x02 := R.x02 + R.x06, x03 := R.x03 + R.x07 }
  let R := { R with
    x12 := R.x12 ^^^ R.x00, x13 := R.x13 ^^^ R.x01, x14 := R.x14 ^^^ R.x02,
    x15 := R.x15 ^^^ R.x03 }
  { R with
    x12 := rotl rotation R.x12, x13 := rotl rotation R.x13, x14 := rotl rotation R.x14,
    x15 := rotl rotation R.x15 }

/-- `R08 += R12` and so on, `R04 ^= R08` and so on, and the rotation of the latter -/
def columnsLower (rotation : UInt32) (R : Words α) : Words α :=
  let R := { R with
    x08 := R.x08 + R.x12, x09 := R.x09 + R.x13, x10 := R.x10 + R.x14, x11 := R.x11 + R.x15 }
  let R := { R with
    x04 := R.x04 ^^^ R.x08, x05 := R.x05 ^^^ R.x09, x06 := R.x06 ^^^ R.x10,
    x07 := R.x07 ^^^ R.x11 }
  { R with
    x04 := rotl rotation R.x04, x05 := rotl rotation R.x05, x06 := rotl rotation R.x06,
    x07 := rotl rotation R.x07 }

/-- `R00 += R05` and so on, `R15 ^= R00` and so on, and the rotation of the latter -/
def diagonalsUpper (rotation : UInt32) (R : Words α) : Words α :=
  let R := { R with
    x00 := R.x00 + R.x05, x01 := R.x01 + R.x06, x02 := R.x02 + R.x07, x03 := R.x03 + R.x04 }
  let R := { R with
    x15 := R.x15 ^^^ R.x00, x12 := R.x12 ^^^ R.x01, x13 := R.x13 ^^^ R.x02,
    x14 := R.x14 ^^^ R.x03 }
  { R with
    x15 := rotl rotation R.x15, x12 := rotl rotation R.x12, x13 := rotl rotation R.x13,
    x14 := rotl rotation R.x14 }

/-- `R10 += R15` and so on, `R05 ^= R10` and so on, and the rotation of the latter -/
def diagonalsLower (rotation : UInt32) (R : Words α) : Words α :=
  let R := { R with
    x10 := R.x10 + R.x15, x11 := R.x11 + R.x12, x08 := R.x08 + R.x13, x09 := R.x09 + R.x14 }
  let R := { R with
    x05 := R.x05 ^^^ R.x10, x06 := R.x06 ^^^ R.x11, x07 := R.x07 ^^^ R.x08,
    x04 := R.x04 ^^^ R.x09 }
  { R with
    x05 := rotl rotation R.x05, x06 := rotl rotation R.x06, x07 := rotl rotation R.x07,
    x04 := rotl rotation R.x04 }

/-- The body of the loop over the rounds, the same for all registers -/
def laneRounds (R : Words α) : Words α :=
  let R := columnsLower rotl 12 (columnsUpper rotl 16 R)
  let R := columnsLower rotl 7 (columnsUpper rotl 8 R)
  let R := diagonalsLower rotl 12 (diagonalsUpper rotl 16 R)
  diagonalsLower rotl 7 (diagonalsUpper rotl 8 R)

end

variable {width : ℕ}

/-- `CTR0` -/
def counterLow : Lanes width := .byLane UInt32.ofNat

/-- `CTR1`: the lanes whose lower word of the counter has run over -/
def counterHigh (state : State) : Lanes width :=
  let C := 0xFFFFFFFF - state.x12
  .byLane fun lane => if C < UInt32.ofNat lane then 1 else 0

/-- The registers before the rounds -/
def splatted (state : State) : Words (Lanes width) where
  x00 := .splat state.x00
  x01 := .splat state.x01
  x02 := .splat state.x02
  x03 := .splat state.x03
  x04 := .splat state.x04
  x05 := .splat state.x05
  x06 := .splat state.x06
  x07 := .splat state.x07
  x08 := .splat state.x08
  x09 := .splat state.x09
  x10 := .splat state.x10
  x11 := .splat state.x11
  x12 := .splat state.x12 + counterLow
  x13 := .splat state.x13 + counterHigh state
  x14 := .splat state.x14
  x15 := .splat state.x15

/-- The registers before they are transposed -/
def laneBlocks (width rounds : ℕ) (state : State) : Words (Lanes width) :=
  (doubleRounds (laneRounds Lanes.rotl) (rounds / 2) (splatted state)).add (splatted state)

/-- `state[12] += width`, and the carry -/
def countedBy (width : UInt32) (state : State) : State :=
  let x12 := state.x12 + width
  { state with x12 := x12, x13 := if x12 < width then state.x13 + 1 else state.x13 }

/-- `chacha_simd32_x4`: four blocks, which are transposed behind the rounds -/
def chachaSimd32x4 (rounds : ℕ) (state : State) : List UInt8 × State :=
  let R := laneBlocks 4 rounds state
  let A := Lanes.transpose4 R.x00 R.x01 R.x02 R.x03
  let B := Lanes.transpose4 R.x04 R.x05 R.x06 R.x07
  let C := Lanes.transpose4 R.x08 R.x09 R.x10 R.x11
  let D := Lanes.transpose4 R.x12 R.x13 R.x14 R.x15
  (storeLe32 ([A.b0, B.b0, C.b0, D.b0, A.b1, B.b1, C.b1, D.b1, A.b2, B.b2, C.b2, D.b2, A.b3, B.b3,
    C.b3, D.b3].flatMap Lanes.words), countedBy 4 state)

/-- `chacha_avx2_x8`: eight blocks -/
def chachaAvx2x8 (rounds : ℕ) (state : State) : List UInt8 × State :=
  let R := laneBlocks 8 rounds state
  let A := Lanes.transpose8 R.x00 R.x01 R.x02 R.x03 R.x04 R.x05 R.x06 R.x07
  let B := Lanes.transpose8 R.x08 R.x09 R.x10 R.x11 R.x12 R.x13 R.x14 R.x15
  (storeLe32 ([A.b0, B.b0, A.b1, B.b1, A.b2, B.b2, A.b3, B.b3, A.b4, B.b4, A.b5, B.b5, A.b6, B.b6,
    A.b7, B.b7].flatMap Lanes.words), countedBy 8 state)

/-- `chacha_avx512_x16`: sixteen blocks -/
def chachaAvx512x16 (rounds : ℕ) (state : State) : List UInt8 × State :=
  let R := Lanes.transpose16 (laneBlocks 16 rounds state)
  (storeLe32 (R.toList.flatMap Lanes.words), countedBy 16 state)

/-! ### Any number of blocks -/

/-- What `CPUID` finds -/
structure Cpu where
  hasAvx512 : Bool
  hasAvx2 : Bool
  hasSimd32 : Bool
  deriving DecidableEq, Repr

/-- One of the loops of `chacha`: as long as there are `width` blocks to make, and not at all
without the instructions -/
def wideBlocks (has : Bool) (width : ℕ) (wide : State → List UInt8 × State) (outputBlocks : ℕ) :
    State → List UInt8 × State :=
  if has then batches wide (outputBlocks / width) else fun state => ([], state)

/-- What such a loop leaves of `output_blocks` -/
def leftBlocks (has : Bool) (width outputBlocks : ℕ) : ℕ :=
  if has then outputBlocks % width else outputBlocks

/-- `ChaCha::chacha`: the widest version first, and one block at a time for the rest -/
def chacha (cpu : Cpu) (rounds outputBlocks : ℕ) : State → List UInt8 × State :=
  let left16 := leftBlocks cpu.hasAvx512 16 outputBlocks
  let left8 := leftBlocks cpu.hasAvx2 8 left16
  let left4 := leftBlocks cpu.hasSimd32 4 left8
  followed (wideBlocks cpu.hasAvx512 16 (chachaAvx512x16 rounds) outputBlocks)
    (followed (wideBlocks cpu.hasAvx2 8 (chachaAvx2x8 rounds) left16)
      (followed (wideBlocks cpu.hasSimd32 4 (chachaSimd32x4 rounds) left8)
        (batches (chachaBlock rounds) left4)))

/-- `ChaCha::parallelism`: how many blocks the buffer holds -/
def parallelism (cpu : Cpu) : ℕ :=
  if cpu.hasAvx512 then 16 else if cpu.hasAvx2 then 8 else 4

end ChaCha

end Imconee.Botan
