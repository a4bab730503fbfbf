import Imconee.Botan.ChaCha

/-!
# The lanes of ChaCha

Words 12 and 13 of a state are one counter of 64 bits. A lane of the registers is the state
with that counter moved on by the number of the lane, through the rounds as well, and the
transpositions put the blocks of the lanes one behind the other. So each of the three wide
versions makes the blocks that the base version makes one after another.
-/

set_option autoImplicit false

namespace Imconee.Botan.ChaCha

open Imconee.Lib

/-! ### The counter -/

/-- The number in words 12 and 13 -/
def counter (state : State) : ℕ := state.x12.toNat + 2 ^ 32 * state.x13.toNat

/-- The state that many blocks later -/
def skip (blocks : ℕ) (state : State) : State :=
  { state with
    x12 := UInt32.ofNat (counter state + blocks)
    x13 := UInt32.ofNat ((counter state + blocks) / 2 ^ 32) }

theorem skip_zero (state : State) : skip 0 state = state := by
  have small := state.x12.toNat_lt
  have low : UInt32.ofNat (counter state) = state.x12 := by
    apply UInt32.toNat_inj.mp
    rw [UInt32.toNat_ofNat', counter]
    omega
  have high : UInt32.ofNat (counter state / 2 ^ 32) = state.x13 := by
    have quotient : counter state / 2 ^ 32 = state.x13.toNat := by
      rw [counter]
      omega
    rw [quotient, UInt32.ofNat_toNat]
  rw [skip, Nat.add_zero, low, high]

theorem counter_skip (blocks : ℕ) (state : State) :
    counter (skip blocks state) = (counter state + blocks) % 2 ^ 64 := by
  rw [counter, skip, UInt32.toNat_ofNat', UInt32.toNat_ofNat']
  omega

/-- The counter is one number of 64 bits. -/
theorem skip_skip (first second : ℕ) (state : State) :
    skip second (skip first state) = skip (first + second) state := by
  have low : UInt32.ofNat (counter (skip first state) + second) =
      UInt32.ofNat (counter state + (first + second)) := by
    apply UInt32.toNat_inj.mp
    rw [counter_skip, UInt32.toNat_ofNat', UInt32.toNat_ofNat']
    omega
  have high : UInt32.ofNat ((counter (skip first state) + second) / 2 ^ 32) =
      UInt32.ofNat ((counter state + (first + second)) / 2 ^ 32) := by
    apply UInt32.toNat_inj.mp
    rw [counter_skip, UInt32.toNat_ofNat', UInt32.toNat_ofNat']
    omega
  rw [skip, low, high]
  rfl

/-- Word 12 moved on and its carry added to word 13 -/
theorem skip_of_carry (state : State) (blocks : ℕ) {carry : UInt32}
    (carried : carry.toNat = (state.x12.toNat + blocks) / 2 ^ 32) :
    { state with x12 := state.x12 + UInt32.ofNat blocks, x13 := state.x13 + carry } =
      skip blocks state := by
  have low : UInt32.ofNat (counter state + blocks) = state.x12 + UInt32.ofNat blocks := by
    apply UInt32.toNat_inj.mp
    rw [UInt32.toNat_ofNat', UInt32.toNat_add, UInt32.toNat_ofNat', counter]
    omega
  have high : UInt32.ofNat ((counter state + blocks) / 2 ^ 32) = state.x13 + carry := by
    have quotient : (counter state + blocks) / 2 ^ 32 =
        state.x13.toNat + (state.x12.toNat + blocks) / 2 ^ 32 := by
      rw [counter]
      omega
    apply UInt32.toNat_inj.mp
    rw [UInt32.toNat_ofNat', UInt32.toNat_add, carried, quotient]
  rw [skip, low, high]

theorem toNat_carry {carries : Prop} [Decidable carries] {number : ℕ} (small : number < 2 * 2 ^ 32)
    (iff : carries ↔ 2 ^ 32 ≤ number) :
    (if carries then 1 else 0 : UInt32).toNat = number / 2 ^ 32 := by
  split
  · have := iff.mp ‹carries›
    rw [UInt32.toNat_one]
    omega
  · have := mt iff.mpr ‹¬carries›
    rw [UInt32.toNat_zero]
    omega

/-- The base version moves the counter on by one. -/
theorem chachaBlock_snd (rounds : ℕ) (state : State) :
    (chachaBlock rounds state).2 = skip 1 state := by
  have bound := state.x12.toNat_lt
  apply skip_of_carry state 1
  apply toNat_carry (by omega)
  rw [← UInt32.toNat_inj, UInt32.toNat_add, UInt32.toNat_one, UInt32.toNat_zero]
  omega

/-- The wide versions move the counter on by their width. -/
theorem countedBy_eq {width : ℕ} (small : width < 2 ^ 32) (state : State) :
    countedBy (UInt32.ofNat width) state = skip width state := by
  have bound := state.x12.toNat_lt
  have choice : ∀ carries : Prop, [Decidable carries] →
      (if carries then state.x13 + 1 else state.x13) = state.x13 + if carries then 1 else 0 := by
    intro carries _
    split <;> simp
  rw [countedBy, choice]
  apply skip_of_carry state
  apply toNat_carry (by omega)
  rw [UInt32.lt_iff_toNat_lt, UInt32.toNat_add, UInt32.toNat_ofNat', Nat.mod_eq_of_lt small]
  omega

/-! ### One lane -/

variable {width : ℕ}

/-- What a lane holds -/
def Words.lane (R : Words (Lanes width)) (lane : ℕ) : State where
  x00 := R.x00.lane lane
  x01 := R.x01.lane lane
  x02 := R.x02.lane lane
  x03 := R.x03.lane lane
  x04 := R.x04.lane lane
  x05 := R.x05.lane lane
  x06 := R.x06.lane lane
  x07 := R.x07.lane lane
  x08 := R.x08.lane lane
  x09 := R.x09.lane lane
  x10 := R.x10.lane lane
  x11 := R.x11.lane lane
  x12 := R.x12.lane lane
  x13 := R.x13.lane lane
  x14 := R.x14.lane lane
  x15 := R.x15.lane lane

section

variable {lane : ℕ} (inside : lane < width)

include inside

theorem lane_byLane (word : ℕ → UInt32) :
    (Lanes.byLane word : Lanes width).lane lane = word lane := by
  simp [Lanes.lane, Lanes.byLane, inside]

theorem lane_add (x y : Lanes width) : (x + y).lane lane = x.lane lane + y.lane lane :=
  lane_byLane inside _

theorem lane_xor (x y : Lanes width) : (x ^^^ y).lane lane = x.lane lane ^^^ y.lane lane :=
  lane_byLane inside _

theorem lane_rotl (rotation : UInt32) (x : Lanes width) :
    (x.rotl rotation).lane lane = rotl rotation (x.lane lane) := lane_byLane inside _

theorem lane_columnsUpper (rotation : UInt32) (R : Words (Lanes width)) :
    (columnsUpper Lanes.rotl rotation R).lane lane =
      columnsUpper rotl rotation (R.lane lane) := by
  simp only [columnsUpper, Words.lane, lane_add inside, lane_xor inside, lane_rotl inside]

theorem lane_columnsLower (rotation : UInt32) (R : Words (Lanes width)) :
    (columnsLower Lanes.rotl rotation R).lane lane =
      columnsLower rotl rotation (R.lane lane) := by
  simp only [columnsLower, Words.lane, lane_add inside, lane_xor inside, lane_rotl inside]

theorem lane_diagonalsUpper (rotation : UInt32) (R : Words (Lanes width)) :
    (diagonalsUpper Lanes.rotl rotation R).lane lane =
      diagonalsUpper rotl rotation (R.lane lane) := by
  simp only [diagonalsUpper, Words.lane, lane_add inside, lane_xor inside, lane_rotl inside]

theorem lane_diagonalsLower (rotation : UInt32) (R : Words (Lanes width)) :
    (diagonalsLower Lanes.rotl rotation R).lane lane =
      diagonalsLower rotl rotation (R.lane lane) := by
  simp only [diagonalsLower, Words.lane, lane_add inside, lane_xor inside, lane_rotl inside]

/-- The order of the statements of the wide versions is another one, what they compute in a
lane is not. -/
theorem lane_laneRounds (R : Words (Lanes width)) :
    (laneRounds Lanes.rotl R).lane lane = diagonalRound (columnRound (R.lane lane)) := by
  simp only [laneRounds, lane_diagonalsLower inside, lane_diagonalsUpper inside,
    lane_columnsLower inside, lane_columnsUpper inside]
  rfl

/-- Each lane goes through the rounds by itself. -/
theorem lane_doubleRounds (count : ℕ) (R : Words (Lanes width)) :
    (doubleRounds (laneRounds Lanes.rotl) count R).lane lane =
      doubleRounds (fun x => diagonalRound (columnRound x)) count (R.lane lane) := by
  induction count generalizing R with
  | zero => rfl
  | succ count ih => rw [doubleRounds, doubleRounds, ih, lane_laneRounds inside]

theorem lane_words_add (R S : Words (Lanes width)) :
    (R.add S).lane lane = (R.lane lane).add (S.lane lane) := by
  simp only [Words.add, Words.lane, lane_add inside]

/-- A lane starts from the state of its block. -/
theorem lane_splatted (small : lane < 2 ^ 32) (state : State) :
    (splatted state : Words (Lanes width)).lane lane = skip lane state := by
  have bound := state.x12.toNat_lt
  have low : state.x12.toNat ≤ (0xFFFFFFFF : UInt32).toNat := Nat.le_of_lt_succ bound
  have carried : { state with
      x12 := state.x12 + UInt32.ofNat lane
      x13 := state.x13 + if 0xFFFFFFFF - state.x12 < UInt32.ofNat lane then 1 else 0 } =
        skip lane state := by
    apply skip_of_carry state
    apply toNat_carry (by omega)
    rw [UInt32.lt_iff_toNat_lt, UInt32.toNat_sub_of_le _ _ (UInt32.le_iff_toNat_le.mpr low),
      UInt32.toNat_ofNat', Nat.mod_eq_of_lt small]
    have top : (0xFFFFFFFF : UInt32).toNat = 2 ^ 32 - 1 := rfl
    omega
  rw [← carried]
  simp only [splatted, Words.lane, Lanes.splat, counterLow, counterHigh, lane_add inside,
    lane_byLane inside]

/-- Each lane is a block of its own, with its own counter. -/
theorem lane_laneBlocks (rounds : ℕ) (small : lane < 2 ^ 32) (state : State) :
    (laneBlocks width rounds state).lane lane = blockWords rounds (skip lane state) := by
  rw [laneBlocks, lane_words_add inside, lane_doubleRounds inside, lane_splatted inside small,
    blockWords]

end

/-! ### All lanes -/

/-- The words of the first lanes, one lane after the other -/
def laneWords (R : Words (Lanes width)) : List UInt32 :=
  (List.range width).flatMap fun lane => (R.lane lane).toList

/-- What the base version makes of a number of blocks -/
theorem batches_chachaBlock (rounds count : ℕ) (state : State) :
    batches (chachaBlock rounds) count state =
      (storeLe32 ((List.range count).flatMap fun block =>
        (blockWords rounds (skip block state)).toList), skip count state) := by
  induction count generalizing state with
  | zero => rw [skip_zero]; rfl
  | succ count ih =>
      have later : ∀ block, skip block (skip 1 state) = skip (block + 1) state := by
        intro block
        rw [skip_skip, Nat.add_comm]
      rw [batches, followed, chachaBlock_snd, ih, List.range_succ_eq_map, List.flatMap_cons,
        List.flatMap_map, skip_zero, later]
      simp only [later, storeLe32, List.flatMap_append, chachaBlock]

/-- A wide version that stores its lanes one behind the other is as good as the base version. -/
theorem wide_eq (rounds : ℕ) (small : width < 2 ^ 32) (state : State) :
    (storeLe32 (laneWords (laneBlocks width rounds state)),
      countedBy (UInt32.ofNat width) state) = batches (chachaBlock rounds) width state := by
  have blocks : laneWords (laneBlocks width rounds state) =
      (List.range width).flatMap fun block => (blockWords rounds (skip block state)).toList := by
    apply List.flatMap_congr
    intro lane mem
    have inside := List.mem_range.mp mem
    rw [lane_laneBlocks inside rounds (Nat.lt_trans inside small)]
  rw [blocks, countedBy_eq small, batches_chachaBlock]

/-- The registers are stored block by block. -/
theorem stored_simd32 (R : Words (Lanes 4)) :
    let A := Lanes.transpose4 R.x00 R.x01 R.x02 R.x03
    let B := Lanes.transpose4 R.x04 R.x05 R.x06 R.x07
    let C := Lanes.transpose4 R.x08 R.x09 R.x10 R.x11
    let D := Lanes.transpose4 R.x12 R.x13 R.x14 R.x15
    [A.b0, B.b0, C.b0, D.b0, A.b1, B.b1, C.b1, D.b1, A.b2, B.b2, C.b2, D.b2, A.b3, B.b3, C.b3,
      D.b3].flatMap Lanes.words = laneWords R := rfl

theorem stored_avx2 (R : Words (Lanes 8)) :
    let A := Lanes.transpose8 R.x00 R.x01 R.x02 R.x03 R.x04 R.x05 R.x06 R.x07
    let B := Lanes.transpose8 R.x08 R.x09 R.x10 R.x11 R.x12 R.x13 R.x14 R.x15
    [A.b0, B.b0, A.b1, B.b1, A.b2, B.b2, A.b3, B.b3, A.b4, B.b4, A.b5, B.b5, A.b6, B.b6, A.b7,
      B.b7].flatMap Lanes.words = laneWords R := by
  intro A B
  have registers : [[A.b0, B.b0], [A.b1, B.b1], [A.b2, B.b2], [A.b3, B.b3], [A.b4, B.b4],
      [A.b5, B.b5], [A.b6, B.b6], [A.b7, B.b7]].map (List.flatMap Lanes.words) =
        (List.range 8).map fun lane => (R.lane lane).toList := rfl
  have blocks : laneWords R = ((List.range 8).map fun lane => (R.lane lane).toList).flatten :=
    List.flatMap_def
  rw [blocks, ← registers]
  simp only [List.map_cons, List.map_nil, List.flatten_cons, List.flatten_nil, List.flatMap_cons,
    List.flatMap_nil, List.append_assoc, List.nil_append]

theorem stored_avx512 (R : Words (Lanes 16)) :
    (Lanes.transpose16 R).toList.flatMap Lanes.words = laneWords R := by
  have registers : (Lanes.transpose16 R).toList.map Lanes.words =
      (List.range 16).map fun lane => (R.lane lane).toList := rfl
  rw [List.flatMap_def, registers, laneWords, List.flatMap_def]

/-- The version for four blocks makes the same four blocks. -/
theorem chachaSimd32x4_eq (rounds : ℕ) :
    chachaSimd32x4 rounds = batches (chachaBlock rounds) 4 := by
  funext state
  rw [← wide_eq rounds (by decide), ← stored_simd32]
  rfl

theorem chachaAvx2x8_eq (rounds : ℕ) :
    chachaAvx2x8 rounds = batches (chachaBlock rounds) 8 := by
  funext state
  rw [← wide_eq rounds (by decide), ← stored_avx2]
  rfl

theorem chachaAvx512x16_eq (rounds : ℕ) :
    chachaAvx512x16 rounds = batches (chachaBlock rounds) 16 := by
  funext state
  rw [← wide_eq rounds (by decide), ← stored_avx512]
  rfl

/-! ### Any number of blocks -/

/-- A loop over wide batches, and the blocks that it leaves one after another -/
theorem wideBlocks_followed (has : Bool) (width : ℕ) (block : State → List UInt8 × State)
    (outputBlocks : ℕ) :
    followed (wideBlocks has width (batches block width) outputBlocks)
      (batches block (leftBlocks has width outputBlocks)) = batches block outputBlocks := by
  cases has with
  | false => rfl
  | true =>
      simp only [wideBlocks, leftBlocks, if_true]
      rw [batches_batches, batches_add, Nat.div_add_mod]

/-- Whatever the processor has, the blocks are those of the base version. -/
theorem chacha_eq (cpu : Cpu) (rounds outputBlocks : ℕ) :
    chacha cpu rounds outputBlocks = batches (chachaBlock rounds) outputBlocks := by
  simp only [chacha, chachaAvx512x16_eq, chachaAvx2x8_eq, chachaSimd32x4_eq,
    wideBlocks_followed]

end Imconee.Botan.ChaCha
