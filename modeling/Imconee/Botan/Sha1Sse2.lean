import Mathlib.Data.List.GetD
import Imconee.Botan.ChaChaLanes
import Imconee.Botan.Sha1

/-!
# `SHA_1::sse2_compress_n`

The version for SSE2 adds the constants to the words four at a time, while it makes the next four.
In such a group one word depends on another, so it is made without it and corrected afterwards.
-/

set_option autoImplicit false

namespace Imconee.Botan

open Imconee.Lib
open ChaCha (Lanes)

/-! ### Registers -/

namespace ChaCha.Lanes

/-- `shift_elems_right<I>`: there are zeros behind the last lane. -/
def shiftElemsRight (I : ℕ) (x : Lanes 4) : Lanes 4 := byLane fun lane => x.lane (lane + I)

/-- `shift_elems_left<I>`: there are zeros in front of the first lane. -/
def shiftElemsLeft (I : ℕ) (x : Lanes 4) : Lanes 4 :=
  byLane fun lane => if lane < I then 0 else x.lane (lane - I)

/-- `_mm_shuffle_epi32` for an `_MM_SHUFFLE`, which names the last lane first -/
def shuffleEpi32 (x : Lanes 4) (z y w v : ℕ) : Lanes 4 :=
  byLane fun lane => x.lane ([v, w, y, z].getD lane 0)

/-- `SIMD_4x32::load_be` -/
def loadBe (input : List UInt8) : Lanes 4 := byLane fun lane =>
  UInt32.ofNat (LittleEndian.decode ((input.drop (4 * lane)).take 4).reverse)

end ChaCha.Lanes

namespace SHA1.SSE2

open Lib.Sha1 (Words)

/-- What it returns, and then what it leaves in `XW0` -/
def prep (XW0 XW1 XW2 XW3 K : Lanes 4) : Lanes 4 × Lanes 4 :=
  let T0 := XW0
  let T2 := XW3.shiftElemsRight 1
  let T1 := XW0.shuffleEpi32 1 0 3 2
  let T1 := T1.unpackloEpi64 XW1
  let T0 := T0 ^^^ T1
  let T2 := T2 ^^^ XW2
  let T0 := T0 ^^^ T2
  let T2 := T0.shiftElemsLeft 3
  let T0 := T0.rotl 1
  let T2 := T2.rotl 2
  let T0 := T0 ^^^ T2
  (T0 + K, T0)

/-- A call such as `P0 = prep(W0, W1, W2, W3, K00_19)`, with the function of its constant -/
structure Preparation where
  P : Fin 4
  W0 : Fin 4
  W1 : Fin 4
  W2 : Fin 4
  W3 : Fin 4
  K : Function
  deriving DecidableEq, Repr

/-- Which of `P0` to `P3` is stored in `PT`, the four calls that take it from there, and what
is prepared after them -/
structure Group where
  stored : Fin 4
  calls : List Call
  preparation : Option Preparation
  deriving DecidableEq, Repr

/-- The groups, in the order in which they stand -/
def groups : List Group := [
  ⟨0, [⟨.F1, .A, .B, .C, .D, .E, 0⟩, ⟨.F1, .E, .A, .B, .C, .D, 1⟩,
      ⟨.F1, .D, .E, .A, .B, .C, 2⟩, ⟨.F1, .C, .D, .E, .A, .B, 3⟩],
    some ⟨0, 0, 1, 2, 3, .F1⟩⟩,
  ⟨1, [⟨.F1, .B, .C, .D, .E, .A, 0⟩, ⟨.F1, .A, .B, .C, .D, .E, 1⟩,
      ⟨.F1, .E, .A, .B, .C, .D, 2⟩, ⟨.F1, .D, .E, .A, .B, .C, 3⟩],
    some ⟨1, 1, 2, 3, 0, .F2⟩⟩,
  ⟨2, [⟨.F1, .C, .D, .E, .A, .B, 0⟩, ⟨.F1, .B, .C, .D, .E, .A, 1⟩,
      ⟨.F1, .A, .B, .C, .D, .E, 2⟩, ⟨.F1, .E, .A, .B, .C, .D, 3⟩],
    some ⟨2, 2, 3, 0, 1, .F2⟩⟩,
  ⟨3, [⟨.F1, .D, .E, .A, .B, .C, 0⟩, ⟨.F1, .C, .D, .E, .A, .B, 1⟩,
      ⟨.F1, .B, .C, .D, .E, .A, 2⟩, ⟨.F1, .A, .B, .C, .D, .E, 3⟩],
    some ⟨3, 3, 0, 1, 2, .F2⟩⟩,
  ⟨0, [⟨.F1, .E, .A, .B, .C, .D, 0⟩, ⟨.F1, .D, .E, .A, .B, .C, 1⟩,
      ⟨.F1, .C, .D, .E, .A, .B, 2⟩, ⟨.F1, .B, .C, .D, .E, .A, 3⟩],
    some ⟨0, 0, 1, 2, 3, .F2⟩⟩,
  ⟨1, [⟨.F2, .A, .B, .C, .D, .E, 0⟩, ⟨.F2, .E, .A, .B, .C, .D, 1⟩,
      ⟨.F2, .D, .E, .A, .B, .C, 2⟩, ⟨.F2, .C, .D, .E, .A, .B, 3⟩],
    some ⟨1, 1, 2, 3, 0, .F2⟩⟩,
  ⟨2, [⟨.F2, .B, .C, .D, .E, .A, 0⟩, ⟨.F2, .A, .B, .C, .D, .E, 1⟩,
      ⟨.F2, .E, .A, .B, .C, .D, 2⟩, ⟨.F2, .D, .E, .A, .B, .C, 3⟩],
    some ⟨2, 2, 3, 0, 1, .F3⟩⟩,
  ⟨3, [⟨.F2, .C, .D, .E, .A, .B, 0⟩, ⟨.F2, .B, .C, .D, .E, .A, 1⟩,
      ⟨.F2, .A, .B, .C, .D, .E, 2⟩, ⟨.F2, .E, .A, .B, .C, .D, 3⟩],
    some ⟨3, 3, 0, 1, 2, .F3⟩⟩,
  ⟨0, [⟨.F2, .D, .E, .A, .B, .C, 0⟩, ⟨.F2, .C, .D, .E, .A, .B, 1⟩,
      ⟨.F2, .B, .C, .D, .E, .A, 2⟩, ⟨.F2, .A, .B, .C, .D, .E, 3⟩],
    some ⟨0, 0, 1, 2, 3, .F3⟩⟩,
  ⟨1, [⟨.F2, .E, .A, .B, .C, .D, 0⟩, ⟨.F2, .D, .E, .A, .B, .C, 1⟩,
      ⟨.F2, .C, .D, .E, .A, .B, 2⟩, ⟨.F2, .B, .C, .D, .E, .A, 3⟩],
    some ⟨1, 1, 2, 3, 0, .F3⟩⟩,
  ⟨2, [⟨.F3, .A, .B, .C, .D, .E, 0⟩, ⟨.F3, .E, .A, .B, .C, .D, 1⟩,
      ⟨.F3, .D, .E, .A, .B, .C, 2⟩, ⟨.F3, .C, .D, .E, .A, .B, 3⟩],
    some ⟨2, 2, 3, 0, 1, .F3⟩⟩,
  ⟨3, [⟨.F3, .B, .C, .D, .E, .A, 0⟩, ⟨.F3, .A, .B, .C, .D, .E, 1⟩,
      ⟨.F3, .E, .A, .B, .C, .D, 2⟩, ⟨.F3, .D, .E, .A, .B, .C, 3⟩],
    some ⟨3, 3, 0, 1, 2, .F4⟩⟩,
  ⟨0, [⟨.F3, .C, .D, .E, .A, .B, 0⟩, ⟨.F3, .B, .C, .D, .E, .A, 1⟩,
      ⟨.F3, .A, .B, .C, .D, .E, 2⟩, ⟨.F3, .E, .A, .B, .C, .D, 3⟩],
    some ⟨0, 0, 1, 2, 3, .F4⟩⟩,
  ⟨1, [⟨.F3, .D, .E, .A, .B, .C, 0⟩, ⟨.F3, .C, .D, .E, .A, .B, 1⟩,
      ⟨.F3, .B, .C, .D, .E, .A, 2⟩, ⟨.F3, .A, .B, .C, .D, .E, 3⟩],
    some ⟨1, 1, 2, 3, 0, .F4⟩⟩,
  ⟨2, [⟨.F3, .E, .A, .B, .C, .D, 0⟩, ⟨.F3, .D, .E, .A, .B, .C, 1⟩,
      ⟨.F3, .C, .D, .E, .A, .B, 2⟩, ⟨.F3, .B, .C, .D, .E, .A, 3⟩],
    some ⟨2, 2, 3, 0, 1, .F4⟩⟩,
  ⟨3, [⟨.F4, .A, .B, .C, .D, .E, 0⟩, ⟨.F4, .E, .A, .B, .C, .D, 1⟩,
      ⟨.F4, .D, .E, .A, .B, .C, 2⟩, ⟨.F4, .C, .D, .E, .A, .B, 3⟩],
    some ⟨3, 3, 0, 1, 2, .F4⟩⟩,
  ⟨0, [⟨.F4, .B, .C, .D, .E, .A, 0⟩, ⟨.F4, .A, .B, .C, .D, .E, 1⟩,
      ⟨.F4, .E, .A, .B, .C, .D, 2⟩, ⟨.F4, .D, .E, .A, .B, .C, 3⟩],
    none⟩,
  ⟨1, [⟨.F4, .C, .D, .E, .A, .B, 0⟩, ⟨.F4, .B, .C, .D, .E, .A, 1⟩,
      ⟨.F4, .A, .B, .C, .D, .E, 2⟩, ⟨.F4, .E, .A, .B, .C, .D, 3⟩],
    none⟩,
  ⟨2, [⟨.F4, .D, .E, .A, .B, .C, 0⟩, ⟨.F4, .C, .D, .E, .A, .B, 1⟩,
      ⟨.F4, .B, .C, .D, .E, .A, 2⟩, ⟨.F4, .A, .B, .C, .D, .E, 3⟩],
    none⟩,
  ⟨3, [⟨.F4, .E, .A, .B, .C, .D, 0⟩, ⟨.F4, .D, .E, .A, .B, .C, 1⟩,
      ⟨.F4, .C, .D, .E, .A, .B, 2⟩, ⟨.F4, .B, .C, .D, .E, .A, 3⟩],
    none⟩]

/-- The variables of `sse2_compress_n` -/
structure Locals where
  digest : Words
  W : Fin 4 → Lanes 4
  P : Fin 4 → Lanes 4

/-- `E += f(B, C, D) + msg + rotl<5>(A); B = rotl<30>(B)` -/
def runCall (PT : Lanes 4) (digest : Words) (call : Call) : Words :=
  let E := get digest call.e +
    (call.f.apply (get digest call.b) (get digest call.c) (get digest call.d) + PT.lane call.w +
      rotl32 5 (get digest call.a))
  let digest := set digest E call.e
  set digest (rotl32 30 (get digest call.b)) call.b

/-- The call changes the words that it is given and one of `P0` to `P3`. -/
def Preparation.run (preparation : Preparation) (locals : Locals) : Locals :=
  let W := locals.W
  let prepared := prep (W preparation.W0) (W preparation.W1) (W preparation.W2) (W preparation.W3)
    (.splat preparation.K.constant)
  { locals with
    W := Function.update W preparation.W0 prepared.2
    P := Function.update locals.P preparation.P prepared.1 }

/-- The stored words are used up before the next four are made. -/
def Group.run (group : Group) (locals : Locals) : Locals :=
  let PT := locals.P group.stored
  let called := { locals with digest := group.calls.foldl (runCall PT) locals.digest }
  group.preparation.elim called fun preparation => preparation.run called

/-- What stands in front of the first group -/
def loaded (digest : Words) (block : List UInt8) : Locals :=
  let W : Fin 4 → Lanes 4 := fun index => .loadBe (block.drop (16 * index))
  ⟨digest, W, fun index => W index + .splat 0x5A827999⟩

/-- The body of the loop of `sse2_compress_n` -/
def compress (digest : Words) (block : List UInt8) : Words :=
  digest.add (groups.foldl (fun locals group => group.run locals) (loaded digest block)).digest

/-! ### Four words at a time -/

theorem toBitVec_rotl_one (word : UInt32) : (rotl 1 word).toBitVec = word.toBitVec.rotateLeft 1 :=
  rfl

theorem toBitVec_rotl_two (word : UInt32) : (rotl 2 word).toBitVec = word.toBitVec.rotateLeft 2 :=
  rfl

theorem rotl_one_xor (first second : UInt32) :
    rotl 1 (first ^^^ second) = rotl 1 first ^^^ rotl 1 second := by
  apply UInt32.toBitVec_inj.mp
  apply BitVec.eq_of_getLsbD_eq
  intro index inside
  simp only [UInt32.toBitVec_xor, toBitVec_rotl_one, BitVec.getLsbD_rotateLeft, BitVec.getLsbD_xor]
  cases decide (index < 1 % 32) <;> simp [inside]

theorem rotl_one_rotl_one (word : UInt32) : rotl 1 (rotl 1 word) = rotl 2 word := by
  apply UInt32.toBitVec_inj.mp
  apply BitVec.eq_of_getLsbD_eq
  intro index inside
  simp only [toBitVec_rotl_one, toBitVec_rotl_two, BitVec.getLsbD_rotateLeft]
  grind

/-- The words of a list from `16` on are made as in the message schedule. -/
def Scheduled (words : List UInt32) : Prop :=
  ∀ t, 16 ≤ t → t < words.length → words.getD t 0 = Lib.Sha1.scheduled words t

theorem length_wordsBe (block : List UInt8) : (wordsBe block).length = 16 := by
  simp [wordsBe]

/-- A word depends only on words before it. -/
theorem scheduled_append (words others : List UInt32) {t : ℕ} (positive : 0 < t)
    (inside : t ≤ words.length) :
    Lib.Sha1.scheduled (words ++ others) t = Lib.Sha1.scheduled words t := by
  have before : ∀ back, 0 < back → (words ++ others).getD (t - back) 0 =
      words.getD (t - back) 0 := by
    intro back any
    apply List.getD_append
    exact Nat.lt_of_lt_of_le (Nat.sub_lt positive any) inside
  simp only [Lib.Sha1.scheduled, before 3 (by decide), before 8 (by decide),
    before 14 (by decide), before 16 (by decide)]

theorem Scheduled.concat {words : List UInt32} (scheduled : Scheduled words) :
    Scheduled (words ++ [Lib.Sha1.scheduled words words.length]) := by
  intro t later inside
  have bound : t ≤ words.length := by
    simp only [List.length_append, List.length_singleton] at inside
    omega
  apply Eq.trans _ (scheduled_append words _ (by omega) bound).symm
  rcases Nat.lt_or_eq_of_le bound with old | rfl
  · exact (List.getD_append _ _ _ _ old).trans (scheduled t later old)
  · simp

/-- The message schedule goes on word by word. -/
theorem schedule_succ (block : List UInt8) (count : ℕ) :
    Lib.Sha1.schedule block (16 + (count + 1)) = Lib.Sha1.schedule block (16 + count) ++
      [Lib.Sha1.scheduled (Lib.Sha1.schedule block (16 + count)) (16 + count)] := by
  have indices : List.range' 16 (16 + (count + 1) - 16) =
      List.range' 16 (16 + count - 16) ++ [16 + count] := by
    simp only [Nat.add_sub_cancel_left, List.range'_1_concat]
  simp only [Lib.Sha1.schedule, indices, List.foldl_append, List.foldl_cons, List.foldl_nil]

/-- The message schedule is made one word after another behind the first sixteen. -/
theorem schedule_scheduled (block : List UInt8) (count : ℕ) :
    (Lib.Sha1.schedule block (16 + count)).length = 16 + count ∧
      Scheduled (Lib.Sha1.schedule block (16 + count)) := by
  induction count with
  | zero =>
      have length : (Lib.Sha1.schedule block (16 + 0)).length = 16 := length_wordsBe block
      apply And.intro length
      intro t from16 inside
      omega
  | succ count ih =>
      obtain ⟨length, scheduled⟩ := ih
      have concat := scheduled.concat
      rw [length] at concat
      rw [schedule_succ]
      apply And.intro _ concat
      simp only [List.length_append, List.length_singleton, length]
      omega

theorem Scheduled.word {words : List UInt32} (scheduled : Scheduled words) (s : ℕ)
    (inside : s + 16 < words.length) : words.getD (s + 16) 0 =
      rotl 1 (words.getD (s + 13) 0 ^^^ words.getD (s + 8) 0 ^^^ words.getD (s + 2) 0 ^^^
        words.getD s 0) :=
  scheduled (s + 16) (by omega) inside

theorem lane_of_le (x : Lanes 4) {lane : ℕ} (outside : 4 ≤ lane) : x.lane lane = 0 := by
  apply List.getD_eq_default
  simpa only [x.length_words] using outside

/-- A register holds the four words from `s` on. -/
def HoldsFrom (words : List UInt32) (s : ℕ) (x : Lanes 4) : Prop :=
  ∀ lane < 4, x.lane lane = words.getD (s + lane) 0

/-- What is left of the exclusive ors in each lane -/
theorem lane_prep (XW0 XW1 XW2 XW3 K : Lanes 4) :
    (prep XW0 XW1 XW2 XW3 K).2.lane 0 =
        rotl 1 (XW0.lane 0 ^^^ XW0.lane 2 ^^^ (XW3.lane 1 ^^^ XW2.lane 0)) ∧
      (prep XW0 XW1 XW2 XW3 K).2.lane 1 =
        rotl 1 (XW0.lane 1 ^^^ XW0.lane 3 ^^^ (XW3.lane 2 ^^^ XW2.lane 1)) ∧
      (prep XW0 XW1 XW2 XW3 K).2.lane 2 =
        rotl 1 (XW0.lane 2 ^^^ XW1.lane 0 ^^^ (XW3.lane 3 ^^^ XW2.lane 2)) ∧
      (prep XW0 XW1 XW2 XW3 K).2.lane 3 =
        rotl 1 (XW0.lane 3 ^^^ XW1.lane 1 ^^^ XW2.lane 3) ^^^
          rotl 2 (XW0.lane 0 ^^^ XW0.lane 2 ^^^ (XW3.lane 1 ^^^ XW2.lane 0)) := by
  have none : rotl 2 0 = 0 := rfl
  have after := lane_of_le XW3 (Nat.le_refl 4)
  refine ⟨?_, ?_, ?_, ?_⟩ <;>
    simp [prep, ChaCha.lane_xor, ChaCha.lane_rotl, Lanes.shiftElemsRight, Lanes.shiftElemsLeft,
      Lanes.shuffleEpi32, Lanes.unpackloEpi64, ChaCha.lane_byLane, none, after]

/-- The four lanes of the result are the next four words, the last of which needs the first. -/
theorem holdsFrom_prep {words : List UInt32} (scheduled : Scheduled words) {s : ℕ}
    (inside : s + 20 ≤ words.length) {XW0 XW1 XW2 XW3 : Lanes 4} (holds0 : HoldsFrom words s XW0)
    (holds1 : HoldsFrom words (s + 4) XW1) (holds2 : HoldsFrom words (s + 8) XW2)
    (holds3 : HoldsFrom words (s + 12) XW3) (K : Lanes 4) :
    HoldsFrom words (s + 16) (prep XW0 XW1 XW2 XW3 K).2 := by
  obtain ⟨first, second, third, fourth⟩ := lane_prep XW0 XW1 XW2 XW3 K
  have word := scheduled.word s (by omega)
  have word1 := scheduled.word (s + 1) (by omega)
  have word2 := scheduled.word (s + 2) (by omega)
  have word3 := scheduled.word (s + 3) (by omega)
  simp only [Nat.add_assoc, Nat.reduceAdd] at word1 word2 word3
  simp only [holds0 0 (by decide), holds0 1 (by decide), holds0 2 (by decide),
    holds0 3 (by decide), holds1 0 (by decide), holds1 1 (by decide), holds2 0 (by decide),
    holds2 1 (by decide), holds2 2 (by decide), holds2 3 (by decide), holds3 1 (by decide),
    holds3 2 (by decide), holds3 3 (by decide), Nat.add_assoc, Nat.reduceAdd, Nat.add_zero]
    at first second third fourth
  intro lane small
  have cases : lane = 0 ∨ lane = 1 ∨ lane = 2 ∨ lane = 3 := by omega
  rcases cases with rfl | rfl | rfl | rfl
  · rw [first, Nat.add_zero, word]
    ac_rfl
  · rw [second, Nat.add_assoc, word1]
    ac_rfl
  · rw [third, Nat.add_assoc, word2]
    ac_rfl
  · rw [fourth, Nat.add_assoc, word3, word]
    simp only [← rotl_one_rotl_one, rotl_one_xor]
    ac_rfl

/-! ### The groups as a loop -/

theorem getD_schedule (block : List UInt8) (count : ℕ) {t : ℕ} (first : t < 16) :
    (Lib.Sha1.schedule block (16 + count)).getD t 0 =
      UInt32.ofNat (LittleEndian.decode ((block.drop (4 * t)).take 4).reverse) := by
  induction count with
  | zero =>
      change (wordsBe block).getD t 0 = _
      simp [wordsBe, first]
  | succ count ih =>
      obtain ⟨length, -⟩ := schedule_scheduled block count
      rw [schedule_succ]
      apply Eq.trans _ ih
      apply List.getD_append
      omega

/-- What is prepared after the calls of group `g` -/
def preparationAt (g : ℕ) : Preparation :=
  ⟨Fin.ofNat 4 g, Fin.ofNat 4 g, Fin.ofNat 4 (g + 1), Fin.ofNat 4 (g + 2), Fin.ofNat 4 (g + 3),
    functionAt ((g + 4) / 5)⟩

/-- The call of step `4 * g + i`, which takes lane `i` -/
def laneCall (g i : ℕ) : Call := { callAt (4 * g + i) with w := i }

/-- The group with this number, of twenty -/
def groupAt (g : ℕ) : Group where
  stored := Fin.ofNat 4 g
  calls := (List.range 4).map (laneCall g)
  preparation := if g < 16 then some (preparationAt g) else none

/-- The groups are those of a loop. -/
theorem groups_eq : groups = (List.range 20).map groupAt := by
  decide +kernel

theorem f_callAt (t : ℕ) : (callAt t).f = functionAt (t / 20) := by
  unfold callAt
  split <;> rfl

theorem w_callAt (t : ℕ) : (callAt t).w = t := by
  unfold callAt
  split <;> rfl

/-- The constant is in the lane already. -/
theorem runCall_laneCall {words : List UInt32} {PT : Lanes 4} {g i : ℕ}
    (holds : PT.lane i = words.getD (4 * g + i) 0 + (functionAt ((4 * g + i) / 20)).constant)
    (digest : Words) :
    runCall PT digest (laneCall g i) = (callAt (4 * g + i)).run words digest := by
  simp only [runCall, laneCall, Call.run, holds, f_callAt, w_callAt, UInt32.add_assoc]

/-- Before group `g` -/
structure Holds (words : List UInt32) (start : Words) (g : ℕ) (locals : Locals) : Prop where
  digest : named (4 * g) locals.digest = (List.range (4 * g)).foldl (Lib.Sha1.step words) start
  W : ∀ j, g ≤ j → j < g + 4 → j < 20 → HoldsFrom words (4 * j) (locals.W (Fin.ofNat 4 j))
  P : ∀ j, g ≤ j → j < g + 4 → j < 20 →
    locals.P (Fin.ofNat 4 j) = locals.W (Fin.ofNat 4 j) + .splat (functionAt (j / 5)).constant

theorem Holds.lane_P {words : List UInt32} {start : Words} {g : ℕ} {locals : Locals}
    (holds : Holds words start g locals) (inside : g < 20) {i : ℕ} (small : i < 4) :
    (locals.P (Fin.ofNat 4 g)).lane i =
      words.getD (4 * g + i) 0 + (functionAt ((4 * g + i) / 20)).constant := by
  have round : (4 * g + i) / 20 = g / 5 := by omega
  rw [holds.P g (Nat.le_refl g) (by omega) inside, ChaCha.lane_add small,
    holds.W g (Nat.le_refl g) (by omega) inside i small, round]
  exact congrArg _ (ChaCha.lane_byLane small _)

/-- The calls of a group are four steps. -/
theorem Holds.calls {words : List UInt32} {start : Words} {g : ℕ} {locals : Locals}
    (holds : Holds words start g locals) (inside : g < 20) {count : ℕ} (bound : count ≤ 4) :
    named (4 * g + count) (((List.range count).map (laneCall g)).foldl
      (runCall (locals.P (Fin.ofNat 4 g))) locals.digest) =
        (List.range (4 * g + count)).foldl (Lib.Sha1.step words) start := by
  induction count with
  | zero => exact holds.digest
  | succ count ih =>
      have run := runCall_laneCall (holds.lane_P inside (Nat.lt_of_succ_le bound))
      simp only [List.range_succ, List.map_append, List.foldl_append, List.map_cons, List.map_nil,
        List.foldl_cons, List.foldl_nil, ← Nat.add_assoc, run, named_run,
        ih (Nat.le_of_succ_le bound)]

theorem ofNat_ne {g j : ℕ} (later : g < j) (near : j < g + 4) :
    Fin.ofNat 4 j ≠ Fin.ofNat 4 g := by
  intro same
  have value := congrArg Fin.val same
  simp only [Fin.val_ofNat] at value
  omega

theorem ofNat_add_four (g : ℕ) : Fin.ofNat 4 (g + 4) = Fin.ofNat 4 g := by
  apply Fin.ext
  simp [Fin.val_ofNat]

/-- The words of group `g` make room for those of the group after the next three. -/
theorem Holds.prepare {words : List UInt32} (scheduled : Scheduled words)
    (length : words.length = 80) {start : Words} {g : ℕ} {locals : Locals}
    (holds : Holds words start g locals) (early : g < 16) (digest : Words)
    (called : named (4 * (g + 1)) digest =
      (List.range (4 * (g + 1))).foldl (Lib.Sha1.step words) start) :
    Holds words start (g + 1) ((preparationAt g).run { locals with digest := digest }) := by
  have made : HoldsFrom words (4 * (g + 4)) (prep (locals.W (Fin.ofNat 4 g))
      (locals.W (Fin.ofNat 4 (g + 1))) (locals.W (Fin.ofNat 4 (g + 2)))
      (locals.W (Fin.ofNat 4 (g + 3))) (.splat (functionAt ((g + 4) / 5)).constant)).2 := by
    apply holdsFrom_prep (s := 4 * g) scheduled (by omega)
    · exact holds.W g (by omega) (by omega) (by omega)
    · exact holds.W (g + 1) (by omega) (by omega) (by omega)
    · exact holds.W (g + 2) (by omega) (by omega) (by omega)
    · exact holds.W (g + 3) (by omega) (by omega) (by omega)
  constructor
  · exact called
  · intro j after near bound
    rcases Nat.lt_or_eq_of_le (Nat.le_of_lt_succ near) with old | new
    · have other := ofNat_ne after (by omega : j < g + 4)
      simp only [Preparation.run, preparationAt, Function.update_of_ne other]
      exact holds.W j (by omega) (by omega) bound
    · have same : j = g + 4 := by omega
      simp only [same, ofNat_add_four, Preparation.run, preparationAt, Function.update_self]
      exact made
  · intro j after near bound
    rcases Nat.lt_or_eq_of_le (Nat.le_of_lt_succ near) with old | new
    · have other := ofNat_ne after (by omega : j < g + 4)
      simp only [Preparation.run, preparationAt, Function.update_of_ne other]
      exact holds.P j (by omega) (by omega) bound
    · have same : j = g + 4 := by omega
      simp only [same, ofNat_add_four, Preparation.run, preparationAt, Function.update_self]
      rfl

/-- One group, and four steps of the standard -/
theorem Holds.group {words : List UInt32} (scheduled : Scheduled words)
    (length : words.length = 80) {start : Words} {g : ℕ} {locals : Locals}
    (holds : Holds words start g locals) (inside : g < 20) :
    Holds words start (g + 1) ((groupAt g).run locals) := by
  have called := holds.calls inside (Nat.le_refl 4)
  rcases Nat.lt_or_ge g 16 with early | late
  · simp only [Group.run, groupAt, if_pos early, Option.elim_some]
    exact holds.prepare scheduled length early _ called
  · simp only [Group.run, groupAt, if_neg (Nat.not_lt.mpr late), Option.elim_none]
    constructor
    · exact called
    · intro j after near bound
      exact holds.W j (by omega) (by omega) bound
    · intro j after near bound
      exact holds.P j (by omega) (by omega) bound

theorem Holds.loaded (digest : Words) (block : List UInt8) :
    Holds (Lib.Sha1.schedule block 80) digest 0 (loaded digest block) := by
  constructor
  · rfl
  · intro j after near bound lane small
    have value : (Fin.ofNat 4 j).val = j := Nat.mod_eq_of_lt near
    have word := getD_schedule block 64 (by omega : 4 * j + lane < 16)
    have offset : 16 * j + 4 * lane = 4 * (4 * j + lane) := by omega
    apply Eq.trans _ word.symm
    apply (ChaCha.lane_byLane small _).trans
    rw [value, List.drop_drop, offset]
  · intro j after near bound
    have round : j / 5 = 0 := by omega
    rw [round]
    rfl

theorem Holds.groups {words : List UInt32} (scheduled : Scheduled words)
    (length : words.length = 80) {start : Words} {locals : Locals}
    (holds : Holds words start 0 locals) {count : ℕ} (bound : count ≤ 20) :
    Holds words start count (((List.range count).map groupAt).foldl (fun locals group =>
      group.run locals) locals) := by
  induction count with
  | zero => exact holds
  | succ count ih =>
      simp only [List.range_succ, List.map_append, List.foldl_append, List.map_cons, List.map_nil,
        List.foldl_cons, List.foldl_nil]
      exact (ih (Nat.le_of_succ_le bound)).group scheduled length bound

/-- The version is the function of the standard. -/
theorem compress_eq (digest : Words) (block : List UInt8) :
    compress digest block = Lib.Sha1.compress digest block := by
  obtain ⟨length, scheduled⟩ := schedule_scheduled block 64
  have whole := ((Holds.loaded digest block).groups scheduled length (Nat.le_refl 20)).digest
  simp only [← groups_eq] at whole
  exact congrArg digest.add whole

end SHA1.SSE2

end Imconee.Botan
