import Imconee.Botan.Sha1Sse2

/-!
# `SHA_1::sha1_compress_x86`

The version for the SHA instructions of Intel. Each takes four words, the first in the highest
lane. A word of the message schedule is made in three instructions that stand in three groups, so
that between them the registers hold words that are made in part.
-/

set_option autoImplicit false

namespace Imconee.Botan.SHA1

open Imconee.Lib
open ChaCha (Lanes)
open Lib.Sha1 (Words)

namespace X86

/-! ### Instructions -/

/-- One of the four steps of `_mm_sha1rnds4_epu32` -/
def round (imm : ℕ) (v : Words) (word : UInt32) : Words where
  a := Lib.Sha1.mix imm v.b v.c v.d + rotl 5 v.a + word + v.e + Lib.Sha1.constant imm
  b := v.a
  c := rotl 30 v.b
  d := v.c
  e := v.d

/-- The first word that `_mm_sha1rnds4_epu32` takes has `E` in it already. -/
def sha1rnds4 (a b : Lanes 4) (imm : ℕ) : Lanes 4 :=
  let v := [b.lane 3, b.lane 2, b.lane 1, b.lane 0].foldl (round imm)
    ⟨a.lane 3, a.lane 2, a.lane 1, a.lane 0, 0⟩
  .byLane fun lane => [v.d, v.c, v.b, v.a].getD lane 0

/-- `_mm_sha1nexte_epu32` -/
def sha1nexte (a b : Lanes 4) : Lanes 4 :=
  .byLane fun lane => if lane = 3 then b.lane 3 + rotl 30 (a.lane 3) else b.lane lane

/-- `_mm_sha1msg1_epu32` -/
def sha1msg1 (a b : Lanes 4) : Lanes 4 := .byLane fun lane =>
  [b.lane 2 ^^^ a.lane 0, b.lane 3 ^^^ a.lane 1, a.lane 0 ^^^ a.lane 2,
    a.lane 1 ^^^ a.lane 3].getD lane 0

/-- `_mm_sha1msg2_epu32` -/
def sha1msg2 (a b : Lanes 4) : Lanes 4 :=
  let W16 := rotl 1 (a.lane 3 ^^^ b.lane 2)
  .byLane fun lane => [rotl 1 (a.lane 0 ^^^ W16), rotl 1 (a.lane 1 ^^^ b.lane 0),
    rotl 1 (a.lane 2 ^^^ b.lane 1), W16].getD lane 0

/-- `_mm_loadu_si128` and `_mm_shuffle_epi8` with the mask, which turns the sixteen bytes round -/
def loadReversed (input : List UInt8) : Lanes 4 := .byLane fun lane =>
  UInt32.ofNat (LittleEndian.decode (((input.take 16).reverse.drop (4 * lane)).take 4))

/-! ### The body of the loop -/

/-- What a number of `MSG0` to `MSG3` needs, so that one name stands in all of them -/
local instance neZero_four : @NeZero ℕ Zero.ofOfNat0 4 := Nat.instNeZeroSucc

/-- The statements, with the numbers of the variables `MSG0` to `MSG3`, `E0` and `E1` -/
inductive Statement where
  | load (MSG : Fin 4)
  | add (E : Fin 2) (MSG : Fin 4)
  | nexte (E : Fin 2) (MSG : Fin 4)
  | copy (E : Fin 2)
  | rnds4 (E : Fin 2) (imm : ℕ)
  | msg1 (MSG other : Fin 4)
  | msg2 (MSG other : Fin 4)
  | xor (MSG other : Fin 4)
  deriving DecidableEq, Repr

/-- The statements of each four rounds -/
def groups : List (List Statement) := [
  [.load 0, .add 0 0, .copy 1, .rnds4 0 0],
  [.load 1, .nexte 1 1, .copy 0, .rnds4 1 0, .msg1 0 1],
  [.load 2, .nexte 0 2, .copy 1, .rnds4 0 0, .msg1 1 2, .xor 0 2],
  [.load 3, .nexte 1 3, .copy 0, .msg2 0 3, .rnds4 1 0, .msg1 2 3, .xor 1 3],
  [.nexte 0 0, .copy 1, .msg2 1 0, .rnds4 0 0, .msg1 3 0, .xor 2 0],
  [.nexte 1 1, .copy 0, .msg2 2 1, .rnds4 1 1, .msg1 0 1, .xor 3 1],
  [.nexte 0 2, .copy 1, .msg2 3 2, .rnds4 0 1, .msg1 1 2, .xor 0 2],
  [.nexte 1 3, .copy 0, .msg2 0 3, .rnds4 1 1, .msg1 2 3, .xor 1 3],
  [.nexte 0 0, .copy 1, .msg2 1 0, .rnds4 0 1, .msg1 3 0, .xor 2 0],
  [.nexte 1 1, .copy 0, .msg2 2 1, .rnds4 1 1, .msg1 0 1, .xor 3 1],
  [.nexte 0 2, .copy 1, .msg2 3 2, .rnds4 0 2, .msg1 1 2, .xor 0 2],
  [.nexte 1 3, .copy 0, .msg2 0 3, .rnds4 1 2, .msg1 2 3, .xor 1 3],
  [.nexte 0 0, .copy 1, .msg2 1 0, .rnds4 0 2, .msg1 3 0, .xor 2 0],
  [.nexte 1 1, .copy 0, .msg2 2 1, .rnds4 1 2, .msg1 0 1, .xor 3 1],
  [.nexte 0 2, .copy 1, .msg2 3 2, .rnds4 0 2, .msg1 1 2, .xor 0 2],
  [.nexte 1 3, .copy 0, .msg2 0 3, .rnds4 1 3, .msg1 2 3, .xor 1 3],
  [.nexte 0 0, .copy 1, .msg2 1 0, .rnds4 0 3, .msg1 3 0, .xor 2 0],
  [.nexte 1 1, .copy 0, .msg2 2 1, .rnds4 1 3, .xor 3 1],
  [.nexte 0 2, .copy 1, .msg2 3 2, .rnds4 0 3],
  [.nexte 1 3, .copy 0, .rnds4 1 3]]

/-- The variables of the loop -/
structure Locals where
  ABCD : Lanes 4
  E : Fin 2 → Lanes 4
  MSG : Fin 4 → Lanes 4

/-- Another word in `E0` or `E1` -/
def Locals.setE (locals : Locals) (index : Fin 2) (word : Lanes 4) : Locals :=
  { locals with E := Function.update locals.E index word }

/-- Another word in one of `MSG0` to `MSG3` -/
def Locals.setMSG (locals : Locals) (index : Fin 4) (word : Lanes 4) : Locals :=
  { locals with MSG := Function.update locals.MSG index word }

/-- What a statement does to the variables -/
def Statement.run (block : List UInt8) (locals : Locals) : Statement → Locals
  | .load m => locals.setMSG m (loadReversed (block.drop (16 * m)))
  | .add e m => locals.setE e (locals.E e + locals.MSG m)
  | .nexte e m => locals.setE e (sha1nexte (locals.E e) (locals.MSG m))
  | .copy e => locals.setE e locals.ABCD
  | .rnds4 e imm => { locals with ABCD := sha1rnds4 locals.ABCD (locals.E e) imm }
  | .msg1 m other => locals.setMSG m (sha1msg1 (locals.MSG m) (locals.MSG other))
  | .msg2 m other => locals.setMSG m (sha1msg2 (locals.MSG m) (locals.MSG other))
  | .xor m other => locals.setMSG m (locals.MSG m ^^^ locals.MSG other)

/-- What goes from one round of the loop to the next -/
structure Registers where
  ABCD : Lanes 4
  E0 : Lanes 4

/-- `E1` and the words of the message have no value yet, and none of them is read before it has
one. -/
def entered (registers : Registers) : Locals :=
  ⟨registers.ABCD, fun _ => registers.E0, fun _ => .splat 0⟩

/-- The body of the loop, which adds what it has saved at its start -/
def body (registers : Registers) (block : List UInt8) : Registers :=
  let locals := groups.flatten.foldl (Statement.run block) (entered registers)
  ⟨locals.ABCD + registers.ABCD, sha1nexte (locals.E 0) registers.E0⟩

/-- `_mm_loadu_si128` of the state and the shuffle that turns the lanes round, and
`_mm_set_epi32(state[4], 0, 0, 0)` -/
def load (digest : Words) : Registers where
  ABCD := (Lanes.byLane fun lane => [digest.a, digest.b, digest.c, digest.d].getD lane 0 :
    Lanes 4).shuffleEpi32 0 1 2 3
  E0 := .byLane fun lane => [0, 0, 0, digest.e].getD lane 0

/-- What is stored behind the loop -/
def store (registers : Registers) : Words :=
  let ABCD := registers.ABCD.shuffleEpi32 0 1 2 3
  ⟨ABCD.lane 0, ABCD.lane 1, ABCD.lane 2, ABCD.lane 3, registers.E0.lane 3⟩

/-- `sha1_compress_x86` -/
def sha1CompressX86 (digest : Words) (input : List UInt8) (blocks : ℕ) : Words :=
  store (eachBlock body 64 (load digest) input blocks)

/-! ### What an instruction makes -/

/-- The lanes hold these words, the first in the highest. -/
def HoldsDown (word : ℕ → UInt32) (x : Lanes 4) : Prop := ∀ i < 4, x.lane (3 - i) = word i

theorem HoldsDown.of_lanes {word : ℕ → UInt32} {x : Lanes 4} (first : x.lane 3 = word 0)
    (second : x.lane 2 = word 1) (third : x.lane 1 = word 2) (fourth : x.lane 0 = word 3) :
    HoldsDown word x := by
  intro i small
  have cases : i = 0 ∨ i = 1 ∨ i = 2 ∨ i = 3 := by omega
  rcases cases with rfl | rfl | rfl | rfl
  · exact first
  · exact second
  · exact third
  · exact fourth

/-- Four words of the message schedule -/
def Full (words : List UInt32) (s : ℕ) : Lanes 4 → Prop :=
  HoldsDown fun i => words.getD (s + i) 0

/-- What `_mm_sha1msg1_epu32` makes of them -/
def First (words : List UInt32) (s : ℕ) : Lanes 4 → Prop :=
  HoldsDown fun i => words.getD (s + i) 0 ^^^ words.getD (s + 2 + i) 0

/-- What the exclusive or makes of that -/
def Second (words : List UInt32) (s : ℕ) : Lanes 4 → Prop :=
  HoldsDown fun i => words.getD (s + i) 0 ^^^ words.getD (s + 2 + i) 0 ^^^ words.getD (s + 8 + i) 0

section

variable {words : List UInt32} {s : ℕ} {a b : Lanes 4}

/-- The first of the three instructions -/
theorem first_msg1 (old : Full words s a) (next : Full words (s + 4) b) :
    First words s (sha1msg1 a b) := by
  have a3 := old 0 (by decide)
  have a2 := old 1 (by decide)
  have a1 := old 2 (by decide)
  have a0 := old 3 (by decide)
  have b3 := next 0 (by decide)
  have b2 := next 1 (by decide)
  simp only [Nat.reduceSub, Nat.add_assoc, Nat.reduceAdd, Nat.add_zero] at a3 a2 a1 a0 b3 b2
  apply HoldsDown.of_lanes <;>
    simp [sha1msg1, ChaCha.lane_byLane, a3, a2, a1, a0, b3, b2, Nat.add_assoc, UInt32.xor_comm]

theorem second_xor (made : First words s a) (later : Full words (s + 8) b) :
    Second words s (a ^^^ b) := by
  intro i small
  rw [ChaCha.lane_xor (by omega), made i small, later i small]

/-- The third one finishes four words, of which the last needs the first. -/
theorem full_msg2 (scheduled : SSE2.Scheduled words) (inside : s + 20 ≤ words.length)
    (made : Second words s a) (last : Full words (s + 12) b) :
    Full words (s + 16) (sha1msg2 a b) := by
  have word0 := scheduled.word s (by omega)
  have word1 := scheduled.word (s + 1) (by omega)
  have word2 := scheduled.word (s + 2) (by omega)
  have word3 := scheduled.word (s + 3) (by omega)
  have a3 := made 0 (by decide)
  have a2 := made 1 (by decide)
  have a1 := made 2 (by decide)
  have a0 := made 3 (by decide)
  have b2 := last 1 (by decide)
  have b1 := last 2 (by decide)
  have b0 := last 3 (by decide)
  simp only [Nat.reduceSub, Nat.add_assoc, Nat.reduceAdd, Nat.add_zero]
    at word1 word2 word3 a3 a2 a1 a0 b2 b1 b0
  have W16 : rotl 1 (a.lane 3 ^^^ b.lane 2) = words.getD (s + 16) 0 := by
    rw [word0, a3, b2]
    ac_rfl
  apply HoldsDown.of_lanes
  · exact (ChaCha.lane_byLane (by decide) _).trans W16
  · apply (ChaCha.lane_byLane (by decide) _).trans
    change rotl 1 (a.lane 2 ^^^ b.lane 1) = words.getD (s + 17) 0
    rw [word1, a2, b1]
    ac_rfl
  · apply (ChaCha.lane_byLane (by decide) _).trans
    change rotl 1 (a.lane 1 ^^^ b.lane 0) = words.getD (s + 18) 0
    rw [word2, a1, b0]
    ac_rfl
  · apply (ChaCha.lane_byLane (by decide) _).trans
    change rotl 1 (a.lane 0 ^^^ rotl 1 (a.lane 3 ^^^ b.lane 2)) = words.getD (s + 19) 0
    rw [W16, word3, a0]
    ac_rfl

end

/-- The lanes hold the first four of the variables. -/
def HoldsState (v : Words) (x : Lanes 4) : Prop :=
  x.lane 3 = v.a ∧ x.lane 2 = v.b ∧ x.lane 1 = v.c ∧ x.lane 0 = v.d

theorem HoldsState.add {v w : Words} {x y : Lanes 4} (saved : HoldsState v x)
    (made : HoldsState w y) : HoldsState (v.add w) (y + x) := by
  have sum : ∀ lane < 4, (y + x).lane lane = x.lane lane + y.lane lane := by
    intro lane small
    apply (ChaCha.lane_add small y x).trans
    apply UInt32.add_comm
  obtain ⟨a, b, c, d⟩ := saved
  obtain ⟨a', b', c', d'⟩ := made
  simp only [HoldsState, sum 3 (by decide), sum 2 (by decide), sum 1 (by decide),
    sum 0 (by decide), a, b, c, d, a', b', c', d']
  exact ⟨rfl, rfl, rfl, rfl⟩

theorem round_eq (words : List UInt32) (v : Words) (t : ℕ) :
    round (t / 20) v (words.getD t 0) = Lib.Sha1.step words v t := by
  have sum : ∀ m r w e k : UInt32, m + r + w + e + k = r + m + e + k + w := by
    intro m r w e k
    ac_rfl
  exact Words.ext (sum _ _ _ _ _) rfl rfl rfl rfl

/-- `E` may as well be in the word. -/
theorem round_add (imm : ℕ) (v : Words) (word : UInt32) :
    round imm { v with e := 0 } (word + v.e) = round imm v word := by
  have sum : ∀ m r w e k : UInt32, m + r + (w + e) + 0 + k = m + r + w + e + k := by
    intro m r w e k
    rw [UInt32.add_zero, ← UInt32.add_assoc]
  exact Words.ext (sum _ _ _ _ _) rfl rfl rfl rfl

/-- Four steps from step `4 * g` on -/
theorem holdsState_rnds4 {words : List UInt32} {g : ℕ} {v : Words} {a b : Lanes 4}
    (state : HoldsState v a) (first : b.lane 3 = words.getD (4 * g) 0 + v.e)
    (second : b.lane 2 = words.getD (4 * g + 1) 0) (third : b.lane 1 = words.getD (4 * g + 2) 0)
    (fourth : b.lane 0 = words.getD (4 * g + 3) 0) :
    HoldsState ([4 * g, 4 * g + 1, 4 * g + 2, 4 * g + 3].foldl (Lib.Sha1.step words) v)
      (sha1rnds4 a b (g / 5)) := by
  obtain ⟨a3, a2, a1, a0⟩ := state
  have step0 := round_eq words v (4 * g)
  have step1 := fun v => round_eq words v (4 * g + 1)
  have step2 := fun v => round_eq words v (4 * g + 2)
  have step3 := fun v => round_eq words v (4 * g + 3)
  rw [(by omega : 4 * g / 20 = g / 5)] at step0
  rw [(by omega : (4 * g + 1) / 20 = g / 5)] at step1
  rw [(by omega : (4 * g + 2) / 20 = g / 5)] at step2
  rw [(by omega : (4 * g + 3) / 20 = g / 5)] at step3
  have steps : [b.lane 3, b.lane 2, b.lane 1, b.lane 0].foldl (round (g / 5))
      ⟨a.lane 3, a.lane 2, a.lane 1, a.lane 0, 0⟩ =
        [4 * g, 4 * g + 1, 4 * g + 2, 4 * g + 3].foldl (Lib.Sha1.step words) v := by
    have add := round_add (g / 5) v (words.getD (4 * g) 0)
    simp only [List.foldl_cons, List.foldl_nil, a3, a2, a1, a0, first, second, third, fourth, add,
      step0, step1, step2, step3]
  simp only [sha1rnds4, steps]
  exact ⟨ChaCha.lane_byLane (by decide) _, ChaCha.lane_byLane (by decide) _,
    ChaCha.lane_byLane (by decide) _, ChaCha.lane_byLane (by decide) _⟩

/-! ### The groups as a loop -/

/-- The statements with this number, of twenty -/
def statementsAt (g : ℕ) : List Statement :=
  (if g < 4 then [Statement.load (Fin.ofNat 4 g)] else []) ++
    [if g = 0 then Statement.add 0 0 else Statement.nexte (Fin.ofNat 2 g) (Fin.ofNat 4 g),
      Statement.copy (Fin.ofNat 2 (g + 1))] ++
    (if 3 ≤ g ∧ g < 19 then [Statement.msg2 (Fin.ofNat 4 (g + 1)) (Fin.ofNat 4 g)] else []) ++
    [Statement.rnds4 (Fin.ofNat 2 g) (g / 5)] ++
    (if 1 ≤ g ∧ g < 17 then [Statement.msg1 (Fin.ofNat 4 (g + 3)) (Fin.ofNat 4 g)] else []) ++
    (if 2 ≤ g ∧ g < 18 then [Statement.xor (Fin.ofNat 4 (g + 2)) (Fin.ofNat 4 g)] else [])

/-- The groups are those of a loop. -/
theorem groups_eq : groups = (List.range 20).map statementsAt := by
  decide +kernel

/-- Before the statements of `4 * g` and so on, with the variables after that many steps -/
structure Holds (words : List UInt32) (v : Words) (g : ℕ) (locals : Locals) : Prop where
  state : HoldsState v locals.ABCD
  start : g = 0 → (locals.E 0).lane 3 = v.e ∧ ∀ lane < 3, (locals.E 0).lane lane = 0
  e : 0 < g → rotl 30 ((locals.E (Fin.ofNat 2 g)).lane 3) = v.e
  current : 4 ≤ g → g < 20 → Full words (4 * g) (locals.MSG (Fin.ofNat 4 g))
  previous : 1 ≤ g → g < 17 → Full words (4 * (g - 1)) (locals.MSG (Fin.ofNat 4 (g + 3)))
  first : 2 ≤ g → g < 18 → First words (4 * (g - 2)) (locals.MSG (Fin.ofNat 4 (g + 2)))
  second : 3 ≤ g → g < 19 → Second words (4 * (g - 3)) (locals.MSG (Fin.ofNat 4 (g + 1)))

/-- The words of the block -/
theorem full_load (block : List UInt8) (length : block.length = 64) {g : ℕ} (early : g < 4) :
    Full (Lib.Sha1.schedule block 80) (4 * g) (loadReversed (block.drop (16 * g))) := by
  intro i small
  have word := SSE2.getD_schedule block 64 (by omega : 4 * g + i < 16)
  apply Eq.trans _ word.symm
  apply (ChaCha.lane_byLane (by omega) _).trans
  have sixteen : ((block.drop (16 * g)).take 16).length = 16 := by
    simp only [List.length_take, List.length_drop]
    omega
  have turned : (((block.drop (16 * g)).take 16).reverse.drop (4 * (3 - i))).take 4 =
      ((block.drop (4 * (4 * g + i))).take 4).reverse := by
    have before : 16 - 4 * (3 - i) = 4 * i + 4 := by omega
    have shorter : min (4 * i + 4) 16 = 4 * i + 4 := by omega
    have behind : 4 * i + 4 - 4 = 4 * i := by omega
    have offset : 16 * g + 4 * i = 4 * (4 * g + i) := by omega
    have four : 4 * i + 4 - 4 * i = 4 := by omega
    rw [List.drop_reverse, List.take_reverse, sixteen, before, List.length_take, sixteen, shorter,
      behind, List.take_take, shorter, List.drop_take, List.drop_drop, offset, four]
  rw [turned]

/-- An assignment that stands in some of the groups only -/
def writeIf (stands : Prop) [Decidable stands] (m : Fin 4) (x : Lanes 4) (MSG : Fin 4 → Lanes 4) :
    Fin 4 → Lanes 4 :=
  if stands then Function.update MSG m x else MSG

section

variable {stands : Prop} [Decidable stands] {m other : Fin 4} {x : Lanes 4}
  {MSG : Fin 4 → Lanes 4}

theorem writeIf_self (does : stands) : writeIf stands m x MSG m = x := by
  rw [writeIf, if_pos does, Function.update_self]

theorem writeIf_of_ne (ne : other ≠ m) : writeIf stands m x MSG other = MSG other := by
  unfold writeIf
  split
  · exact Function.update_of_ne ne x MSG
  · rfl

end

/-- The words of the message after the first, the second, the third and the last statement that
writes them in a group -/
def messages (block : List UInt8) (g : ℕ) (MSG : Fin 4 → Lanes 4) : Fin 4 → Lanes 4 :=
  writeIf (g < 4) (Fin.ofNat 4 g) (loadReversed (block.drop (16 * (Fin.ofNat 4 g).val))) MSG

/-- `_mm_sha1msg2_epu32`, where it stands -/
def messages2 (g : ℕ) (MSG : Fin 4 → Lanes 4) : Fin 4 → Lanes 4 :=
  writeIf (3 ≤ g ∧ g < 19) (Fin.ofNat 4 (g + 1))
    (sha1msg2 (MSG (Fin.ofNat 4 (g + 1))) (MSG (Fin.ofNat 4 g))) MSG

/-- `_mm_sha1msg1_epu32`, where it stands -/
def messages1 (g : ℕ) (MSG : Fin 4 → Lanes 4) : Fin 4 → Lanes 4 :=
  writeIf (1 ≤ g ∧ g < 17) (Fin.ofNat 4 (g + 3))
    (sha1msg1 (MSG (Fin.ofNat 4 (g + 3))) (MSG (Fin.ofNat 4 g))) MSG

/-- `_mm_xor_si128`, where it stands -/
def messagesXor (g : ℕ) (MSG : Fin 4 → Lanes 4) : Fin 4 → Lanes 4 :=
  writeIf (2 ≤ g ∧ g < 18) (Fin.ofNat 4 (g + 2))
    (MSG (Fin.ofNat 4 (g + 2)) ^^^ MSG (Fin.ofNat 4 g)) MSG

/-- The word that goes into the four steps -/
def taken (g : ℕ) (E : Fin 2 → Lanes 4) (MSG : Fin 4 → Lanes 4) : Lanes 4 :=
  if g = 0 then E 0 + MSG 0 else sha1nexte (E (Fin.ofNat 2 g)) (MSG (Fin.ofNat 4 g))

theorem ofNat_succ_ne (g : ℕ) : Fin.ofNat 2 g ≠ Fin.ofNat 2 (g + 1) := by
  intro same
  have value := congrArg Fin.val same
  simp only [Fin.val_ofNat] at value
  omega

/-- A statement that writes a word of the message, in some of the groups -/
theorem foldl_write (block : List UInt8) (locals : Locals) (stands : Prop) [Decidable stands]
    (statement : Statement) {m : Fin 4} {x : Lanes 4}
    (run : statement.run block locals = locals.setMSG m x) :
    (if stands then [statement] else []).foldl (Statement.run block) locals =
      { locals with MSG := writeIf stands m x locals.MSG } := by
  unfold writeIf
  split
  · exact run
  · rfl

/-- What the statements of a group do, register by register -/
theorem run_statementsAt (block : List UInt8) (g : ℕ) (locals : Locals) :
    (statementsAt g).foldl (Statement.run block) locals =
      { ABCD := sha1rnds4 locals.ABCD (taken g locals.E (messages block g locals.MSG)) (g / 5)
        E := Function.update (Function.update locals.E (Fin.ofNat 2 g)
          (taken g locals.E (messages block g locals.MSG))) (Fin.ofNat 2 (g + 1)) locals.ABCD
        MSG := messagesXor g (messages1 g (messages2 g (messages block g locals.MSG))) } := by
  have ne := ofNat_succ_ne g
  rcases Nat.eq_zero_or_pos g with rfl | positive
  · rfl
  · simp only [statementsAt, taken, if_neg (Nat.ne_of_gt positive), List.foldl_append,
      List.foldl_cons, List.foldl_nil]
    rw [foldl_write block locals (g < 4) (.load _) rfl, foldl_write block _ _ (.msg2 _ _) rfl,
      foldl_write block _ _ (.msg1 _ _) rfl, foldl_write block _ _ (.xor _ _) rfl]
    simp only [Statement.run, Locals.setE, Function.update_of_ne ne, Function.update_self]
    rfl

/-- The word that goes into the steps has `E` in it. -/
theorem Holds.taken {words : List UInt32} {v : Words} {g : ℕ} {locals : Locals}
    (holds : Holds words v g locals) {MSG : Fin 4 → Lanes 4}
    (full : Full words (4 * g) (MSG (Fin.ofNat 4 g))) :
    (taken g locals.E MSG).lane 3 = words.getD (4 * g) 0 + v.e ∧
      ∀ i, 0 < i → i < 4 → (X86.taken g locals.E MSG).lane (3 - i) = words.getD (4 * g + i) 0 := by
  have highest : (MSG (Fin.ofNat 4 g)).lane 3 = words.getD (4 * g) 0 := full 0 (by decide)
  rcases Nat.eq_zero_or_pos g with rfl | positive
  · obtain ⟨e, others⟩ := holds.start rfl
    constructor
    · apply (ChaCha.lane_add (by decide) _ _).trans
      rw [e, UInt32.add_comm]
      exact congrArg (· + v.e) highest
    · intro i any small
      apply (ChaCha.lane_add (by omega) _ _).trans
      rw [others (3 - i) (by omega), UInt32.zero_add]
      exact full i small
  · have nexte : X86.taken g locals.E MSG =
        sha1nexte (locals.E (Fin.ofNat 2 g)) (MSG (Fin.ofNat 4 g)) := if_neg (Nat.ne_of_gt positive)
    rw [nexte]
    constructor
    · apply (ChaCha.lane_byLane (by decide) _).trans
      rw [if_pos rfl, holds.e positive, highest]
    · intro i any small
      apply (ChaCha.lane_byLane (by omega) _).trans
      rw [if_neg (by omega)]
      exact full i small

/-- One group, and four steps of the standard -/
theorem Holds.group {block : List UInt8} (length : block.length = 64) {v : Words} {g : ℕ}
    {locals : Locals} (holds : Holds (Lib.Sha1.schedule block 80) v g locals) (inside : g < 20) :
    Holds (Lib.Sha1.schedule block 80) ([4 * g, 4 * g + 1, 4 * g + 2, 4 * g + 3].foldl
      (Lib.Sha1.step (Lib.Sha1.schedule block 80)) v) (g + 1)
        ((statementsAt g).foldl (Statement.run block) locals) := by
  obtain ⟨words_length, scheduled⟩ := SSE2.schedule_scheduled block 64
  have whole : (Lib.Sha1.schedule block 80).length = 80 := words_length
  have full : Full (Lib.Sha1.schedule block 80) (4 * g)
      (messages block g locals.MSG (Fin.ofNat 4 g)) := by
    rcases Nat.lt_or_ge g 4 with early | late
    · have value : (Fin.ofNat 4 g).val = g := Nat.mod_eq_of_lt early
      have loaded := full_load block length early
      rw [messages, writeIf_self early, value]
      exact loaded
    · rw [messages, writeIf, if_neg (Nat.not_lt.mpr late)]
      exact holds.current late inside
  have kept : ∀ k, 0 < k → k < 4 → messages block g locals.MSG (Fin.ofNat 4 (g + k)) =
      locals.MSG (Fin.ofNat 4 (g + k)) := fun k positive small =>
    writeIf_of_ne (SSE2.ofNat_ne (by omega) (by omega))
  generalize hM : messages block g locals.MSG = M at full kept
  have ne1 : Fin.ofNat 4 (g + 1) ≠ Fin.ofNat 4 g := SSE2.ofNat_ne (by omega) (by omega)
  have ne2 : Fin.ofNat 4 (g + 2) ≠ Fin.ofNat 4 g := SSE2.ofNat_ne (by omega) (by omega)
  have ne3 : Fin.ofNat 4 (g + 3) ≠ Fin.ofNat 4 g := SSE2.ofNat_ne (by omega) (by omega)
  have ne21 : Fin.ofNat 4 (g + 2) ≠ Fin.ofNat 4 (g + 1) := SSE2.ofNat_ne (by omega) (by omega)
  have ne31 : Fin.ofNat 4 (g + 3) ≠ Fin.ofNat 4 (g + 1) := SSE2.ofNat_ne (by omega) (by omega)
  have ne32 : Fin.ofNat 4 (g + 3) ≠ Fin.ofNat 4 (g + 2) := SSE2.ofNat_ne (by omega) (by omega)
  obtain ⟨highest, others⟩ := holds.taken full
  simp only [run_statementsAt, hM]
  constructor
  · exact holdsState_rnds4 holds.state highest (others 1 (by decide) (by decide))
      (others 2 (by decide) (by decide)) (others 3 (by decide) (by decide))
  · intro zero
    omega
  · intro positive
    simp only [Function.update_self, holds.state.1]
    rfl
  · intro from4 to20
    have base : 4 * (g + 1) = 4 * (g - 3) + 16 := by omega
    have before : 4 * g = 4 * (g - 3) + 12 := by omega
    change Full _ _ (messagesXor g (messages1 g (messages2 g M)) _)
    rw [messagesXor, writeIf_of_ne ne21.symm, messages1, writeIf_of_ne ne31.symm, messages2,
      writeIf_self ⟨by omega, by omega⟩, base, kept 1 (by decide) (by decide)]
    rw [before] at full
    exact full_msg2 scheduled (by omega) (holds.second (by omega) (by omega)) full
  · intro from1 to17
    change Full _ _ (messagesXor g (messages1 g (messages2 g M)) _)
    rw [Nat.add_sub_cancel, Nat.add_assoc, SSE2.ofNat_add_four, messagesXor,
      writeIf_of_ne ne2.symm, messages1, writeIf_of_ne ne3.symm, messages2,
      writeIf_of_ne ne1.symm]
    exact full
  · intro from2 to18
    have base : 4 * (g + 1 - 2) = 4 * (g - 1) := by omega
    have before : 4 * g = 4 * (g - 1) + 4 := by omega
    change First _ _ (messagesXor g (messages1 g (messages2 g M)) (Fin.ofNat 4 (g + 3)))
    rw [base, messagesXor, writeIf_of_ne ne32, messages1,
      writeIf_self ⟨by omega, by omega⟩, messages2, writeIf_of_ne ne31, writeIf_of_ne ne1.symm,
      kept 3 (by decide) (by decide)]
    rw [before] at full
    exact first_msg1 (holds.previous (by omega) (by omega)) full
  · intro from3 to19
    have base : 4 * (g + 1 - 3) = 4 * (g - 2) := by omega
    have before : 4 * g = 4 * (g - 2) + 8 := by omega
    change Second _ _ (messagesXor g (messages1 g (messages2 g M)) (Fin.ofNat 4 (g + 2)))
    rw [base, messagesXor, writeIf_self ⟨by omega, by omega⟩, messages1,
      writeIf_of_ne ne32.symm, writeIf_of_ne ne3.symm, messages2, writeIf_of_ne ne21,
      writeIf_of_ne ne1.symm, kept 2 (by decide) (by decide)]
    rw [before] at full
    exact second_xor (holds.first (by omega) (by omega)) full

theorem Holds.groups {block : List UInt8} (length : block.length = 64) {v : Words}
    {locals : Locals} (holds : Holds (Lib.Sha1.schedule block 80) v 0 locals) {count : ℕ}
    (bound : count ≤ 20) :
    Holds (Lib.Sha1.schedule block 80)
      ((List.range (4 * count)).foldl (Lib.Sha1.step (Lib.Sha1.schedule block 80)) v) count
        (((List.range count).flatMap statementsAt).foldl (Statement.run block) locals) := by
  induction count with
  | zero => exact holds
  | succ count ih =>
      have group := (ih (Nat.le_of_succ_le bound)).group length bound
      have steps : List.range (4 * (count + 1)) = List.range (4 * count) ++
          [4 * count, 4 * count + 1, 4 * count + 2, 4 * count + 3] :=
        List.range_add
      simp only [steps, List.range_succ, List.flatMap_append, List.flatMap_singleton,
        List.foldl_append]
      exact group

/-! ### The loop -/

/-- The registers hold the digest between two blocks. -/
structure Represents (v : Words) (registers : Registers) : Prop where
  state : HoldsState v registers.ABCD
  e : registers.E0.lane 3 = v.e
  zeros : ∀ lane < 3, registers.E0.lane lane = 0

theorem represents_load (v : Words) : Represents v (load v) := by
  refine ⟨⟨?_, ?_, ?_, ?_⟩, ?_, ?_⟩
  · rfl
  · rfl
  · rfl
  · rfl
  · rfl
  · intro lane small
    have cases : lane = 0 ∨ lane = 1 ∨ lane = 2 := by omega
    rcases cases with rfl | rfl | rfl <;> rfl

theorem Represents.store_eq {v : Words} {registers : Registers}
    (represents : Represents v registers) : store registers = v := by
  obtain ⟨a, b, c, d⟩ := represents.state
  exact Words.ext a b c d represents.e

theorem Represents.body {v : Words} {registers : Registers} (represents : Represents v registers)
    {block : List UInt8} (length : block.length = 64) :
    Represents (Lib.Sha1.compress v block) (body registers block) := by
  have entered : Holds (Lib.Sha1.schedule block 80) v 0 (entered registers) := by
    constructor
    · exact represents.state
    · intro zero
      exact ⟨represents.e, represents.zeros⟩
    all_goals
      intros
      omega
  have whole := entered.groups length (Nat.le_refl 20)
  have flat : (List.range 20).flatMap statementsAt = groups.flatten := by
    rw [groups_eq]
    rfl
  rw [flat] at whole
  refine ⟨represents.state.add whole.state, ?_, ?_⟩
  · have e := whole.e (by decide)
    apply (ChaCha.lane_byLane (by decide) _).trans
    rw [if_pos rfl, represents.e]
    exact congrArg (v.e + ·) e
  · intro lane small
    apply (ChaCha.lane_byLane (by omega) _).trans
    rw [if_neg (by omega)]
    exact represents.zeros lane small

theorem Represents.foldl {v : Words} {registers : Registers}
    (represents : Represents v registers) {blocks : List (List UInt8)}
    (full : ∀ block ∈ blocks, block.length = 64) :
    Represents (blocks.foldl Lib.Sha1.compress v) (blocks.foldl X86.body registers) := by
  induction blocks generalizing v registers with
  | nil => exact represents
  | cons block blocks ih =>
      apply ih
      · exact represents.body (full block List.mem_cons_self)
      · intro other mem
        exact full other (List.mem_cons_of_mem block mem)

/-- The version takes block after block with the function of the standard. -/
theorem blockwise : AlignmentBuffer.Blockwise 64 sha1CompressX86 Lib.Sha1.compress := by
  intro v blocks full
  have same := blockwise_eachBlock body 64 (load v) blocks full
  rw [sha1CompressX86, same]
  exact ((represents_load v).foldl full).store_eq

end X86

end Imconee.Botan.SHA1
