import Imconee.Botan.Md5

/-!
# `SHA_1::compress_n`

The base version, which is unrolled like that of MD5, and makes the words of the message schedule
eight at a time.
-/

set_option autoImplicit false

namespace Imconee.Botan.SHA1

open Imconee.Lib
open Lib.Sha1 (Words)

/-- The variables of `compress_n` -/
inductive Register where
  | A
  | B
  | C
  | D
  | E
  deriving DecidableEq, Repr

/-- The functions of `SHA1_F` -/
inductive Function where
  | F1
  | F2
  | F3
  | F4
  deriving DecidableEq, Repr

/-- What a function makes of three registers -/
def Function.apply : Function → UInt32 → UInt32 → UInt32 → UInt32
  | .F1, B, C, D => choose32 B C D
  | .F2, B, C, D => B ^^^ C ^^^ D
  | .F3, B, C, D => majority32 B C D
  | .F4, B, C, D => B ^^^ C ^^^ D

/-- What a function adds -/
def Function.constant : Function → UInt32
  | .F1 => 0x5A827999
  | .F2 => 0x6ED9EBA1
  | .F3 => 0x8F1BBCDC
  | .F4 => 0xCA62C1D6

/-- A call such as `F1(A, B, C, D, E, W[0])` -/
structure Call where
  f : Function
  a : Register
  b : Register
  c : Register
  d : Register
  e : Register
  w : ℕ
  deriving DecidableEq, Repr

/-- The calls, in the order in which they are made -/
def calls : List Call := [
  ⟨.F1, .A, .B, .C, .D, .E, 0⟩, ⟨.F1, .E, .A, .B, .C, .D, 1⟩,
  ⟨.F1, .D, .E, .A, .B, .C, 2⟩, ⟨.F1, .C, .D, .E, .A, .B, 3⟩,
  ⟨.F1, .B, .C, .D, .E, .A, 4⟩, ⟨.F1, .A, .B, .C, .D, .E, 5⟩,
  ⟨.F1, .E, .A, .B, .C, .D, 6⟩, ⟨.F1, .D, .E, .A, .B, .C, 7⟩,
  ⟨.F1, .C, .D, .E, .A, .B, 8⟩, ⟨.F1, .B, .C, .D, .E, .A, 9⟩,
  ⟨.F1, .A, .B, .C, .D, .E, 10⟩, ⟨.F1, .E, .A, .B, .C, .D, 11⟩,
  ⟨.F1, .D, .E, .A, .B, .C, 12⟩, ⟨.F1, .C, .D, .E, .A, .B, 13⟩,
  ⟨.F1, .B, .C, .D, .E, .A, 14⟩, ⟨.F1, .A, .B, .C, .D, .E, 15⟩,
  ⟨.F1, .E, .A, .B, .C, .D, 16⟩, ⟨.F1, .D, .E, .A, .B, .C, 17⟩,
  ⟨.F1, .C, .D, .E, .A, .B, 18⟩, ⟨.F1, .B, .C, .D, .E, .A, 19⟩,
  ⟨.F2, .A, .B, .C, .D, .E, 20⟩, ⟨.F2, .E, .A, .B, .C, .D, 21⟩,
  ⟨.F2, .D, .E, .A, .B, .C, 22⟩, ⟨.F2, .C, .D, .E, .A, .B, 23⟩,
  ⟨.F2, .B, .C, .D, .E, .A, 24⟩, ⟨.F2, .A, .B, .C, .D, .E, 25⟩,
  ⟨.F2, .E, .A, .B, .C, .D, 26⟩, ⟨.F2, .D, .E, .A, .B, .C, 27⟩,
  ⟨.F2, .C, .D, .E, .A, .B, 28⟩, ⟨.F2, .B, .C, .D, .E, .A, 29⟩,
  ⟨.F2, .A, .B, .C, .D, .E, 30⟩, ⟨.F2, .E, .A, .B, .C, .D, 31⟩,
  ⟨.F2, .D, .E, .A, .B, .C, 32⟩, ⟨.F2, .C, .D, .E, .A, .B, 33⟩,
  ⟨.F2, .B, .C, .D, .E, .A, 34⟩, ⟨.F2, .A, .B, .C, .D, .E, 35⟩,
  ⟨.F2, .E, .A, .B, .C, .D, 36⟩, ⟨.F2, .D, .E, .A, .B, .C, 37⟩,
  ⟨.F2, .C, .D, .E, .A, .B, 38⟩, ⟨.F2, .B, .C, .D, .E, .A, 39⟩,
  ⟨.F3, .A, .B, .C, .D, .E, 40⟩, ⟨.F3, .E, .A, .B, .C, .D, 41⟩,
  ⟨.F3, .D, .E, .A, .B, .C, 42⟩, ⟨.F3, .C, .D, .E, .A, .B, 43⟩,
  ⟨.F3, .B, .C, .D, .E, .A, 44⟩, ⟨.F3, .A, .B, .C, .D, .E, 45⟩,
  ⟨.F3, .E, .A, .B, .C, .D, 46⟩, ⟨.F3, .D, .E, .A, .B, .C, 47⟩,
  ⟨.F3, .C, .D, .E, .A, .B, 48⟩, ⟨.F3, .B, .C, .D, .E, .A, 49⟩,
  ⟨.F3, .A, .B, .C, .D, .E, 50⟩, ⟨.F3, .E, .A, .B, .C, .D, 51⟩,
  ⟨.F3, .D, .E, .A, .B, .C, 52⟩, ⟨.F3, .C, .D, .E, .A, .B, 53⟩,
  ⟨.F3, .B, .C, .D, .E, .A, 54⟩, ⟨.F3, .A, .B, .C, .D, .E, 55⟩,
  ⟨.F3, .E, .A, .B, .C, .D, 56⟩, ⟨.F3, .D, .E, .A, .B, .C, 57⟩,
  ⟨.F3, .C, .D, .E, .A, .B, 58⟩, ⟨.F3, .B, .C, .D, .E, .A, 59⟩,
  ⟨.F4, .A, .B, .C, .D, .E, 60⟩, ⟨.F4, .E, .A, .B, .C, .D, 61⟩,
  ⟨.F4, .D, .E, .A, .B, .C, 62⟩, ⟨.F4, .C, .D, .E, .A, .B, 63⟩,
  ⟨.F4, .B, .C, .D, .E, .A, 64⟩, ⟨.F4, .A, .B, .C, .D, .E, 65⟩,
  ⟨.F4, .E, .A, .B, .C, .D, 66⟩, ⟨.F4, .D, .E, .A, .B, .C, 67⟩,
  ⟨.F4, .C, .D, .E, .A, .B, 68⟩, ⟨.F4, .B, .C, .D, .E, .A, 69⟩,
  ⟨.F4, .A, .B, .C, .D, .E, 70⟩, ⟨.F4, .E, .A, .B, .C, .D, 71⟩,
  ⟨.F4, .D, .E, .A, .B, .C, 72⟩, ⟨.F4, .C, .D, .E, .A, .B, 73⟩,
  ⟨.F4, .B, .C, .D, .E, .A, 74⟩, ⟨.F4, .A, .B, .C, .D, .E, 75⟩,
  ⟨.F4, .E, .A, .B, .C, .D, 76⟩, ⟨.F4, .D, .E, .A, .B, .C, 77⟩,
  ⟨.F4, .C, .D, .E, .A, .B, 78⟩, ⟨.F4, .B, .C, .D, .E, .A, 79⟩]

/-- What a register holds -/
def get (digest : Words) : Register → UInt32
  | .A => digest.a
  | .B => digest.b
  | .C => digest.c
  | .D => digest.d
  | .E => digest.e

/-- Another word in a register -/
def set (digest : Words) (word : UInt32) : Register → Words
  | .A => { digest with a := word }
  | .B => { digest with b := word }
  | .C => { digest with c := word }
  | .D => { digest with d := word }
  | .E => { digest with e := word }

/-- `E += f(B, C, D) + msg + K + rotl<5>(A); B = rotl<30>(B)` -/
def Call.run (W : List UInt32) (digest : Words) (call : Call) : Words :=
  let E := get digest call.e +
    (call.f.apply (get digest call.b) (get digest call.c) (get digest call.d) + W.getD call.w 0 +
      call.f.constant + rotl32 5 (get digest call.a))
  let digest := set digest E call.e
  set digest (rotl32 30 (get digest call.b)) call.b

/-- `W[j] = rotl<1>(W[j - 3] ^ W[j - 8] ^ W[j - 14] ^ W[j - 16])` -/
def push (W : List UInt32) (j : ℕ) : List UInt32 :=
  W ++ [rotl32 1 (W.getD (j - 3) 0 ^^^ W.getD (j - 8) 0 ^^^ W.getD (j - 14) 0 ^^^
    W.getD (j - 16) 0)]

/-- The body of the loop over `j`, with its eight lines -/
def pushEight (W : List UInt32) (j : ℕ) : List UInt32 :=
  [j, j + 1, j + 2, j + 3, j + 4, j + 5, j + 6, j + 7].foldl push W

/-- `W`, with a round for each of these `j` -/
def expanded (block : List UInt8) : List UInt32 :=
  [16, 24, 32, 40, 48, 56, 64, 72].foldl pushEight (wordsBe block)

/-- The body of the loop of `compress_n`, in front of which the registers hold the digest -/
def compress (digest : Words) (block : List UInt8) : Words :=
  digest.add (calls.foldl (Call.run (expanded block)) digest)

/-! ### The calls as a loop -/

/-- What the registers hold under the names of the variables before step `t` -/
def named (t : ℕ) (digest : Words) : Words :=
  match t % 5 with
  | 0 => digest
  | 1 => ⟨digest.e, digest.a, digest.b, digest.c, digest.d⟩
  | 2 => ⟨digest.d, digest.e, digest.a, digest.b, digest.c⟩
  | 3 => ⟨digest.c, digest.d, digest.e, digest.a, digest.b⟩
  | _ => ⟨digest.b, digest.c, digest.d, digest.e, digest.a⟩

/-- The function of each twenty steps -/
def functionAt (round : ℕ) : Function :=
  match round with
  | 0 => .F1
  | 1 => .F2
  | 2 => .F3
  | _ => .F4

/-- The call of step `t` -/
def callAt (t : ℕ) : Call :=
  match t % 5 with
  | 0 => ⟨functionAt (t / 20), .A, .B, .C, .D, .E, t⟩
  | 1 => ⟨functionAt (t / 20), .E, .A, .B, .C, .D, t⟩
  | 2 => ⟨functionAt (t / 20), .D, .E, .A, .B, .C, t⟩
  | 3 => ⟨functionAt (t / 20), .C, .D, .E, .A, .B, t⟩
  | _ => ⟨functionAt (t / 20), .B, .C, .D, .E, .A, t⟩

/-- The calls are those of a loop, with the registers going round. -/
theorem calls_eq : calls = (List.range 80).map callAt := by
  decide +kernel

theorem majority32_eq (a b c : UInt32) :
    majority32 a b c = (a &&& b) ^^^ (a &&& c) ^^^ (b &&& c) := by
  apply UInt32.toBitVec_inj.mp
  apply BitVec.eq_of_getLsbD_eq
  intro index inside
  simp only [majority32, choose32, UInt32.toBitVec_xor, UInt32.toBitVec_and, BitVec.getLsbD_xor,
    BitVec.getLsbD_and]
  cases a.toBitVec.getLsbD index <;> cases b.toBitVec.getLsbD index <;>
    cases c.toBitVec.getLsbD index <;> rfl

theorem choose32_eq_xor (mask a b : UInt32) :
    choose32 mask a b = (mask &&& a) ^^^ (~~~mask &&& b) := by
  apply UInt32.toBitVec_inj.mp
  apply BitVec.eq_of_getLsbD_eq
  intro index inside
  simp only [choose32, UInt32.toBitVec_xor, UInt32.toBitVec_and, UInt32.toBitVec_not,
    BitVec.getLsbD_xor, BitVec.getLsbD_and, BitVec.getLsbD_not, inside, decide_true, Bool.true_and]
  cases mask.toBitVec.getLsbD index <;> cases a.toBitVec.getLsbD index <;>
    cases b.toBitVec.getLsbD index <;> rfl

/-- `F1` and `F3` are written another way than in the standard. -/
theorem apply_eq (round : ℕ) (B C D : UInt32) :
    (functionAt round).apply B C D = Lib.Sha1.mix round B C D := by
  rcases round with _ | _ | _ | round
  · exact choose32_eq_xor B C D
  · rfl
  · exact majority32_eq B C D
  · rfl

theorem constant_eq (round : ℕ) : (functionAt round).constant = Lib.Sha1.constant round := by
  rcases round with _ | _ | _ | round <;> rfl

/-- A call is a step, under the names of the next one. -/
theorem named_run (W : List UInt32) (digest : Words) (t : ℕ) :
    named (t + 1) ((callAt t).run W digest) = Lib.Sha1.step W (named t digest) t := by
  have sum : ∀ a f e k w : UInt32, e + (f + w + k + rotl32 5 a) =
      rotateLeft 5 a + f + e + k + w := by
    intro a f e k w
    have same : rotl32 5 a = rotateLeft 5 a := rfl
    simp only [same]
    ac_rfl
  have turn : (t + 1) % 5 = (t % 5 + 1) % 5 := by omega
  have turns : t % 5 = 0 ∨ t % 5 = 1 ∨ t % 5 = 2 ∨ t % 5 = 3 ∨ t % 5 = 4 := by omega
  rcases turns with first | second | third | fourth | fifth
  · simp only [named, callAt, Lib.Sha1.step, turn, first, Call.run, get, set, sum, apply_eq,
      constant_eq]
    rfl
  · simp only [named, callAt, Lib.Sha1.step, turn, second, Call.run, get, set, sum, apply_eq,
      constant_eq]
    rfl
  · simp only [named, callAt, Lib.Sha1.step, turn, third, Call.run, get, set, sum, apply_eq,
      constant_eq]
    rfl
  · simp only [named, callAt, Lib.Sha1.step, turn, fourth, Call.run, get, set, sum, apply_eq,
      constant_eq]
    rfl
  · simp only [named, callAt, Lib.Sha1.step, turn, fifth, Call.run, get, set, sum, apply_eq,
      constant_eq]
    rfl

/-- The registers go round with the names. -/
theorem named_foldl (W : List UInt32) (digest : Words) (count : ℕ) :
    named count (((List.range count).map callAt).foldl (Call.run W) digest) =
      (List.range count).foldl (Lib.Sha1.step W) digest := by
  induction count with
  | zero => rfl
  | succ count ih =>
      simp only [List.range_succ, List.map_append, List.foldl_append, List.map_cons, List.map_nil,
        List.foldl_cons, List.foldl_nil, named_run, ih]

/-- Eight lines at a time make the same words as one at a time. -/
theorem expanded_eq (block : List UInt8) : expanded block = Lib.Sha1.schedule block 80 := by
  have indices : List.range' 16 (80 - 16) = [16, 24, 32, 40, 48, 56, 64, 72].flatMap
      fun j => [j, j + 1, j + 2, j + 3, j + 4, j + 5, j + 6, j + 7] := by
    decide
  simp only [expanded, Lib.Sha1.schedule, indices, List.foldl_flatMap]
  rfl

/-- The body is the function of the standard. -/
theorem compress_eq (digest : Words) (block : List UInt8) :
    compress digest block = Lib.Sha1.compress digest block := by
  have whole := named_foldl (expanded block) digest 80
  simp only [← calls_eq, expanded_eq] at whole
  simp only [compress, expanded_eq]
  exact congrArg digest.add whole

end Imconee.Botan.SHA1
