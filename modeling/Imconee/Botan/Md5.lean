import Imconee.Botan.MdxHash
import Imconee.Lib.Digests

/-!
# `Botan::MD5`

The compression function is unrolled: instead of the variables that change their names with
every step, the calls name the registers in turn. What the calls come to is the loop.
-/

set_option autoImplicit false

namespace Imconee.Botan

open Imconee.Lib

/-- `rotl<S>` -/
def rotl32 (S input : UInt32) : UInt32 := (input <<< S) ||| (input >>> (32 - S))

/-- `choose` of two words -/
def choose32 (mask a b : UInt32) : UInt32 := b ^^^ (mask &&& (a ^^^ b))

/-- `majority` -/
def majority32 (a b c : UInt32) : UInt32 := choose32 (a ^^^ b) c b

/-- Equal bits make equal words. -/
theorem choose32_eq (mask a b : UInt32) :
    choose32 mask a b = (mask &&& a) ||| (~~~mask &&& b) := by
  apply UInt32.toBitVec_inj.mp
  apply BitVec.eq_of_getLsbD_eq
  intro index inside
  simp only [choose32, UInt32.toBitVec_xor, UInt32.toBitVec_and, UInt32.toBitVec_or,
    UInt32.toBitVec_not, BitVec.getLsbD_xor, BitVec.getLsbD_and, BitVec.getLsbD_or,
    BitVec.getLsbD_not, inside, decide_true, Bool.true_and]
  cases mask.toBitVec.getLsbD index <;> cases a.toBitVec.getLsbD index <;>
    cases b.toBitVec.getLsbD index <;> rfl

/-- The loop over the blocks of a `compress_n` -/
def eachBlock {Digest : Type} (compress : Digest → List UInt8 → Digest) (blockBytes : ℕ) :
    Digest → List UInt8 → ℕ → Digest
  | digest, _, 0 => digest
  | digest, input, blocks + 1 =>
      eachBlock compress blockBytes (compress digest (input.take blockBytes))
        (input.drop blockBytes) blocks

/-- A loop over the blocks takes one after another. -/
theorem blockwise_eachBlock {Digest : Type} (compress : Digest → List UInt8 → Digest)
    (blockBytes : ℕ) :
    AlignmentBuffer.Blockwise blockBytes (eachBlock compress blockBytes) compress := by
  intro digest blocks full
  induction blocks generalizing digest with
  | nil => rfl
  | cons block blocks ih =>
      have length : block.length = blockBytes := full block List.mem_cons_self
      have others := ih (compress digest block) fun other mem =>
        full other (List.mem_cons_of_mem _ mem)
      simp only [List.length_cons, eachBlock, List.flatten_cons, ← length, List.take_left,
        List.drop_left, List.foldl_cons] at others ⊢
      exact others

namespace MD5

open Lib.Md5 (Words)

/-- The variables of `compress_n` -/
inductive Register where
  | A
  | B
  | C
  | D
  deriving DecidableEq, Repr

/-- `FF`, `GG`, `HH` and `II` -/
inductive Function where
  | FF
  | GG
  | HH
  | II
  deriving DecidableEq, Repr

/-- What a function makes of three registers -/
def Function.apply : Function → UInt32 → UInt32 → UInt32 → UInt32
  | .FF, B, C, D => choose32 B C D
  | .GG, B, C, D => choose32 D B C
  | .HH, B, C, D => B ^^^ C ^^^ D
  | .II, B, C, D => C ^^^ (B ||| ~~~D)

/-- A call such as `FF<7>(A, B, C, D, M[0] + 0xD76AA478)` -/
structure Call where
  f : Function
  S : UInt32
  a : Register
  b : Register
  c : Register
  d : Register
  m : ℕ
  t : UInt32
  deriving DecidableEq, Repr

/-- The calls, in the order in which they are made -/
def calls : List Call := [
  ⟨.FF, 7, .A, .B, .C, .D, 0, 0xD76AA478⟩,
  ⟨.FF, 12, .D, .A, .B, .C, 1, 0xE8C7B756⟩,
  ⟨.FF, 17, .C, .D, .A, .B, 2, 0x242070DB⟩,
  ⟨.FF, 22, .B, .C, .D, .A, 3, 0xC1BDCEEE⟩,
  ⟨.FF, 7, .A, .B, .C, .D, 4, 0xF57C0FAF⟩,
  ⟨.FF, 12, .D, .A, .B, .C, 5, 0x4787C62A⟩,
  ⟨.FF, 17, .C, .D, .A, .B, 6, 0xA8304613⟩,
  ⟨.FF, 22, .B, .C, .D, .A, 7, 0xFD469501⟩,
  ⟨.FF, 7, .A, .B, .C, .D, 8, 0x698098D8⟩,
  ⟨.FF, 12, .D, .A, .B, .C, 9, 0x8B44F7AF⟩,
  ⟨.FF, 17, .C, .D, .A, .B, 10, 0xFFFF5BB1⟩,
  ⟨.FF, 22, .B, .C, .D, .A, 11, 0x895CD7BE⟩,
  ⟨.FF, 7, .A, .B, .C, .D, 12, 0x6B901122⟩,
  ⟨.FF, 12, .D, .A, .B, .C, 13, 0xFD987193⟩,
  ⟨.FF, 17, .C, .D, .A, .B, 14, 0xA679438E⟩,
  ⟨.FF, 22, .B, .C, .D, .A, 15, 0x49B40821⟩,
  ⟨.GG, 5, .A, .B, .C, .D, 1, 0xF61E2562⟩,
  ⟨.GG, 9, .D, .A, .B, .C, 6, 0xC040B340⟩,
  ⟨.GG, 14, .C, .D, .A, .B, 11, 0x265E5A51⟩,
  ⟨.GG, 20, .B, .C, .D, .A, 0, 0xE9B6C7AA⟩,
  ⟨.GG, 5, .A, .B, .C, .D, 5, 0xD62F105D⟩,
  ⟨.GG, 9, .D, .A, .B, .C, 10, 0x02441453⟩,
  ⟨.GG, 14, .C, .D, .A, .B, 15, 0xD8A1E681⟩,
  ⟨.GG, 20, .B, .C, .D, .A, 4, 0xE7D3FBC8⟩,
  ⟨.GG, 5, .A, .B, .C, .D, 9, 0x21E1CDE6⟩,
  ⟨.GG, 9, .D, .A, .B, .C, 14, 0xC33707D6⟩,
  ⟨.GG, 14, .C, .D, .A, .B, 3, 0xF4D50D87⟩,
  ⟨.GG, 20, .B, .C, .D, .A, 8, 0x455A14ED⟩,
  ⟨.GG, 5, .A, .B, .C, .D, 13, 0xA9E3E905⟩,
  ⟨.GG, 9, .D, .A, .B, .C, 2, 0xFCEFA3F8⟩,
  ⟨.GG, 14, .C, .D, .A, .B, 7, 0x676F02D9⟩,
  ⟨.GG, 20, .B, .C, .D, .A, 12, 0x8D2A4C8A⟩,
  ⟨.HH, 4, .A, .B, .C, .D, 5, 0xFFFA3942⟩,
  ⟨.HH, 11, .D, .A, .B, .C, 8, 0x8771F681⟩,
  ⟨.HH, 16, .C, .D, .A, .B, 11, 0x6D9D6122⟩,
  ⟨.HH, 23, .B, .C, .D, .A, 14, 0xFDE5380C⟩,
  ⟨.HH, 4, .A, .B, .C, .D, 1, 0xA4BEEA44⟩,
  ⟨.HH, 11, .D, .A, .B, .C, 4, 0x4BDECFA9⟩,
  ⟨.HH, 16, .C, .D, .A, .B, 7, 0xF6BB4B60⟩,
  ⟨.HH, 23, .B, .C, .D, .A, 10, 0xBEBFBC70⟩,
  ⟨.HH, 4, .A, .B, .C, .D, 13, 0x289B7EC6⟩,
  ⟨.HH, 11, .D, .A, .B, .C, 0, 0xEAA127FA⟩,
  ⟨.HH, 16, .C, .D, .A, .B, 3, 0xD4EF3085⟩,
  ⟨.HH, 23, .B, .C, .D, .A, 6, 0x04881D05⟩,
  ⟨.HH, 4, .A, .B, .C, .D, 9, 0xD9D4D039⟩,
  ⟨.HH, 11, .D, .A, .B, .C, 12, 0xE6DB99E5⟩,
  ⟨.HH, 16, .C, .D, .A, .B, 15, 0x1FA27CF8⟩,
  ⟨.HH, 23, .B, .C, .D, .A, 2, 0xC4AC5665⟩,
  ⟨.II, 6, .A, .B, .C, .D, 0, 0xF4292244⟩,
  ⟨.II, 10, .D, .A, .B, .C, 7, 0x432AFF97⟩,
  ⟨.II, 15, .C, .D, .A, .B, 14, 0xAB9423A7⟩,
  ⟨.II, 21, .B, .C, .D, .A, 5, 0xFC93A039⟩,
  ⟨.II, 6, .A, .B, .C, .D, 12, 0x655B59C3⟩,
  ⟨.II, 10, .D, .A, .B, .C, 3, 0x8F0CCC92⟩,
  ⟨.II, 15, .C, .D, .A, .B, 10, 0xFFEFF47D⟩,
  ⟨.II, 21, .B, .C, .D, .A, 1, 0x85845DD1⟩,
  ⟨.II, 6, .A, .B, .C, .D, 8, 0x6FA87E4F⟩,
  ⟨.II, 10, .D, .A, .B, .C, 15, 0xFE2CE6E0⟩,
  ⟨.II, 15, .C, .D, .A, .B, 6, 0xA3014314⟩,
  ⟨.II, 21, .B, .C, .D, .A, 13, 0x4E0811A1⟩,
  ⟨.II, 6, .A, .B, .C, .D, 4, 0xF7537E82⟩,
  ⟨.II, 10, .D, .A, .B, .C, 11, 0xBD3AF235⟩,
  ⟨.II, 15, .C, .D, .A, .B, 2, 0x2AD7D2BB⟩,
  ⟨.II, 21, .B, .C, .D, .A, 9, 0xEB86D391⟩]

/-- What a register holds -/
def get (digest : Words) : Register → UInt32
  | .A => digest.a
  | .B => digest.b
  | .C => digest.c
  | .D => digest.d

/-- Another word in a register -/
def set (digest : Words) (word : UInt32) : Register → Words
  | .A => { digest with a := word }
  | .B => { digest with b := word }
  | .C => { digest with c := word }
  | .D => { digest with d := word }

/-- `A += f(B, C, D) + M; A = rotl<S>(A) + B` -/
def Call.run (M : List UInt32) (digest : Words) (call : Call) : Words :=
  let A := get digest call.a +
    (call.f.apply (get digest call.b) (get digest call.c) (get digest call.d) +
      (M.getD call.m 0 + call.t))
  set digest (rotl32 call.S A + get digest call.b) call.a

/-- The body of the loop of `compress_n`, in front of which the registers hold the digest -/
def compress (digest : Words) (block : List UInt8) : Words :=
  digest.add (calls.foldl (Call.run (wordsLe block)) digest)

/-- The digest is not longer than a block. -/
theorem outputBytes_le : 16 ≤ 64 := by
  decide

/-- `MD5`: the sizes, the start, and the order of bytes -/
def md : MdHashImplementation Words where
  init := ⟨0x67452301, 0xEFCDAB89, 0x98BADCFE, 0x10325476⟩
  compressN := eachBlock compress 64
  bitEndianness := .big
  byteEndianness := .little
  blockBytes := 64
  outputBytes := 16
  ctrBytes := 8
  wordBytes endianness digest :=
    [digest.a, digest.b, digest.c, digest.d].flatMap (storeWord endianness)
  eight_le_ctrBytes := eight_le_counter
  ctrBytes_lt := counter_lt_block
  outputBytes_le := outputBytes_le
  length_wordBytes endianness digest := by simp

/-! ### The calls as a loop -/

/-- What the registers hold under the names of the variables before step `i` -/
def named (i : ℕ) (digest : Words) : Words :=
  match i % 4 with
  | 0 => digest
  | 1 => ⟨digest.d, digest.a, digest.b, digest.c⟩
  | 2 => ⟨digest.c, digest.d, digest.a, digest.b⟩
  | _ => ⟨digest.b, digest.c, digest.d, digest.a⟩

/-- The call of step `i` -/
def callAt (i : ℕ) : Call :=
  let f : Function := match i / 16 with
    | 0 => .FF
    | 1 => .GG
    | 2 => .HH
    | _ => .II
  match i % 4 with
  | 0 => ⟨f, Lib.Md5.shift i, .A, .B, .C, .D, Lib.Md5.index i, Lib.Md5.sines.getD i 0⟩
  | 1 => ⟨f, Lib.Md5.shift i, .D, .A, .B, .C, Lib.Md5.index i, Lib.Md5.sines.getD i 0⟩
  | 2 => ⟨f, Lib.Md5.shift i, .C, .D, .A, .B, Lib.Md5.index i, Lib.Md5.sines.getD i 0⟩
  | _ => ⟨f, Lib.Md5.shift i, .B, .C, .D, .A, Lib.Md5.index i, Lib.Md5.sines.getD i 0⟩

/-- The calls are those of a loop, with the registers going round. -/
theorem calls_eq : calls = (List.range 64).map callAt := by
  decide +kernel

theorem apply_eq (i : ℕ) (B C D : UInt32) :
    (match i / 16 with
      | 0 => Function.FF
      | 1 => Function.GG
      | 2 => Function.HH
      | _ => Function.II).apply B C D = Lib.Md5.mix (i / 16) B C D := by
  generalize i / 16 = round
  rcases round with _ | _ | _ | round
  · exact choose32_eq B C D
  · apply (choose32_eq D B C).trans
    simp only [Lib.Md5.mix, UInt32.and_comm]
  · rfl
  · rfl

/-- A call is a step, under the names of the next one. -/
theorem named_run (M : List UInt32) (digest : Words) (i : ℕ) :
    named (i + 1) ((callAt i).run M digest) = Lib.Md5.step M (named i digest) i := by
  have sum : ∀ a f m t b : UInt32, ∀ s, rotl32 s (a + (f + (m + t))) + b =
      b + rotateLeft s (a + f + m + t) := by
    intro a f m t b s
    simp only [UInt32.add_comm b, UInt32.add_assoc]
    rfl
  have turn : (i + 1) % 4 = (i % 4 + 1) % 4 := by omega
  have turns : i % 4 = 0 ∨ i % 4 = 1 ∨ i % 4 = 2 ∨ i % 4 = 3 := by omega
  rcases turns with first | second | third | fourth
  · simp only [named, callAt, Lib.Md5.step, turn, first, Call.run, get, set, sum, apply_eq]
  · simp only [named, callAt, Lib.Md5.step, turn, second, Call.run, get, set, sum, apply_eq]
  · simp only [named, callAt, Lib.Md5.step, turn, third, Call.run, get, set, sum, apply_eq]
  · simp only [named, callAt, Lib.Md5.step, turn, fourth, Call.run, get, set, sum, apply_eq]

theorem named_foldl (M : List UInt32) (digest : Words) (count : ℕ) :
    named count (((List.range count).map callAt).foldl (Call.run M) digest) =
      (List.range count).foldl (Lib.Md5.step M) digest := by
  induction count with
  | zero => rfl
  | succ count ih =>
      simp only [List.range_succ, List.map_append, List.foldl_append, List.map_cons, List.map_nil,
        List.foldl_cons, List.foldl_nil, named_run, ih]

/-- The body is the function of the standard. -/
theorem compress_eq (digest : Words) (block : List UInt8) :
    compress digest block = Lib.Md5.compress digest block := by
  have whole := named_foldl (wordsLe block) digest 64
  simp only [← calls_eq] at whole
  exact congrArg digest.add whole

/-- The hash function of the class is that of the RFC. -/
theorem scheme_eq : MerkleDamgardHash.scheme md Lib.Md5.compress = Lib.Md5.scheme := by
  have trailer : ∀ length : ℕ, List.replicate (md.ctrBytes - 8) 0 ++
      storeCounter md.byteEndianness (UInt64.ofNat (length * 8)) = lengthLe length := by
    intro length
    apply (List.nil_append _).trans
    simp only [storeCounter, md, lengthLe, UInt64.toNat_ofNat']
    exact LittleEndian.encode_mod 8 (length * 8)
  have output : ∀ digest : Words, (md.wordBytes md.byteEndianness digest).take md.outputBytes =
      Lib.Md5.output digest := by
    intro digest
    apply List.take_of_length_le
    simp [md]
  exact MerkleDamgard.ext rfl rfl rfl rfl rfl (funext trailer) (funext output)

theorem blockwise : AlignmentBuffer.Blockwise md.blockBytes md.compressN Lib.Md5.compress := by
  have same : compress = Lib.Md5.compress := funext fun digest => funext (compress_eq digest)
  rw [← same]
  exact blockwise_eachBlock compress 64

/-- The class computes the MD5 of what it has been fed with. -/
theorem computes : (MerkleDamgardHash.buffered md).Computes Lib.Md5.scheme.hash
    (MerkleDamgardHash.Holds Lib.Md5.compress) := by
  have computed := MerkleDamgardHash.computes blockwise
  rwa [scheme_eq] at computed

/-- Whatever is asked of an object, each answer is the MD5 of what it has been fed with since
the last one. -/
theorem md5_of_requests (requests : List (BufferedComputation.Request UInt8)) :
    ∃ last, (MerkleDamgardHash.buffered md).serve (MerkleDamgardHash.new md) requests =
      some (BufferedComputation.answers Lib.Md5.scheme.hash [] requests, last) :=
  computes.serve MerkleDamgardHash.holds_clear requests

/-- The digest of no bytes, as the RFC gives it -/
example : Lib.Md5.scheme.hash [] =
    [0xd4, 0x1d, 0x8c, 0xd9, 0x8f, 0x00, 0xb2, 0x04, 0xe9, 0x80, 0x09, 0x98, 0xec, 0xf8, 0x42,
      0x7e] := by
  decide +kernel

end MD5

end Imconee.Botan
