import Imconee.Botan.Sha1X86

/-!
# The class `Botan::SHA_1`

Which version of `compress_n` runs is a matter of the processor. All of them take block after
block with the function of the standard, so that the class computes the same digests with each.
-/

set_option autoImplicit false

namespace Imconee.Botan.SHA1

open Imconee.Lib
open Lib.Sha1 (Words)

/-- What `CPUID` finds -/
structure Cpu where
  hasSse2 : Bool
  shaBit : Bool
  deriving DecidableEq, Repr

/-- The SHA instructions count only along with SSE2. -/
def Cpu.hasIntelSha (cpu : Cpu) : Bool := cpu.hasSse2 && cpu.shaBit

/-- `compress_n`, as it is compiled for Intel -/
def compressN (cpu : Cpu) (digest : Words) (input : List UInt8) (blocks : ℕ) : Words :=
  if cpu.hasIntelSha then X86.sha1CompressX86 digest input blocks
  else if cpu.hasSse2 then eachBlock SSE2.compress 64 digest input blocks
  else eachBlock compress 64 digest input blocks

/-- The digest is not longer than a block. -/
theorem outputBytes_le : 20 ≤ 64 := by
  decide

/-- `SHA_1`: the sizes, the start, and the order of bytes -/
def md (cpu : Cpu) : MdHashImplementation Words where
  init := ⟨0x67452301, 0xEFCDAB89, 0x98BADCFE, 0x10325476, 0xC3D2E1F0⟩
  compressN := compressN cpu
  bitEndianness := .big
  byteEndianness := .big
  blockBytes := 64
  outputBytes := 20
  ctrBytes := 8
  wordBytes endianness digest :=
    [digest.a, digest.b, digest.c, digest.d, digest.e].flatMap (storeWord endianness)
  eight_le_ctrBytes := eight_le_counter
  ctrBytes_lt := counter_lt_block
  outputBytes_le := outputBytes_le
  length_wordBytes endianness digest := by simp

theorem blockBytes_lt (cpu : Cpu) : (md cpu).blockBytes < 2 ^ 64 := by
  change 64 < 2 ^ 64
  decide

theorem outputBytes_pos (cpu : Cpu) : 0 < (md cpu).outputBytes := by
  change 0 < 20
  decide

/-- A version whose body is the function of the standard -/
theorem blockwise_of_eq {body : Words → List UInt8 → Words}
    (same : ∀ digest block, body digest block = Lib.Sha1.compress digest block) :
    AlignmentBuffer.Blockwise 64 (eachBlock body 64) Lib.Sha1.compress := by
  have whole : body = Lib.Sha1.compress := funext fun digest => funext (same digest)
  rw [← whole]
  exact blockwise_eachBlock body 64

/-- All three versions take block after block with the function of the standard. -/
theorem blockwise_compressN (cpu : Cpu) :
    AlignmentBuffer.Blockwise 64 (compressN cpu) Lib.Sha1.compress := by
  intro digest blocks full
  unfold compressN
  split_ifs
  · exact X86.blockwise digest blocks full
  · exact blockwise_of_eq SSE2.compress_eq digest blocks full
  · exact blockwise_of_eq compress_eq digest blocks full

/-- The hash function of the class is that of the standard. -/
theorem scheme_eq (cpu : Cpu) :
    MerkleDamgardHash.scheme (md cpu) Lib.Sha1.compress = Lib.Sha1.scheme := by
  have trailer : ∀ length : ℕ, List.replicate ((md cpu).ctrBytes - 8) 0 ++
      storeCounter (md cpu).byteEndianness (UInt64.ofNat (length * 8)) = lengthBe length := by
    intro length
    apply (List.nil_append _).trans
    simp only [storeCounter, md, lengthBe, UInt64.toNat_ofNat']
    exact congrArg List.reverse (LittleEndian.encode_mod 8 (length * 8))
  have output : ∀ digest : Words,
      ((md cpu).wordBytes (md cpu).byteEndianness digest).take (md cpu).outputBytes =
        Lib.Sha1.output digest := by
    intro digest
    apply List.take_of_length_le
    simp [md]
  exact MerkleDamgard.ext rfl rfl rfl rfl rfl (funext trailer) (funext output)

/-- Whatever the processor is, the class computes the SHA-1 of what it has been fed with. -/
theorem computes (cpu : Cpu) : (MerkleDamgardHash.buffered (md cpu)).Computes
    Lib.Sha1.scheme.hash (MerkleDamgardHash.Holds Lib.Sha1.compress) := by
  have computed : (MerkleDamgardHash.buffered (md cpu)).Computes
      (MerkleDamgardHash.scheme (md cpu) Lib.Sha1.compress).hash
      (MerkleDamgardHash.Holds Lib.Sha1.compress) :=
    MerkleDamgardHash.computes (blockwise_compressN cpu)
  rwa [scheme_eq] at computed

/-- The digest of `abc`, as the standard gives it -/
example : Lib.Sha1.scheme.hash [97, 98, 99] =
    [0xa9, 0x99, 0x3e, 0x36, 0x47, 0x06, 0x81, 0x6a, 0xba, 0x3e, 0x25, 0x71, 0x78, 0x50, 0xc2,
      0x6c, 0x9c, 0xd0, 0xd8, 0x9d] := by
  decide +kernel

end Imconee.Botan.SHA1
