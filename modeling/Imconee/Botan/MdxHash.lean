import Imconee.Botan.AlignmentBuffer
import Imconee.Lib.BufferedComputation
import Imconee.Lib.LittleEndian
import Imconee.Lib.MerkleDamgard

/-!
# `Botan::MerkleDamgard_Hash`

What all hash functions of the library have in common: the buffer, the counter of bytes, and
how the last blocks are made up within the buffer. An object of this class computes the
Merkle–Damgård hash of its compression function, whatever pieces the message comes in, and can
be used again for the next message.
-/

set_option autoImplicit false

namespace Imconee.Botan

open Imconee.Lib

/-- `MD_Endian` -/
inductive MDEndian where
  | little
  | big
  deriving DecidableEq, Repr

/-- What a class needs to be the `MD` of a `MerkleDamgard_Hash`, with the part of the concept
`md_hash_implementation` that the code relies on -/
structure MdHashImplementation (Digest : Type) where
  init : Digest
  compressN : Digest → List UInt8 → ℕ → Digest
  bitEndianness : MDEndian
  byteEndianness : MDEndian
  blockBytes : ℕ
  outputBytes : ℕ
  ctrBytes : ℕ
  /-- The bytes of the words, for `copy_out_be` and `copy_out_le` -/
  wordBytes : MDEndian → Digest → List UInt8
  eight_le_ctrBytes : 8 ≤ ctrBytes
  ctrBytes_lt : ctrBytes < blockBytes
  outputBytes_le : outputBytes ≤ blockBytes
  length_wordBytes : ∀ (endianness : MDEndian) (digest : Digest),
    outputBytes ≤ (wordBytes endianness digest).length

/-- `store_be` or `store_le` of a number of 64 bits -/
def storeCounter : MDEndian → UInt64 → List UInt8
  | .big, count => (LittleEndian.encode 8 count.toNat).reverse
  | .little, count => LittleEndian.encode 8 count.toNat

@[simp]
theorem length_storeCounter (endianness : MDEndian) (count : UInt64) :
    (storeCounter endianness count).length = 8 := by
  cases endianness <;> simp [storeCounter]

/-- A counter of eight bytes is as long as it has to be. -/
theorem eight_le_counter : 8 ≤ 8 := Nat.le_refl 8

/-- It leaves room in a block of 64. -/
theorem counter_lt_block : 8 < 64 := by
  decide

/-- `store_be` or `store_le` of a word of 32 bits -/
def storeWord : MDEndian → UInt32 → List UInt8
  | .big, word => (LittleEndian.encode 4 word.toNat).reverse
  | .little, word => LittleEndian.encode 4 word.toNat

@[simp]
theorem length_storeWord (endianness : MDEndian) (word : UInt32) :
    (storeWord endianness word).length = 4 := by
  cases endianness <;> simp [storeWord]

/-- A `MerkleDamgard_Hash<MD>` -/
structure MerkleDamgardHash {Digest : Type} (MD : MdHashImplementation Digest) where
  digest : Digest
  count : UInt64
  buffer : AlignmentBuffer MD.blockBytes .isNotSpecial

namespace MerkleDamgardHash

variable {Digest : Type} {MD : MdHashImplementation Digest}

/-- `clear` -/
def clear (self : MerkleDamgardHash MD) : MerkleDamgardHash MD where
  digest := MD.init
  count := 0
  buffer := self.buffer.clear

variable (MD) in
/-- The constructor clears what it finds. -/
def new : MerkleDamgardHash MD := clear ⟨MD.init, 0, ⟨[], 0⟩⟩

variable (self : MerkleDamgardHash MD)

/-- `update`, which counts the bytes in 64 bits -/
def update (input : List UInt8) : Option (MerkleDamgardHash MD) := do
  let added ← AlignmentBuffer.addData MD.compressN self.digest self.buffer input
  return { digest := added.1, count := self.count + UInt64.ofNat input.length, buffer := added.2 }

/-- The local `final_byte` -/
def finalByte (MD : MdHashImplementation Digest) : UInt8 :=
  match MD.bitEndianness with
  | .big => 0x80
  | .little => 0x01

/-- `append_padding_bit`, which asserts that the buffer is not full -/
def appendPaddingBit : Option (MerkleDamgardHash MD) :=
  if self.buffer.readyToConsume then none
  else (self.buffer.append [finalByte MD]).map fun buffer => { self with buffer }

/-- `compress_n` of the block that the buffer gives up -/
def compressBuffer (buffer : AlignmentBuffer MD.blockBytes .isNotSpecial) :
    Option (MerkleDamgardHash MD) := do
  let consumed ← buffer.consume
  return { self with digest := MD.compressN self.digest consumed.2 1, buffer := consumed.1 }

/-- What is left to do once the counter bytes have room -/
def appendCounter : Option (MerkleDamgardHash MD) := do
  if self.buffer.elementsUntilAlignment < MD.ctrBytes then none
  else
    let bitCount := self.count * 8
    let buffer ← self.buffer.fillUpWithZeros.directlyModifyLast
      (storeCounter MD.byteEndianness bitCount)
    self.compressBuffer buffer

/-- `append_counter_and_finalize` -/
def appendCounterAndFinalize : Option (MerkleDamgardHash MD) :=
  -- the counter bytes may need a block of their own
  if self.buffer.elementsUntilAlignment < MD.ctrBytes then do
    let compressed ← self.compressBuffer self.buffer.fillUpWithZeros
    compressed.appendCounter
  else self.appendCounter

/-- `copy_output` -/
def copyOutput : List UInt8 := (MD.wordBytes MD.byteEndianness self.digest).take MD.outputBytes

/-- `final`: the digest, and an object as new -/
def final : Option (List UInt8 × MerkleDamgardHash MD) := do
  let padded ← self.appendPaddingBit
  let finalized ← padded.appendCounterAndFinalize
  return (finalized.copyOutput, finalized.clear)

variable (MD) in
/-- A hash function as something that is fed and asked -/
def buffered : BufferedComputation (MerkleDamgardHash MD) UInt8 (List UInt8) where
  update := update
  final := final

/-! ### The hash function -/

variable (MD) in
/-- The bytes at the end of the last block -/
def counterBytes (count : UInt64) : List UInt8 :=
  List.replicate (MD.ctrBytes - 8) 0 ++ storeCounter MD.byteEndianness (count * 8)

variable (MD) in
/-- The hash function of a compression function. Of the length in bits only the lower 64 bits
are written. -/
def scheme (compress : Digest → List UInt8 → Digest) :
    MerkleDamgard Digest UInt8 (List UInt8) where
  size := MD.blockBytes
  init := MD.init
  compress := compress
  mark := finalByte MD
  blank := 0
  trailer length :=
    List.replicate (MD.ctrBytes - 8) 0 ++ storeCounter MD.byteEndianness (UInt64.ofNat (length * 8))
  output digest := (MD.wordBytes MD.byteEndianness digest).take MD.outputBytes

theorem blockBytes_pos (MD : MdHashImplementation Digest) : 0 < MD.blockBytes :=
  Nat.zero_lt_of_lt MD.ctrBytes_lt

variable (compress : Digest → List UInt8 → Digest)

theorem length_trailer (length : ℕ) :
    ((scheme MD compress).trailer length).length = MD.ctrBytes := by
  have eight := MD.eight_le_ctrBytes
  simp only [scheme, List.length_append, List.length_replicate, length_storeCounter]
  omega

/-- The object has taken in the message. -/
structure Holds (object : MerkleDamgardHash MD) (message : List UInt8) : Prop where
  wellFormed : object.buffer.WellFormed
  settled : object.buffer.Settled
  absorbed : AlignmentBuffer.absorbed object.digest object.buffer =
    Absorbed.absorb MD.blockBytes 0 compress ⟨MD.init, []⟩ message
  count : object.count = UInt64.ofNat message.length

variable {self compress}

theorem holds_clear : Holds compress self.clear [] := by
  refine ⟨self.buffer.wellFormed_clear, blockBytes_pos MD, ?_, rfl⟩
  symm
  exact Absorbed.absorb_nil (blockBytes_pos MD) (blockBytes_pos MD)

variable (blockwise : AlignmentBuffer.Blockwise MD.blockBytes MD.compressN compress)

include blockwise

/-- `update` goes on with the message. -/
theorem Holds.update {message : List UInt8} (holds : Holds compress self message)
    (input : List UInt8) :
    ∃ next, self.update input = some next ∧ Holds compress next (message ++ input) := by
  rcases AlignmentBuffer.addData_spec (blockBytes_pos MD) blockwise holds.wellFormed holds.settled
    self.digest input with ⟨digest, buffer, added, wellFormed, settled, comes⟩
  refine ⟨⟨digest, self.count + UInt64.ofNat input.length, buffer⟩, ?_, wellFormed, settled,
    ?_, ?_⟩
  · simp only [MerkleDamgardHash.update, added, Option.bind_eq_bind, Option.bind_some,
      Option.pure_def]
  · have same : self.buffer.defer = 0 := rfl
    simp only [comes, same, holds.absorbed]
    exact Absorbed.absorb_absorb (blockBytes_pos MD) _ _ _
  · simp only [holds.count, List.length_append, UInt64.ofNat_add]

theorem compressN_one {block : List UInt8} (full : block.length = MD.blockBytes)
    (digest : Digest) : MD.compressN digest block 1 = compress digest block := by
  have single := blockwise digest [block] (by simpa using full)
  simpa using single

variable (self)

/-- A full buffer is compressed and given up. -/
theorem compressBuffer_spec {buffer : AlignmentBuffer MD.blockBytes .isNotSpecial}
    (wellFormed : buffer.WellFormed) (ready : buffer.position = MD.blockBytes) :
    ∃ empty, self.compressBuffer buffer =
        some { self with digest := compress self.digest buffer.content, buffer := empty } ∧
      empty.WellFormed ∧ empty.position = 0 ∧ empty.content = [] := by
  rcases AlignmentBuffer.consume_spec wellFormed ready with
    ⟨empty, consumed, empty_wellFormed, position, content⟩
  have full : buffer.content.length = MD.blockBytes := by
    simpa only [wellFormed.length_content] using ready
  refine ⟨empty, ?_, empty_wellFormed, position, content⟩
  simp only [compressBuffer, consumed, Option.bind_eq_bind, Option.bind_some, Option.pure_def,
    compressN_one blockwise full]

/-- The last block, in which the counter bytes have room -/
theorem appendCounter_spec (wellFormed : self.buffer.WellFormed)
    (fits : MD.ctrBytes + self.buffer.position ≤ MD.blockBytes) :
    ∃ (finalized : MerkleDamgardHash MD) (block : List UInt8),
      self.appendCounter = some finalized ∧
      finalized.digest = compress self.digest block ∧ block.length = MD.blockBytes ∧
      block = self.buffer.content ++
        (List.replicate (MD.blockBytes - self.buffer.position - MD.ctrBytes) 0 ++
          counterBytes MD self.count) := by
  have eight := MD.eight_le_ctrBytes
  have elements := length_storeCounter MD.byteEndianness (self.count * 8)
  have eight_fit : (storeCounter MD.byteEndianness (self.count * 8)).length +
      self.buffer.position ≤ MD.blockBytes := by omega
  rcases AlignmentBuffer.directlyModifyLast_spec wellFormed eight_fit with
    ⟨buffer, modified, buffer_wellFormed, full, content⟩
  rcases compressBuffer_spec self blockwise buffer_wellFormed full with
    ⟨empty, compressed, -, -, -⟩
  have room : ¬self.buffer.elementsUntilAlignment < MD.ctrBytes := by
    simp only [AlignmentBuffer.elementsUntilAlignment]
    omega
  have zeros : MD.blockBytes - self.buffer.position - 8 =
      MD.blockBytes - self.buffer.position - MD.ctrBytes + (MD.ctrBytes - 8) := by omega
  refine ⟨{ self with digest := compress self.digest buffer.content, buffer := empty },
    buffer.content, ?_, rfl, ?_, ?_⟩
  · simp only [appendCounter, if_neg room, modified, Option.bind_eq_bind, Option.bind_some]
    exact compressed
  · simpa only [buffer_wellFormed.length_content] using full
  · simp only [content, elements, zeros, counterBytes, List.replicate_add, List.append_assoc]

/-- The zeros and the counter bytes fill the last blocks. -/
theorem appendCounterAndFinalize_spec (wellFormed : self.buffer.WellFormed) :
    ∃ (finalized : MerkleDamgardHash MD) (last : List (List UInt8)) (count : ℕ),
      self.appendCounterAndFinalize = some finalized ∧
      finalized.digest = last.foldl compress self.digest ∧
      (∀ block ∈ last, block.length = MD.blockBytes) ∧ count < MD.blockBytes ∧
      (self.buffer.position + MD.ctrBytes + count) % MD.blockBytes = 0 ∧
      last.flatten = self.buffer.content ++
        (List.replicate count 0 ++ counterBytes MD self.count) := by
  have inside := wellFormed.position_le
  have eight := MD.eight_le_ctrBytes
  have below := MD.ctrBytes_lt
  simp only [appendCounterAndFinalize]
  by_cases crowded : self.buffer.elementsUntilAlignment < MD.ctrBytes
  · rcases AlignmentBuffer.fillUpWithZeros_spec wellFormed with ⟨filled, full, content⟩
    rcases compressBuffer_spec self blockwise filled full with
      ⟨empty, compressed, empty_wellFormed, position, nothing⟩
    have first : self.buffer.fillUpWithZeros.content.length = MD.blockBytes := by
      simpa only [filled.length_content] using full
    rcases appendCounter_spec { self with
        digest := compress self.digest self.buffer.fillUpWithZeros.content, buffer := empty }
        blockwise empty_wellFormed (by simp only [position]; omega) with
      ⟨finalized, block, appended, digest, second, block_eq⟩
    simp only [AlignmentBuffer.elementsUntilAlignment] at crowded
    refine ⟨finalized, [self.buffer.fillUpWithZeros.content, block],
      MD.blockBytes - self.buffer.position + (MD.blockBytes - MD.ctrBytes), ?_, digest, ?_,
      by omega, ?_, ?_⟩
    · simp only [AlignmentBuffer.elementsUntilAlignment, if_pos crowded, compressed,
        Option.bind_eq_bind, Option.bind_some]
      exact appended
    · intro other mem
      rcases List.mem_cons.mp mem with rfl | mem
      · exact first
      · exact List.mem_singleton.mp mem ▸ second
    · have two : self.buffer.position + MD.ctrBytes +
          (MD.blockBytes - self.buffer.position + (MD.blockBytes - MD.ctrBytes)) =
            MD.blockBytes * 2 := by omega
      simp only [two, Nat.mul_mod_right]
    · simp only [List.flatten_cons, List.flatten_nil, List.append_nil, content, block_eq,
        nothing, position, List.nil_append, Nat.sub_zero, List.replicate_add, List.append_assoc]
  · have room : MD.ctrBytes + self.buffer.position ≤ MD.blockBytes := by
      have enough := Nat.le_of_not_lt crowded
      simp only [AlignmentBuffer.elementsUntilAlignment] at enough
      omega
    rcases appendCounter_spec self blockwise wellFormed room with
      ⟨finalized, block, appended, digest, full, block_eq⟩
    refine ⟨finalized, [block], MD.blockBytes - self.buffer.position - MD.ctrBytes, ?_, digest,
      ?_, by omega, ?_, by simpa using block_eq⟩
    · simp only [if_neg crowded]
      exact appended
    · simpa using full
    · have one : self.buffer.position + MD.ctrBytes +
          (MD.blockBytes - self.buffer.position - MD.ctrBytes) = MD.blockBytes := by omega
      simp only [one, Nat.mod_self]

variable {self}

/-- The answer is the hash, and the object is as new. -/
theorem Holds.final {message : List UInt8} (holds : Holds compress self message) :
    ∃ next, self.final = some ((scheme MD compress).hash message, next) ∧
      Holds compress next [] := by
  have wellFormed := holds.wellFormed
  have room : self.buffer.position < MD.blockBytes := holds.settled
  have taken := holds.absorbed
  simp only [AlignmentBuffer.absorbed, Absorbed.absorb, List.nil_append, Absorbed.mk.injEq] at taken
  have fits : [finalByte MD].length ≤ self.buffer.elementsUntilAlignment := by
    simp only [List.length_singleton, AlignmentBuffer.elementsUntilAlignment]
    omega
  rcases AlignmentBuffer.append_spec wellFormed fits with
    ⟨buffer, appended, buffer_wellFormed, position, content⟩
  have padded : self.appendPaddingBit = some { self with buffer } := by
    have waits : ¬self.buffer.readyToConsume = true := by
      simp only [AlignmentBuffer.readyToConsume, decide_eq_true_eq]
      omega
    simp only [appendPaddingBit, if_neg waits, appended, Option.map_some]
  rcases appendCounterAndFinalize_spec { self with buffer } blockwise
      buffer_wellFormed with
    ⟨finalized, last, count, finalizes, digest, full, few, whole, flat⟩
  have cut := cut_blocksOf 0 (blockBytes_pos MD) message
  have rest : (restOf MD.blockBytes 0 message).length = self.buffer.position := by
    rw [← taken.2, wellFormed.length_content]
  have total := congrArg List.length cut.whole
  rw [List.length_append, length_flatten_of_full cut.full, rest] at total
  have blanks : (scheme MD compress).blanks message.length = count := by
    apply MerkleDamgard.blanks_eq few
    have same : message.length + 1 + ((scheme MD compress).trailer message.length).length +
        count = buffer.position + MD.ctrBytes + count +
          MD.blockBytes * (blocksOf MD.blockBytes 0 message).length := by
      rw [length_trailer, position, ← total, List.length_singleton, Nat.mul_comm]
      omega
    have size : (scheme MD compress).size = MD.blockBytes := rfl
    rw [same, size, Nat.add_mul_mod_self_left]
    exact whole
  have hash : (scheme MD compress).hash message = finalized.copyOutput := by
    have trailer : (scheme MD compress).trailer message.length = counterBytes MD self.count := by
      simp only [scheme, counterBytes, holds.count, UInt64.ofNat_mul]
      rfl
    apply (@MerkleDamgard.hash_eq _ _ _ (scheme MD compress) (blockBytes_pos MD) message last
      ?_ full).trans
    · simp only [copyOutput, digest, taken.1]
      rfl
    · have size : (scheme MD compress).size = MD.blockBytes := rfl
      simp only [flat, content, size, ← taken.2, MerkleDamgard.padding, blanks, trailer]
      simp only [scheme, List.append_assoc, List.cons_append, List.nil_append]
  refine ⟨finalized.clear, ?_, holds_clear⟩
  simp only [MerkleDamgardHash.final, padded, finalizes, Option.bind_eq_bind, Option.bind_some,
    Option.pure_def, hash]

/-- An object computes the hash function. -/
theorem computes : (buffered MD).Computes (scheme MD compress).hash (Holds compress) :=
  ⟨fun holds input => holds.update blockwise input, fun holds => holds.final blockwise⟩

end MerkleDamgardHash

end Imconee.Botan
