import Imconee.Lib.Absorb

/-!
# `Botan::AlignmentBuffer`

The buffer in which `Poly1305` and the hash functions collect what does not fill a block, and
the loop they all write around it. `none` is a failed `BOTAN_ASSERT` or `BOTAN_STATE_CHECK`.
The loop never fails one; it comes to what the stream cut into blocks makes of the state,
whether the last block is to be deferred or not.
-/

set_option autoImplicit false

namespace Imconee.Botan

open Imconee.Lib

/-- `AlignmentBufferFinalBlock` -/
inductive AlignmentBufferFinalBlock where
  | isNotSpecial
  | mustBeDeferred
  deriving DecidableEq, Repr

/-- An `AlignmentBuffer<uint8_t, blockSize, finalBlock>` -/
@[ext]
structure AlignmentBuffer (blockSize : ℕ) (finalBlock : AlignmentBufferFinalBlock) where
  buffer : List UInt8
  position : ℕ
  deriving DecidableEq, Repr

/-- `BufferSlicer::take`: what is taken and what remains -/
def takeSlice (count : ℕ) (remaining : List UInt8) : Option (List UInt8 × List UInt8) :=
  if count ≤ remaining.length then some (remaining.take count, remaining.drop count) else none

namespace AlignmentBuffer

variable {blockSize : ℕ} {finalBlock : AlignmentBufferFinalBlock}

/-- `clear`, which overwrites the buffer -/
def clear (_ : AlignmentBuffer blockSize finalBlock) : AlignmentBuffer blockSize finalBlock where
  buffer := List.replicate blockSize 0
  position := 0

variable (self : AlignmentBuffer blockSize finalBlock)

/-- How many bytes are missing to a full block -/
def elementsUntilAlignment : ℕ := blockSize - self.position

/-- Nothing waits in the buffer. -/
def inAlignment : Bool := self.position = 0

/-- The buffer is full. -/
def readyToConsume : Bool := self.position = blockSize

/-- The last block of an input stays in the buffer. -/
def defersFinalBlock (_ : AlignmentBuffer blockSize finalBlock) : Bool :=
  finalBlock = .mustBeDeferred

/-- The local `defer` of the functions below -/
def defer : ℕ := if self.defersFinalBlock then 1 else 0

/-- `fill_up_with_zeros` -/
def fillUpWithZeros : AlignmentBuffer blockSize finalBlock :=
  if self.readyToConsume then self
  else
    { buffer := self.buffer.take self.position ++ List.replicate self.elementsUntilAlignment 0
      position := blockSize }

/-- `append`, which asserts that there is room -/
def append (elements : List UInt8) : Option (AlignmentBuffer blockSize finalBlock) :=
  if elements.length ≤ self.elementsUntilAlignment then
    some
      { buffer := self.buffer.take self.position ++ elements ++
          self.buffer.drop (self.position + elements.length)
        position := self.position + elements.length }
  else none

/-- `directly_modify_last`, together with what is stored there -/
def directlyModifyLast (elements : List UInt8) : Option (AlignmentBuffer blockSize finalBlock) :=
  if elements.length ≤ blockSize then
    some { self with buffer := self.buffer.take (blockSize - elements.length) ++ elements }
  else none

/-- The aligned data, how many blocks they are, and what remains in the slicer -/
def alignedDataToProcess (slicer : List UInt8) : Option (List UInt8 × ℕ × List UInt8) :=
  if self.inAlignment then
    -- with fewer bytes the difference wraps around and there are never so many to take
    if self.defer ≤ slicer.length then
      let fullBlocksToProcess := (slicer.length - self.defer) / blockSize
      (takeSlice (fullBlocksToProcess * blockSize) slicer).map fun taken =>
        (taken.1, fullBlocksToProcess, taken.2)
    else none
  else none

/-- `consume`, which asserts that the buffer is full: the buffer afterwards, and its bytes -/
def consume : Option (AlignmentBuffer blockSize finalBlock × List UInt8) :=
  if self.readyToConsume then some ({ self with position := 0 }, self.buffer) else none

/-- The part of `handle_unaligned_data` that copies into the buffer: the buffer behind, what
remains in the slicer, and a block if there is one -/
def collect (slicer : List UInt8) :
    Option (AlignmentBuffer blockSize finalBlock × List UInt8 × Option (List UInt8)) := do
  let elementsToConsume := min (blockSize - self.position) slicer.length
  let taken ← takeSlice elementsToConsume slicer
  let next ← self.append taken.1
  if next.readyToConsume ∧ (¬next.defersFinalBlock ∨ taken.2 ≠ []) then
    let consumed ← next.consume
    return (consumed.1, taken.2, some consumed.2)
  else return (next, taken.2, none)

/-- `handle_unaligned_data`. A whole block goes past the buffer if nothing waits in it. -/
def handleUnalignedData (slicer : List UInt8) :
    Option (AlignmentBuffer blockSize finalBlock × List UInt8 × Option (List UInt8)) :=
  if self.inAlignment ∧ blockSize + self.defer ≤ slicer.length then some (self, slicer, none)
  else self.collect slicer

section

variable {σ : Type} (processN : σ → List UInt8 → ℕ → σ)

/-- What a round does once it is in alignment -/
def processAligned (state : σ) (self : AlignmentBuffer blockSize finalBlock)
    (slicer : List UInt8) : Option (σ × AlignmentBuffer blockSize finalBlock × List UInt8) := do
  let aligned ← self.alignedDataToProcess slicer
  let fullBlocks := aligned.2.1
  return (if 0 < fullBlocks then processN state aligned.1 fullBlocks else state, self, aligned.2.2)

/-- The body of the loop of `Poly1305::add_data` and `MerkleDamgard_Hash::update`; `processN`
takes data and the number of blocks they are. -/
def addDataStep (state : σ) (self : AlignmentBuffer blockSize finalBlock) (slicer : List UInt8) :
    Option (σ × AlignmentBuffer blockSize finalBlock × List UInt8) := do
  let handled ← self.handleUnalignedData slicer
  let state := handled.2.2.elim state fun oneBlock => processN state oneBlock 1
  if handled.1.inAlignment then processAligned processN state handled.1 handled.2.1
  else some (state, handled.1, handled.2.1)

/-- The loop, which ends when the input is used up -/
def addDataLoop : ℕ → σ → AlignmentBuffer blockSize finalBlock → List UInt8 →
    Option (σ × AlignmentBuffer blockSize finalBlock)
  | 0, _, _, _ => none
  | fuel + 1, state, self, slicer =>
      if slicer = [] then some (state, self)
      else do
        let stepped ← addDataStep processN state self slicer
        addDataLoop fuel stepped.1 stepped.2.1 stepped.2.2

/-- The loop, with a round for each byte and one for a block that has been deferred -/
def addData (state : σ) (self : AlignmentBuffer blockSize finalBlock) (input : List UInt8) :
    Option (σ × AlignmentBuffer blockSize finalBlock) :=
  addDataLoop processN (input.length + 2) state self input

end

/-- The bytes that wait -/
def content : List UInt8 := self.buffer.take self.position

/-- The array is whole and the cursor inside. -/
structure WellFormed (alignment : AlignmentBuffer blockSize finalBlock) : Prop where
  length_buffer : alignment.buffer.length = blockSize
  position_le : alignment.position ≤ blockSize

variable {self}

theorem WellFormed.length_content (wellFormed : self.WellFormed) :
    self.content.length = self.position := by
  rw [content, List.length_take, wellFormed.length_buffer]
  exact Nat.min_eq_left wellFormed.position_le

theorem wellFormed_clear : self.clear.WellFormed :=
  ⟨List.length_replicate, Nat.zero_le _⟩

/-- `append` puts the bytes behind those that wait. -/
theorem append_spec (wellFormed : self.WellFormed) {elements : List UInt8}
    (fits : elements.length ≤ self.elementsUntilAlignment) :
    ∃ next, self.append elements = some next ∧ next.WellFormed ∧
      next.position = self.position + elements.length ∧
      next.content = self.content ++ elements := by
  have inside := wellFormed.position_le
  have length := wellFormed.length_buffer
  have content_length := wellFormed.length_content
  rw [elementsUntilAlignment] at fits
  refine ⟨_, if_pos (by rwa [elementsUntilAlignment]), ⟨?_, ?_⟩, rfl, ?_⟩
  · simp only [List.length_append, List.length_take, List.length_drop]
    omega
  · simp only
    omega
  · have whole : (self.content ++ elements).length = self.position + elements.length := by
      rw [List.length_append, content_length]
    simp only [content] at whole ⊢
    rw [← whole, List.take_left]

/-- The buffer is full afterwards, of what has waited and zeros. -/
theorem fillUpWithZeros_spec (wellFormed : self.WellFormed) :
    self.fillUpWithZeros.WellFormed ∧ self.fillUpWithZeros.position = blockSize ∧
      self.fillUpWithZeros.content =
        self.content ++ List.replicate (blockSize - self.position) 0 := by
  have inside := wellFormed.position_le
  have length := wellFormed.length_buffer
  rw [fillUpWithZeros]
  split
  · rename_i ready
    have full : self.position = blockSize := by simpa [readyToConsume] using ready
    exact ⟨wellFormed, full, by simp [full]⟩
  · have filled : (self.buffer.take self.position ++
        List.replicate self.elementsUntilAlignment (0 : UInt8)).length = blockSize := by
      rw [List.length_append, List.length_take, List.length_replicate, elementsUntilAlignment]
      omega
    refine ⟨⟨filled, Nat.le_refl _⟩, rfl, ?_⟩
    rw [content, List.take_of_length_le (by simp only; omega)]
    rfl

/-- The array of a full buffer is what it holds. -/
theorem WellFormed.content_of_full (wellFormed : self.WellFormed)
    (full : self.position = blockSize) : self.content = self.buffer := by
  apply List.take_of_length_le
  exact Nat.le_of_eq (wellFormed.length_buffer.trans full.symm)

/-- A full buffer gives its bytes away. -/
theorem consume_spec (wellFormed : self.WellFormed) (full : self.position = blockSize) :
    ∃ next, self.consume = some (next, self.content) ∧ next.WellFormed ∧ next.position = 0 ∧
      next.content = [] := by
  refine ⟨{ self with position := 0 }, ?_, ⟨wellFormed.length_buffer, Nat.zero_le _⟩, rfl, rfl⟩
  rw [consume, if_pos (by simpa [readyToConsume] using full), wellFormed.content_of_full full]

/-- Zeros up to the end, and the last of them overwritten -/
theorem directlyModifyLast_spec (wellFormed : self.WellFormed) {elements : List UInt8}
    (fits : elements.length + self.position ≤ blockSize) :
    ∃ next, self.fillUpWithZeros.directlyModifyLast elements = some next ∧ next.WellFormed ∧
      next.position = blockSize ∧
      next.content = self.content ++
        List.replicate (blockSize - self.position - elements.length) 0 ++ elements := by
  rcases fillUpWithZeros_spec wellFormed with ⟨filled, position, content⟩
  have length := wellFormed.length_content
  have inside : blockSize - elements.length =
      self.content.length + (blockSize - self.position - elements.length) := by omega
  have front : self.fillUpWithZeros.buffer.take (blockSize - elements.length) =
      self.content ++ List.replicate (blockSize - self.position - elements.length) 0 := by
    rw [← filled.content_of_full position, content, inside, List.take_length_add_append,
      List.take_replicate]
    congr 2
    omega
  have total : (self.fillUpWithZeros.buffer.take (blockSize - elements.length) ++
      elements).length = blockSize := by
    simp only [List.length_append, List.length_take, filled.length_buffer]
    omega
  have next_wellFormed : WellFormed (⟨self.fillUpWithZeros.buffer.take
      (blockSize - elements.length) ++ elements, self.fillUpWithZeros.position⟩ :
        AlignmentBuffer blockSize finalBlock) := ⟨total, Nat.le_of_eq position⟩
  refine ⟨_, if_pos (by omega), next_wellFormed, position, ?_⟩
  apply (next_wellFormed.content_of_full position).trans
  exact congrArg (· ++ elements) front

/-- Less than a block waits, or one that is deferred. -/
def Settled (alignment : AlignmentBuffer blockSize finalBlock) : Prop :=
  alignment.position < blockSize + alignment.defer

theorem defer_le_one : self.defer ≤ 1 := by
  rw [defer]
  split <;> omega

/-- The ways in which `handle_unaligned_data` ends. -/
inductive Handled (self : AlignmentBuffer blockSize finalBlock) (slicer : List UInt8) :
    AlignmentBuffer blockSize finalBlock × List UInt8 × Option (List UInt8) → Prop where
  | aligned (empty : self.position = 0) (enough : blockSize + self.defer ≤ slicer.length) :
      Handled self slicer (self, slicer, none)
  | block {next : AlignmentBuffer blockSize finalBlock} {block rest : List UInt8}
      (wellFormed : next.WellFormed) (empty : next.position = 0)
      (full : block.length = blockSize) (whole : self.content ++ slicer = block ++ rest)
      (behind : self.defer ≤ rest.length) :
      Handled self slicer (next, rest, some block)
  | waits {next : AlignmentBuffer blockSize finalBlock} (wellFormed : next.WellFormed)
      (settled : next.Settled) (some : next.position ≠ 0)
      (whole : next.content = self.content ++ slicer) :
      Handled self slicer (next, [], none)

theorem takeSlice_of_le {count : ℕ} {remaining : List UInt8} (enough : count ≤ remaining.length) :
    takeSlice count remaining = some (remaining.take count, remaining.drop count) :=
  if_pos enough

/-- What goes through the buffer is one block, once it is full. -/
theorem collect_spec (positive : 0 < blockSize) (wellFormed : self.WellFormed)
    {slicer : List UInt8} (any : 0 < slicer.length) :
    ∃ result, self.collect slicer = some result ∧ self.Handled slicer result := by
  have inside := wellFormed.position_le
  have fits : (slicer.take (min (blockSize - self.position) slicer.length)).length ≤
      self.elementsUntilAlignment := by
    rw [List.length_take, elementsUntilAlignment]
    omega
  rcases append_spec wellFormed fits with ⟨next, appended, next_wellFormed, position, content⟩
  rw [List.length_take] at position
  have left : (slicer.drop (min (blockSize - self.position) slicer.length)).length =
      slicer.length - min (blockSize - self.position) slicer.length := List.length_drop
  have whole : self.content ++ slicer =
      next.content ++ slicer.drop (min (blockSize - self.position) slicer.length) := by
    rw [content, List.append_assoc, List.take_append_drop]
  simp only [collect, takeSlice_of_le (Nat.min_le_right _ _), appended, Option.bind_eq_bind,
    Option.bind_some]
  have same : next.defer = self.defer := rfl
  split
  · rename_i pushes
    have full : next.position = blockSize := by simpa [readyToConsume] using pushes.1
    rcases consume_spec next_wellFormed full with ⟨last, consumed, last_wellFormed, empty, -⟩
    rw [consumed]
    refine ⟨_, rfl, .block last_wellFormed empty ?_ whole ?_⟩
    · rw [next_wellFormed.length_content, full]
    · rcases pushes.2 with plain | more
      · have none : self.defer = 0 := by
          rw [← same, defer]
          simpa using plain
        omega
      · have := List.length_pos_iff.mpr more
        have bound : self.defer ≤ 1 := defer_le_one
        omega
  · rename_i waits
    have empty : slicer.drop (min (blockSize - self.position) slicer.length) = [] := by
      by_contra more
      have rest := List.length_pos_iff.mpr more
      apply waits
      refine ⟨?_, Or.inr more⟩
      rw [readyToConsume, decide_eq_true_eq]
      omega
    have next_inside := next_wellFormed.position_le
    rw [empty] at waits whole ⊢
    refine ⟨_, rfl, .waits next_wellFormed ?_ ?_ ?_⟩
    · rw [Settled]
      by_cases full : next.position = blockSize
      · have defers : next.defersFinalBlock = true := by simpa [readyToConsume, full] using waits
        rw [defer, if_pos defers]
        omega
      · omega
    · omega
    · rw [whole, List.append_nil]

/-- Whatever there is of input, it is handled. -/
theorem handleUnalignedData_spec (positive : 0 < blockSize) (wellFormed : self.WellFormed)
    {slicer : List UInt8} (any : 0 < slicer.length) :
    ∃ result, self.handleUnalignedData slicer = some result ∧ self.Handled slicer result := by
  rw [handleUnalignedData]
  split
  · rename_i direct
    exact ⟨_, rfl, .aligned (by simpa [inAlignment] using direct.1) direct.2⟩
  · exact collect_spec positive wellFormed any

/-- `processN` takes its blocks one after the other. -/
def Blockwise {σ : Type} (blockSize : ℕ) (processN : σ → List UInt8 → ℕ → σ)
    (compress : σ → List UInt8 → σ) : Prop :=
  ∀ (state : σ) (blocks : List (List UInt8)), (∀ block ∈ blocks, block.length = blockSize) →
    processN state blocks.flatten blocks.length = blocks.foldl compress state

/-- How many rounds are needed at most -/
def rounds (self : AlignmentBuffer blockSize finalBlock) (slicer : List UInt8) : ℕ :=
  if slicer = [] then 1
  else slicer.length + (if self.position = blockSize then 1 else 0) + 1

section

variable {σ : Type} {processN : σ → List UInt8 → ℕ → σ} {compress : σ → List UInt8 → σ}

/-- What the buffer stands for in the stream -/
def absorbed (state : σ) (self : AlignmentBuffer blockSize finalBlock) : Absorbed σ UInt8 :=
  ⟨state, self.content⟩

/-- The aligned blocks are taken from what remains. -/
theorem alignedDataToProcess_spec (positive : 0 < blockSize) (empty : self.position = 0)
    {slicer : List UInt8} (enough : self.defer ≤ slicer.length) :
    ∃ blocks rest, self.alignedDataToProcess slicer = some (blocks.flatten, blocks.length, rest) ∧
      (∀ block ∈ blocks, block.length = blockSize) ∧ slicer = blocks.flatten ++ rest ∧
      (blocks = [] ∨ self.defer ≤ rest.length) ∧ rest.length ≤ slicer.length ∧
      (blockSize + self.defer ≤ slicer.length → rest.length < slicer.length) := by
  have cut := cut_blocksOf self.defer positive slicer
  have count := cut.count positive
  have total := congrArg List.length cut.whole
  rw [List.length_append, length_flatten_of_full cut.full] at total
  have short := cut.short
  refine ⟨_, _, ?_, cut.full, cut.whole.symm, cut.held, by omega, by omega⟩
  have fits : blockCount blockSize self.defer slicer.length * blockSize ≤ slicer.length :=
    Nat.le_trans (Nat.div_mul_le_self _ _) (Nat.sub_le _ _)
  have taken : slicer.take (blockCount blockSize self.defer slicer.length * blockSize) =
      (blocksOf blockSize self.defer slicer).flatten := by
    rw [blocksOf, flatten_range_take _ _ _ fits]
  have aligned : self.inAlignment = true := by simpa [inAlignment] using empty
  have processed : self.alignedDataToProcess slicer =
      (takeSlice (blockCount blockSize self.defer slicer.length * blockSize) slicer).map
        fun taken => (taken.1, blockCount blockSize self.defer slicer.length, taken.2) := by
    rw [alignedDataToProcess, if_pos aligned, if_pos enough]
    rfl
  rw [processed, takeSlice_of_le fits, Option.map_some, taken, count]
  rfl

/-- The full blocks of the input are taken, and it gets shorter if there are any. -/
theorem processAligned_spec (positive : 0 < blockSize)
    (blockwise : Blockwise blockSize processN compress) (wellFormed : self.WellFormed)
    (empty : self.position = 0) (state : σ) {slicer : List UInt8}
    (enough : self.defer ≤ slicer.length) :
    ∃ following rest, processAligned processN state self slicer = some (following, self, rest) ∧
      rest.length ≤ slicer.length ∧
      (blockSize + self.defer ≤ slicer.length → rest.length < slicer.length) ∧
      (absorbed state self).absorb blockSize self.defer compress slicer =
        (absorbed following self).absorb blockSize self.defer compress rest := by
  rcases alignedDataToProcess_spec positive empty enough with
    ⟨blocks, rest, processed, full, whole, held, shorter, progress⟩
  have nothing : self.content = [] := by
    apply List.eq_nil_of_length_eq_zero
    rw [wellFormed.length_content, empty]
  have following : (if 0 < blocks.length then processN state blocks.flatten blocks.length
      else state) = blocks.foldl compress state := by
    rw [blockwise state blocks full]
    split
    · rfl
    · rename_i none
      rw [List.eq_nil_of_length_eq_zero (Nat.eq_zero_of_not_pos none)]
      rfl
  refine ⟨blocks.foldl compress state, rest, ?_, shorter, progress, ?_⟩
  · rw [processAligned, processed, Option.bind_eq_bind, Option.bind_some]
    dsimp only
    rw [following]
    rfl
  · simp only [absorbed, nothing]
    exact Absorbed.absorb_of_taken positive blocks whole full held

theorem rounds_lt {next : AlignmentBuffer blockSize finalBlock} {slicer rest : List UInt8}
    (any : 0 < slicer.length)
    (less : rest = [] ∨ (next.position ≠ blockSize ∧ (rest.length < slicer.length ∨
      (rest.length ≤ slicer.length ∧ self.position = blockSize)))) :
    next.rounds rest < self.rounds slicer := by
  have more := List.length_pos_iff.mp any
  rw [rounds, rounds, if_neg more]
  rcases less with rfl | ⟨partly, shorter⟩
  · rw [if_pos rfl]
    omega
  · rw [if_neg partly]
    rcases shorter with shorter | ⟨shorter, full⟩
    · split <;> omega
    · rw [if_pos full]
      split <;> omega

/-- One round of the loop: what the round comes to absorbs the stream that is left. -/
theorem addDataStep_spec (positive : 0 < blockSize)
    (blockwise : Blockwise blockSize processN compress) (wellFormed : self.WellFormed)
    (state : σ) {slicer : List UInt8} (any : 0 < slicer.length) :
    ∃ following next rest, addDataStep processN state self slicer = some (following, next, rest) ∧
      next.WellFormed ∧ next.Settled ∧ next.rounds rest < self.rounds slicer ∧
      (absorbed state self).absorb blockSize self.defer compress slicer =
        (absorbed following next).absorb blockSize next.defer compress rest := by
  rcases handleUnalignedData_spec positive wellFormed any with ⟨result, handled, outcome⟩
  rw [addDataStep, handled, Option.bind_eq_bind, Option.bind_some]
  have settled_of_empty : ∀ {next : AlignmentBuffer blockSize finalBlock},
      next.position = 0 → next.Settled := by
    intro next empty
    rw [Settled]
    omega
  cases outcome with
  | aligned empty enough =>
      rcases processAligned_spec positive blockwise wellFormed empty state
        (Nat.le_of_add_left_le enough) with ⟨following, rest, processed, -, progress, same⟩
      refine ⟨following, self, rest, ?_, wellFormed, settled_of_empty empty, ?_, same⟩
      · rw [if_pos (by simpa [inAlignment] using empty)]
        exact processed
      · apply rounds_lt any
        right
        exact ⟨by omega, Or.inl (progress enough)⟩
  | @block next block left next_wellFormed empty full whole behind =>
      rcases processAligned_spec positive blockwise next_wellFormed empty
        (compress state block) behind with ⟨following, rest, processed, shorter, -, same⟩
      have pushed : processN state block 1 = compress state block := by
        have single := blockwise state [block] (by simpa using full)
        simpa using single
      have nothing : next.content = [] := by
        apply List.eq_nil_of_length_eq_zero
        rw [next_wellFormed.length_content, empty]
      have lengths := congrArg List.length whole
      rw [List.length_append, List.length_append, wellFormed.length_content, full] at lengths
      have inside := wellFormed.position_le
      refine ⟨following, next, rest, ?_, next_wellFormed, settled_of_empty empty, ?_, ?_⟩
      · rw [if_pos (by simpa [inAlignment] using empty)]
        dsimp only [Option.elim_some]
        rw [pushed]
        exact processed
      · apply rounds_lt any
        right
        refine ⟨by omega, ?_⟩
        by_cases deferred : self.position = blockSize
        · exact Or.inr ⟨by omega, deferred⟩
        · exact Or.inl (by omega)
      · rw [← same]
        apply Absorbed.absorb_of_taken positive [block]
        · rw [absorbed, nothing]
          simpa using whole
        · simpa using full
        · right
          rw [List.length_append]
          exact Nat.le_add_left_of_le behind
  | @waits next next_wellFormed next_settled some whole =>
      refine ⟨state, next, [], ?_, next_wellFormed, next_settled, rounds_lt any (Or.inl rfl), ?_⟩
      · rw [if_neg (by simpa [inAlignment] using some)]
        rfl
      · apply Absorbed.absorb_of_taken positive []
        · rw [absorbed, whole]
          simp
        · simp
        · exact Or.inl rfl

/-- The loop ends, fails no check, and comes to what the stream makes of the state. -/
theorem addData_spec (positive : 0 < blockSize)
    (blockwise : Blockwise blockSize processN compress) (wellFormed : self.WellFormed)
    (settled : self.Settled) (state : σ) (input : List UInt8) :
    ∃ following next, addData processN state self input = some (following, next) ∧
      next.WellFormed ∧ next.Settled ∧
      absorbed following next =
        (absorbed state self).absorb blockSize self.defer compress input := by
  have loop : ∀ fuel state (self : AlignmentBuffer blockSize finalBlock) slicer,
      self.WellFormed → self.Settled → self.rounds slicer ≤ fuel →
      ∃ following next, addDataLoop processN fuel state self slicer = some (following, next) ∧
        next.WellFormed ∧ next.Settled ∧
        absorbed following next =
          (absorbed state self).absorb blockSize self.defer compress slicer := by
    intro fuel
    induction fuel with
    | zero =>
        intro state self slicer _ _ enough
        rw [rounds] at enough
        split at enough <;> omega
    | succ fuel ih =>
        intro state self slicer wellFormed settled enough
        rw [addDataLoop]
        split
        · rename_i done
          subst done
          refine ⟨state, self, rfl, wellFormed, settled, ?_⟩
          rw [Absorbed.absorb_nil positive]
          rw [absorbed, wellFormed.length_content]
          exact settled
        · rename_i more
          rcases addDataStep_spec positive blockwise wellFormed state
            (List.length_pos_iff.mpr more) with
            ⟨middle, between, rest, stepped, between_wellFormed, between_settled, less, same⟩
          rcases ih middle between rest between_wellFormed between_settled (by omega) with
            ⟨following, next, looped, next_wellFormed, next_settled, comes⟩
          refine ⟨following, next, ?_, next_wellFormed, next_settled, by rw [comes, same]⟩
          rw [stepped, Option.bind_eq_bind, Option.bind_some]
          exact looped
  apply loop
  · exact wellFormed
  · exact settled
  · rw [rounds]
    split
    · omega
    · split <;> omega

end

end AlignmentBuffer

end Imconee.Botan
