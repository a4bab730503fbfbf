import Imconee.Lib.Memory
import Mathlib.Data.Int.Notation

/-!
# `tools::chunk_buffer`

A byte queue kept in a chain of chunks of `size` bytes. `first_skip` bytes at the front of
the first chunk are already read and `last_size` bytes of the last chunk are filled. The
chain is a list and a chunk carries the address `new` gave it, so that `chunk* last` and
the comparison `first.get() == last` are those of the source.

`content` is what the buffer holds; on well-formed buffers every operation is the one of a
byte queue.
-/

set_option autoImplicit false

namespace Imconee.Tools

open Imconee.Lib

/-- `chunk_buffer::chunk`; `next` is the rest of the chain. -/
structure Chunk where
  address : ℕ
  data : Memory UInt8

/-- `memcpy(chunk->data + offset, data, n)` -/
def Chunk.copy (chunk : Chunk) (offset : ℕ) (data : List UInt8) : Chunk :=
  { chunk with data := chunk.data.write offset data }

@[simp]
theorem Chunk.address_copy (chunk : Chunk) (offset : ℕ) (data : List UInt8) :
    (chunk.copy offset data).address = chunk.address := rfl

structure ChunkBuffer (size : ℕ) where
  /-- The chunks owned through `first` and their `next` pointers. -/
  chain : List Chunk := []
  last : Option ℕ := none
  firstSkip : ℕ := 0
  lastSize : ℕ := 0
  /-- The address the next `new chunk()` returns. -/
  fresh : ℕ := 0

namespace ChunkBuffer

variable {size : ℕ}

/-- `new chunk()`, whose bytes are zero. -/
def newChunk (buffer : ChunkBuffer size) : Chunk :=
  { address := buffer.fresh, data := .fill 0 }

/-- `ch == last ? last_size : SIZE` -/
def filled (buffer : ChunkBuffer size) (chunk : Chunk) : ℕ :=
  if buffer.last = some chunk.address then buffer.lastSize else size

/-- `memcpy` into the chunk at an address; a chunk outside the chain is not ours to see. -/
def copyInto (address offset : ℕ) (data : List UInt8) (chain : List Chunk) : List Chunk :=
  chain.map fun chunk =>
    if chunk.address = address then chunk.copy offset data else chunk

/-- `p->next.reset(chunk)` for the chunk `p` at an address: what followed it is destroyed. -/
def linkAfter (address : ℕ) (new : Chunk) : List Chunk → List Chunk
  | [] => []
  | chunk :: next =>
      if chunk.address = address then [chunk, new] else chunk :: linkAfter address new next

/-- How many bytes one round of `append` copies: `minv(SIZE - last_size, data.size())`. -/
def roundSize (buffer : ChunkBuffer size) (data : List UInt8) : ℕ :=
  min (size - buffer.lastSize) data.length

/-- One round of the loop of `append`: fill up the last chunk, and open a new one behind it
once it is full. -/
def appendRound (buffer : ChunkBuffer size) (data : List UInt8) : ChunkBuffer size :=
  let address := buffer.last.getD buffer.fresh
  let cpy := buffer.roundSize data
  let buffer := { buffer with
    chain := copyInto address buffer.lastSize (data.take cpy) buffer.chain
    lastSize := buffer.lastSize + cpy }
  if buffer.lastSize = size then { buffer with
    lastSize := 0
    chain := linkAfter address buffer.newChunk buffer.chain
    last := some buffer.fresh
    fresh := buffer.fresh + 1 }
  else buffer

/-- The loop of `append`; `fuel` bounds its rounds. -/
def appendLoop : ℕ → ChunkBuffer size → List UInt8 → ChunkBuffer size
  | 0, buffer, _ => buffer
  | fuel + 1, buffer, data =>
      if 0 < data.length then
        appendLoop fuel (buffer.appendRound data) (data.drop (buffer.roundSize data))
      else buffer

def append (buffer : ChunkBuffer size) (data : List UInt8) : ChunkBuffer size :=
  let buffer :=
    if buffer.chain = [] then { buffer with
      chain := [buffer.newChunk]
      last := some buffer.fresh
      fresh := buffer.fresh + 1
      lastSize := 0 }
    else buffer
  -- a round that copies nothing only happens when the last chunk is full on entry
  appendLoop (data.length + 1) buffer data

/-- The loop of `assign` from the chunk `chunk` on, with the chunks behind it. -/
def assignLoop : ℕ → ChunkBuffer size → Chunk → List Chunk → List UInt8 →
    ChunkBuffer size × List Chunk
  | 0, buffer, chunk, next, _ => (buffer, chunk :: next)
  | fuel + 1, buffer, chunk, next, data =>
      let cpy := min size data.length
      let chunk := chunk.copy 0 (data.take cpy)
      let buffer := { buffer with lastSize := cpy }
      let data := data.drop cpy
      if 0 < data.length then
        match next with
        | [] =>
            let rest := assignLoop fuel
              { buffer with last := some buffer.fresh, fresh := buffer.fresh + 1 }
              buffer.newChunk [] data
            (rest.1, chunk :: rest.2)
        | following :: next =>
            let rest := assignLoop fuel { buffer with last := some following.address }
              following next data
            (rest.1, chunk :: rest.2)
      else (buffer, [chunk])

def assign (buffer : ChunkBuffer size) (data : List UInt8) : ChunkBuffer size :=
  if data.length = 0 then
    { buffer with chain := [], last := none, firstSkip := 0, lastSize := 0 }
  else
    match buffer.chain with
    | [] =>
        let rest : ChunkBuffer size × List Chunk := assignLoop (data.length + 1)
          { buffer with last := some buffer.fresh, fresh := buffer.fresh + 1, lastSize := 0 }
          buffer.newChunk [] data
        { rest.1 with chain := rest.2 }
    | first :: next =>
        let rest : ChunkBuffer size × List Chunk :=
          assignLoop (data.length + 1) { buffer with firstSkip := 0 } first next data
        { rest.1 with chain := rest.2 }

def get1stChunk (buffer : ChunkBuffer size) : List UInt8 :=
  match buffer.chain with
  | [] => []
  | first :: _ => first.data.read buffer.firstSkip (buffer.filled first - buffer.firstSkip)

/-- The loop of `skip`, on the chunks still owned and the bytes still to skip in them. -/
def skipLoop (buffer : ChunkBuffer size) : List Chunk → ℕ → ChunkBuffer size
  | [], firstSkip => { buffer with chain := [], firstSkip := firstSkip }
  | first :: next, firstSkip =>
      let fsz := buffer.filled first
      if firstSkip < fsz then { buffer with chain := first :: next, firstSkip := firstSkip }
      else
        match next with
        | [] => { buffer with chain := [], firstSkip := firstSkip - fsz, last := none }
        | _ :: _ => skipLoop buffer next (firstSkip - fsz)

def skip (buffer : ChunkBuffer size) (sv : ℕ) : ChunkBuffer size :=
  skipLoop buffer buffer.chain (buffer.firstSkip + sv)

/-- The loop of `peek(out, sv)`; each round drops a chunk or is the last one. -/
def peekLoop : ℕ → ChunkBuffer size → ℕ → List UInt8 × ChunkBuffer size
  | 0, buffer, _ => ([], buffer)
  | fuel + 1, buffer, sv =>
      if buffer.chain ≠ [] ∧ 0 < sv then
        let fc := buffer.get1stChunk
        let cpy := min sv fc.length
        let rest := peekLoop fuel (buffer.skip cpy) (sv - cpy)
        (fc.take cpy ++ rest.1, rest.2)
      else ([], buffer)

/-- `peek(out, sv)`: the bytes written to `out`; their number is what it returns. -/
def peek (buffer : ChunkBuffer size) (sv : ℕ) : List UInt8 × ChunkBuffer size :=
  peekLoop (buffer.chain.length + 1) buffer sv

/-- The loop of `peek(out)` over the chunks still owned. -/
def peekAllLoop (buffer : ChunkBuffer size) : List Chunk → ℕ → List UInt8 × ChunkBuffer size
  | [], firstSkip => ([], { buffer with chain := [], firstSkip := firstSkip })
  | first :: next, firstSkip =>
      let fc := first.data.read firstSkip (buffer.filled first - firstSkip)
      match next with
      | [] => (fc, { buffer with chain := [], firstSkip := 0, last := none })
      | _ :: _ =>
          let rest := peekAllLoop buffer next 0
          (fc ++ rest.1, rest.2)

/-- `peek(out)`: peek all. -/
def peekAll (buffer : ChunkBuffer size) : List UInt8 × ChunkBuffer size :=
  peekAllLoop buffer buffer.chain buffer.firstSkip

def isEmpty (buffer : ChunkBuffer size) : Bool :=
  match buffer.chain with
  | [] => true
  | first :: _ => buffer.last = some first.address && buffer.lastSize = 0

/-- The loop shared by `enough` and `enough_for`: add up chunk sizes until `stop` holds. -/
def countUntil (buffer : ChunkBuffer size) (stop : ℤ → Bool) : ℤ → List Chunk → ℤ
  | csz, [] => csz
  | csz, chunk :: next =>
      let csz := csz + (buffer.filled chunk : ℤ)
      if stop csz then csz else countUntil buffer stop csz next

/-- is buffer contain at least sz bytes -/
def enough (buffer : ChunkBuffer size) (sz : ℕ) : Bool :=
  sz ≤ buffer.countUntil (fun csz => sz ≤ csz) (-(buffer.firstSkip : ℤ)) buffer.chain

/-- is sz bytes enough to fit current buffer data -/
def enoughFor (buffer : ChunkBuffer size) (sz : ℕ) : Bool :=
  buffer.countUntil (fun csz => sz < csz) (-(buffer.firstSkip : ℤ)) buffer.chain ≤ sz

/-- The bytes held: from `first_skip` in the first chunk to `last_size` in the last. -/
def content (buffer : ChunkBuffer size) : List UInt8 :=
  (buffer.chain.flatMap fun chunk => chunk.data.read 0 (buffer.filled chunk)).drop buffer.firstSkip

/-- Where `first_skip` may stand: inside the first chunk, or nowhere in an empty one. -/
def SkipFits (size firstSkip lastSize : ℕ) : List Chunk → Prop
  | [] => firstSkip = 0
  | [_] => firstSkip < lastSize ∨ (firstSkip = 0 ∧ lastSize = 0)
  | _ :: _ :: _ => firstSkip < size

/-- The states `append`, `skip` and `peek` leave the buffer in. -/
structure WellFormed (buffer : ChunkBuffer size) : Prop where
  /-- `last` designates the last chunk still in the chain. -/
  last_eq : buffer.last = buffer.chain.getLast?.map Chunk.address
  nodup : (buffer.chain.map Chunk.address).Nodup
  address_lt : ∀ chunk ∈ buffer.chain, chunk.address < buffer.fresh
  lastSize_le : buffer.lastSize ≤ size
  skipFits : SkipFits size buffer.firstSkip buffer.lastSize buffer.chain

@[simp]
theorem wellFormed_empty : ({} : ChunkBuffer size).WellFormed := by
  constructor <;> simp [SkipFits]

@[simp]
theorem content_empty : ({} : ChunkBuffer size).content = [] := by
  simp [content]

theorem content_of_nil {buffer : ChunkBuffer size} (nil : buffer.chain = []) :
    buffer.content = [] := by
  simp [content, nil]

theorem filled_last {buffer : ChunkBuffer size} {tail : Chunk}
    (last : buffer.last = some tail.address) : buffer.filled tail = buffer.lastSize := by
  simp [filled, last]

theorem filled_front {buffer : ChunkBuffer size} {front : List Chunk} {tail : Chunk}
    (last : buffer.last = some tail.address)
    (nodup : ((front ++ [tail]).map Chunk.address).Nodup) :
    ∀ chunk ∈ front, buffer.filled chunk = size := by
  intro chunk chunkMem
  have apart : tail.address ≠ chunk.address := by
    rw [List.map_append, List.nodup_append] at nodup
    exact (nodup.2.2 _ (List.mem_map_of_mem chunkMem) _ (by simp)).symm
  simp [filled, last, apart]

theorem filled_single {buffer : ChunkBuffer size} {first : Chunk}
    (last : buffer.last = [first].getLast?.map Chunk.address) :
    buffer.filled first = buffer.lastSize :=
  filled_last (by simpa using last)

theorem last_ne_first {buffer : ChunkBuffer size} {first second : Chunk} {next : List Chunk}
    (last : buffer.last = (first :: second :: next).getLast?.map Chunk.address)
    (nodup : ((first :: second :: next).map Chunk.address).Nodup) :
    buffer.last ≠ some first.address := by
  intro same
  rw [last] at same
  simp only [List.getLast?_cons_cons, Option.map_eq_some_iff] at same
  rcases same with ⟨tail, tailMem, same⟩
  simp only [List.map_cons, List.nodup_cons] at nodup
  apply nodup.1
  rw [← same, ← List.map_cons]
  exact List.mem_map_of_mem (List.mem_of_getLast? tailMem)

theorem filled_first {buffer : ChunkBuffer size} {first second : Chunk} {next : List Chunk}
    (last : buffer.last = (first :: second :: next).getLast?.map Chunk.address)
    (nodup : ((first :: second :: next).map Chunk.address).Nodup) :
    buffer.filled first = size := by
  simp [filled, last_ne_first last nodup]

/-- The bytes of the chunks of a chain, the last of which is filled up to `lastSize`. -/
theorem flatMap_filled {buffer : ChunkBuffer size} {front : List Chunk} {tail : Chunk}
    (last : buffer.last = some tail.address)
    (nodup : ((front ++ [tail]).map Chunk.address).Nodup) :
    ((front ++ [tail]).flatMap fun chunk => chunk.data.read 0 (buffer.filled chunk)) =
      (front.flatMap fun chunk => chunk.data.read 0 size) ++
        tail.data.read 0 buffer.lastSize := by
  rw [List.flatMap_append, List.flatMap_singleton, filled_last last]
  congr 1
  apply List.flatMap_congr
  intro chunk chunkMem
  rw [filled_front last nodup chunk chunkMem]

theorem copyInto_last {front : List Chunk} {tail : Chunk} (offset : ℕ) (data : List UInt8)
    (nodup : ((front ++ [tail]).map Chunk.address).Nodup) :
    copyInto tail.address offset data (front ++ [tail]) =
      front ++ [tail.copy offset data] := by
  rw [List.map_append, List.nodup_append] at nodup
  have others : ∀ chunk ∈ front, chunk.address ≠ tail.address := by
    intro chunk chunkMem
    exact nodup.2.2 _ (List.mem_map_of_mem chunkMem) _ (by simp)
  simp only [copyInto, List.map_append, List.map_cons, List.map_nil, if_true]
  congr 1
  conv => rhs; rw [← List.map_id front]
  apply List.map_congr_left
  intro chunk chunkMem
  simp [others chunk chunkMem]

theorem linkAfter_last {front : List Chunk} {tail : Chunk} (new : Chunk)
    (nodup : ((front ++ [tail]).map Chunk.address).Nodup) :
    linkAfter tail.address new (front ++ [tail]) = front ++ [tail, new] := by
  induction front with
  | nil => simp [linkAfter]
  | cons chunk front ih =>
      simp only [List.cons_append, List.map_cons, List.nodup_cons] at nodup
      have apart : chunk.address ≠ tail.address := by
        intro same
        exact nodup.1 (by simp [same])
      simp [linkAfter, apart, ih nodup.2]

namespace WellFormed

variable {buffer : ChunkBuffer size}

/-- A non-empty chain ends in the chunk that `last` designates. -/
theorem split (wellFormed : buffer.WellFormed) (nonempty : buffer.chain ≠ []) :
    ∃ front tail, buffer.chain = front ++ [tail] ∧ buffer.last = some tail.address := by
  rcases List.eq_nil_or_concat buffer.chain with nil | ⟨front, tail, chain⟩
  · exact absurd nil nonempty
  · rw [List.concat_eq_append] at chain
    exact ⟨front, tail, chain, by simp [wellFormed.last_eq, chain]⟩

/-- What is skipped is within the first chunk. -/
theorem firstSkip_le_filled (wellFormed : buffer.WellFormed) {first : Chunk} {next : List Chunk}
    (chain : buffer.chain = first :: next) : buffer.firstSkip ≤ buffer.filled first := by
  have fits := wellFormed.skipFits
  have last := wellFormed.last_eq
  have nodup := wellFormed.nodup
  rw [chain] at fits last nodup
  cases next with
  | nil =>
      rw [filled_single last]
      simp only [SkipFits] at fits
      omega
  | cons second next =>
      rw [filled_first last nodup]
      exact Nat.le_of_lt fits

theorem firstSkip_le (wellFormed : buffer.WellFormed) :
    buffer.firstSkip ≤
      (buffer.chain.flatMap fun chunk => chunk.data.read 0 (buffer.filled chunk)).length := by
  cases chain : buffer.chain with
  | nil =>
      have fits := wellFormed.skipFits
      simp_all [SkipFits]
  | cons first next =>
      have inside := wellFormed.firstSkip_le_filled chain
      rw [List.flatMap_cons, List.length_append, Memory.length_read]
      omega

end WellFormed

/-- What `append` may start from and what each of its rounds leaves. -/
theorem appendRound_spec {buffer : ChunkBuffer size} (positive : 0 < size)
    (wellFormed : buffer.WellFormed) (nonempty : buffer.chain ≠ []) (data : List UInt8) :
    (buffer.appendRound data).WellFormed ∧ (buffer.appendRound data).chain ≠ [] ∧
      (buffer.appendRound data).lastSize < size ∧
      (buffer.appendRound data).content =
        buffer.content ++ data.take (buffer.roundSize data) := by
  rcases wellFormed.split nonempty with ⟨front, tail, chain, last⟩
  have nodup := wellFormed.nodup
  have addressLt := wellFormed.address_lt
  have lastSizeLe := wellFormed.lastSize_le
  have skipLe := wellFormed.firstSkip_le
  have fits := wellFormed.skipFits
  have cpy_le : buffer.roundSize data ≤ size - buffer.lastSize := Nat.min_le_left _ _
  have taken : (data.take (buffer.roundSize data)).length = buffer.roundSize data := by
    simp [roundSize]
  rw [chain] at nodup addressLt fits
  rw [chain, flatMap_filled last nodup] at skipLe
  set filledTail := tail.copy buffer.lastSize (data.take (buffer.roundSize data)) with filledTailEq
  have sameAddress : filledTail.address = tail.address := rfl
  have filledNodup : ((front ++ [filledTail]).map Chunk.address).Nodup := by
    simpa [filledTailEq] using nodup
  -- the bytes of the chain after the round, whether or not a new chunk was opened
  have after : buffer.content ++ data.take (buffer.roundSize data) =
      ((front.flatMap fun chunk => chunk.data.read 0 size) ++
        filledTail.data.read 0 (buffer.lastSize + buffer.roundSize data)).drop
          buffer.firstSkip := by
    have appended := tail.data.read_write_append 0 buffer.lastSize
      (data.take (buffer.roundSize data))
    rw [Nat.zero_add, taken] at appended
    rw [content, chain, flatMap_filled last nodup, filledTailEq, Chunk.copy, appended,
      ← List.append_assoc, List.drop_append_of_le_length skipLe]
  have addressFilled : ∀ chunk ∈ front ++ [filledTail], chunk.address < buffer.fresh := by
    intro chunk chunkMem
    simp only [List.mem_append, List.mem_singleton] at chunkMem
    rcases chunkMem with old | rfl
    · exact addressLt chunk (by simp [old])
    · exact addressLt tail (by simp)
  by_cases full : buffer.lastSize + buffer.roundSize data = size
  · have round : buffer.appendRound data =
        { buffer with
          chain := front ++ [filledTail, buffer.newChunk]
          last := some buffer.fresh
          lastSize := 0
          fresh := buffer.fresh + 1 } := by
      have linked := linkAfter_last buffer.newChunk filledNodup
      rw [sameAddress] at linked
      simp only [appendRound, full, if_true, last, Option.getD_some, chain,
        copyInto_last _ _ nodup]
      simp only [newChunk] at linked ⊢
      rw [linked]
    have openedNodup : (((front ++ [filledTail]) ++ [buffer.newChunk]).map
        Chunk.address).Nodup := by
      rw [List.map_append, List.nodup_append]
      refine ⟨filledNodup, by simp, ?_⟩
      intro address addressMem fresh freshMem same
      rcases List.mem_map.mp addressMem with ⟨chunk, chunkMem, rfl⟩
      have below := addressFilled chunk chunkMem
      simp only [newChunk, List.map_cons, List.map_nil, List.mem_singleton] at freshMem
      omega
    rw [round]
    refine ⟨⟨by simp [newChunk], by simpa using openedNodup, ?_, by simp, ?_⟩, by simp, positive,
      ?_⟩
    · intro chunk chunkMem
      rw [List.append_cons, List.mem_append, List.mem_singleton] at chunkMem
      rcases chunkMem with old | rfl
      · exact Nat.lt_succ_of_lt (addressFilled chunk old)
      · simp [newChunk]
    · rcases front with _ | ⟨first, _ | ⟨second, front⟩⟩ <;>
        simp only [SkipFits, List.nil_append, List.cons_append] at fits ⊢ <;> omega
    · rw [after, content]
      simp only
      rw [List.append_cons, flatMap_filled (by rfl) openedNodup]
      simp [full]
  · have round : buffer.appendRound data =
        { buffer with
          chain := front ++ [filledTail]
          lastSize := buffer.lastSize + buffer.roundSize data } := by
      simp [appendRound, full, last, chain, copyInto_last _ _ nodup, filledTailEq]
    rw [round]
    refine ⟨⟨by simp [last, sameAddress], filledNodup, addressFilled, by simp only; omega, ?_⟩,
      by simp, by simp only; omega, ?_⟩
    · rcases front with _ | ⟨first, _ | ⟨second, front⟩⟩ <;>
        simp only [SkipFits, List.nil_append, List.cons_append] at fits ⊢ <;> omega
    · rw [after, content]
      simp only
      rw [flatMap_filled (by rw [sameAddress]; exact last) filledNodup]

theorem appendLoop_spec {buffer : ChunkBuffer size} (positive : 0 < size)
    (wellFormed : buffer.WellFormed) (nonempty : buffer.chain ≠ []) (fuel : ℕ) (data : List UInt8)
    (rounds : data.length + (if buffer.lastSize = size then 1 else 0) ≤ fuel) :
    (appendLoop fuel buffer data).WellFormed ∧
      (appendLoop fuel buffer data).content = buffer.content ++ data := by
  induction fuel generalizing buffer data with
  | zero =>
      have nil : data = [] := List.length_eq_zero_iff.mp (by omega)
      simpa [appendLoop, nil] using wellFormed
  | succ fuel ih =>
      by_cases some : 0 < data.length
      · rcases appendRound_spec positive wellFormed nonempty data with
          ⟨wellFormed', nonempty', room, content⟩
        have lastSizeLe := wellFormed.lastSize_le
        have rounds' : (data.drop (buffer.roundSize data)).length +
            (if (buffer.appendRound data).lastSize = size then 1 else 0) ≤ fuel := by
          rw [if_neg (by omega), List.length_drop, roundSize]
          split at rounds <;> omega
        rcases ih wellFormed' nonempty' _ rounds' with ⟨final, finalContent⟩
        simp only [appendLoop, some, if_true]
        refine ⟨final, ?_⟩
        rw [finalContent, content, List.append_assoc, List.take_append_drop]
      · have nil : data = [] := List.length_eq_zero_iff.mp (by omega)
        simpa [appendLoop, nil] using wellFormed

theorem append_spec {buffer : ChunkBuffer size} (positive : 0 < size)
    (wellFormed : buffer.WellFormed) (data : List UInt8) :
    (buffer.append data).WellFormed ∧
      (buffer.append data).content = buffer.content ++ data := by
  by_cases nil : buffer.chain = []
  · have skip := wellFormed.skipFits
    rw [nil] at skip
    simp only [SkipFits] at skip
    have opened : ({ buffer with
        chain := [buffer.newChunk]
        last := some buffer.fresh
        fresh := buffer.fresh + 1
        lastSize := 0 } : ChunkBuffer size).WellFormed := by
      constructor <;> simp [newChunk, SkipFits, skip]
    have loop := appendLoop_spec positive opened (by simp) (data.length + 1) data
      (by split <;> omega)
    simp only [append, nil, if_true]
    refine ⟨loop.1, loop.2.trans ?_⟩
    simp [content, nil, newChunk, filled]
  · simp only [append, nil, if_false]
    exact appendLoop_spec positive wellFormed nil _ data (by split <;> omega)

/-- The loop of `skip` on the end of a chain that it has not dropped yet. -/
theorem skipLoop_spec (buffer : ChunkBuffer size) (chain : List Chunk) (firstSkip : ℕ)
    (nonempty : chain ≠ [])
    (last : buffer.last = chain.getLast?.map Chunk.address)
    (nodup : (chain.map Chunk.address).Nodup)
    (addressLt : ∀ chunk ∈ chain, chunk.address < buffer.fresh)
    (lastSizeLe : buffer.lastSize ≤ size)
    (inside : firstSkip ≤
      (chain.flatMap fun chunk => chunk.data.read 0 (buffer.filled chunk)).length) :
    (skipLoop buffer chain firstSkip).WellFormed ∧
      (skipLoop buffer chain firstSkip).content =
        (chain.flatMap fun chunk => chunk.data.read 0 (buffer.filled chunk)).drop firstSkip := by
  induction chain generalizing firstSkip with
  | nil => exact absurd rfl nonempty
  | cons first next ih =>
      by_cases stop : firstSkip < buffer.filled first
      · simp only [skipLoop, stop, if_true]
        refine ⟨⟨last, nodup, addressLt, lastSizeLe, ?_⟩, rfl⟩
        cases next with
        | nil =>
            rw [filled_single last] at stop
            exact Or.inl stop
        | cons second next =>
            rw [filled_first last nodup] at stop
            exact stop
      · cases next with
        | nil =>
            simp only [List.flatMap_cons, List.flatMap_nil, List.append_nil,
              Memory.length_read] at inside ⊢
            simp only [skipLoop, stop, if_false]
            refine ⟨⟨rfl, by simp, by simp, lastSizeLe, ?_⟩, ?_⟩
            · simp only [SkipFits]
              omega
            · rw [content_of_nil rfl, List.drop_eq_nil_of_le (by simp; omega)]
        | cons second next =>
            rw [List.flatMap_cons, List.length_append, Memory.length_read] at inside
            have rest := ih (firstSkip - buffer.filled first) (by simp)
              (by simpa using last) (by simpa using (List.nodup_cons.mp nodup).2)
              (fun chunk chunkMem => addressLt chunk (List.mem_cons_of_mem _ chunkMem))
              (by omega)
            rw [List.flatMap_cons, List.drop_append, List.drop_eq_nil_of_le (by simp; omega),
              List.nil_append, Memory.length_read]
            rw [skipLoop]
            simpa only [stop, if_false] using rest

/-- `skip` drops bytes from the front; it needs at least one chunk to run on. -/
theorem skip_spec {buffer : ChunkBuffer size} (wellFormed : buffer.WellFormed)
    (nonempty : buffer.chain ≠ []) {sv : ℕ} (inside : sv ≤ buffer.content.length) :
    (buffer.skip sv).WellFormed ∧ (buffer.skip sv).content = buffer.content.drop sv := by
  have skipLe := wellFormed.firstSkip_le
  have loop := skipLoop_spec buffer buffer.chain (buffer.firstSkip + sv) nonempty
    wellFormed.last_eq wellFormed.nodup wellFormed.address_lt wellFormed.lastSize_le
    (by rw [content, List.length_drop] at inside; omega)
  refine ⟨loop.1, loop.2.trans ?_⟩
  rw [content, List.drop_drop]

/-- The first chunk holds the front of the content, and something of it unless there is none. -/
theorem get1stChunk_spec {buffer : ChunkBuffer size} (wellFormed : buffer.WellFormed) :
    buffer.get1stChunk <+: buffer.content ∧
      (buffer.get1stChunk = [] → buffer.content = []) := by
  have fits := wellFormed.skipFits
  have last := wellFormed.last_eq
  have nodup := wellFormed.nodup
  cases chain : buffer.chain with
  | nil => simp [get1stChunk, content, chain]
  | cons first next =>
      rw [chain] at fits last nodup
      have front : buffer.content = buffer.get1stChunk ++
          next.flatMap fun chunk => chunk.data.read 0 (buffer.filled chunk) := by
        have skipLe := wellFormed.firstSkip_le_filled chain
        rw [content, chain, List.flatMap_cons,
          List.drop_append_of_le_length (by simpa using skipLe), Memory.drop_read, Nat.zero_add,
          get1stChunk, chain]
      refine ⟨⟨_, front.symm⟩, ?_⟩
      intro nil
      rw [front, nil]
      have full : buffer.filled first ≤ buffer.firstSkip := by
        have length := congrArg List.length nil
        simp only [get1stChunk, chain, Memory.length_read, List.length_nil] at length
        omega
      cases next with
      | nil => simp
      | cons second next =>
          rw [filled_first last nodup] at full
          exact absurd fits (by simp only [SkipFits]; omega)

theorem length_chain_skipLoop_le (buffer : ChunkBuffer size) (chain : List Chunk)
    (firstSkip : ℕ) : (skipLoop buffer chain firstSkip).chain.length ≤ chain.length := by
  induction chain generalizing firstSkip with
  | nil => simp [skipLoop]
  | cons first next ih =>
      by_cases stop : firstSkip < buffer.filled first
      · simp [skipLoop, stop]
      · cases next with
        | nil => simp [skipLoop, stop]
        | cons second next =>
            rw [skipLoop]
            simp only [stop, if_false]
            exact Nat.le_trans (ih _) (Nat.le_succ _)

/-- Skipping the whole first chunk drops it from the chain. -/
theorem length_chain_skip_lt {buffer : ChunkBuffer size} (nonempty : buffer.chain ≠ []) {sv : ℕ}
    (whole : buffer.get1stChunk.length ≤ sv) :
    (buffer.skip sv).chain.length < buffer.chain.length := by
  cases chain : buffer.chain with
  | nil => exact absurd chain nonempty
  | cons first next =>
      have past : ¬buffer.firstSkip + sv < buffer.filled first := by
        simp only [get1stChunk, chain, Memory.length_read] at whole
        omega
      rw [skip, chain]
      cases next with
      | nil => simp [skipLoop, past]
      | cons second next =>
          rw [skipLoop]
          simp only [past, if_false]
          exact Nat.lt_succ_of_le (length_chain_skipLoop_le buffer _ _)

theorem peekLoop_spec {buffer : ChunkBuffer size} (wellFormed : buffer.WellFormed) {fuel sv : ℕ}
    (rounds : sv = 0 ∨ buffer.chain.length ≤ fuel) :
    (peekLoop fuel buffer sv).1 = buffer.content.take sv ∧
      (peekLoop fuel buffer sv).2.WellFormed ∧
        (peekLoop fuel buffer sv).2.content = buffer.content.drop sv := by
  induction fuel generalizing buffer sv with
  | zero =>
      rcases rounds with none | short
      · simpa [peekLoop, none] using wellFormed
      · have nil : buffer.chain = [] := List.length_eq_zero_iff.mp (by omega)
        simpa [peekLoop, content_of_nil nil] using wellFormed
  | succ fuel ih =>
      by_cases round : buffer.chain ≠ [] ∧ 0 < sv
      · rcases get1stChunk_spec wellFormed with ⟨front, -⟩
        have cpy_le : min sv buffer.get1stChunk.length ≤ buffer.content.length :=
          Nat.le_trans (Nat.min_le_right _ _) front.length_le
        rcases skip_spec wellFormed round.1 cpy_le with ⟨skipped, skippedContent⟩
        have rounds' : sv - min sv buffer.get1stChunk.length = 0 ∨
            (buffer.skip (min sv buffer.get1stChunk.length)).chain.length ≤ fuel := by
          rcases Nat.le_total sv buffer.get1stChunk.length with part | whole
          · exact Or.inl (by omega)
          · rw [Nat.min_eq_right whole]
            have shorter := length_chain_skip_lt round.1 (Nat.le_refl _)
            omega
        rcases ih skipped rounds' with ⟨output, final, finalContent⟩
        have taken : buffer.get1stChunk.take (min sv buffer.get1stChunk.length) =
            buffer.content.take (min sv buffer.get1stChunk.length) := by
          rw [List.prefix_iff_eq_take.mp front, List.take_take]
          congr 1
          simp
        simp only [peekLoop, round, if_true, ne_eq, not_false_eq_true, and_self]
        refine ⟨?_, final, ?_⟩
        · rw [output, skippedContent, taken, ← List.take_add]
          congr 1
          omega
        · rw [finalContent, skippedContent, List.drop_drop]
          congr 1
          omega
      · simp only [peekLoop, round, if_false]
        rcases Classical.not_and_iff_not_or_not.mp round with nil | none
        · have nil : buffer.chain = [] := Classical.not_not.mp nil
          simpa [content_of_nil nil] using wellFormed
        · have none : sv = 0 := by omega
          simpa [none] using wellFormed

/-- `peek(out, sv)` moves the first `sv` bytes out, or all of them. -/
theorem peek_spec {buffer : ChunkBuffer size} (wellFormed : buffer.WellFormed) (sv : ℕ) :
    (buffer.peek sv).1 = buffer.content.take sv ∧ (buffer.peek sv).2.WellFormed ∧
      (buffer.peek sv).2.content = buffer.content.drop sv :=
  peekLoop_spec wellFormed (Or.inr (Nat.le_succ _))

theorem peekAllLoop_spec {buffer : ChunkBuffer size} (chain : List Chunk) (firstSkip : ℕ)
    (lastSizeLe : buffer.lastSize ≤ size) (none : chain = [] → firstSkip = 0 ∧ buffer.last = none)
    (inside : ∀ first ∈ chain.head?, firstSkip ≤ buffer.filled first) :
    (peekAllLoop buffer chain firstSkip).1 =
        (chain.flatMap fun chunk => chunk.data.read 0 (buffer.filled chunk)).drop firstSkip ∧
      (peekAllLoop buffer chain firstSkip).2.WellFormed ∧
        (peekAllLoop buffer chain firstSkip).2.content = [] := by
  induction chain generalizing firstSkip with
  | nil =>
      rcases none rfl with ⟨skip, last⟩
      refine ⟨by simp [peekAllLoop], ?_, content_of_nil rfl⟩
      exact ⟨by simp [peekAllLoop, last], by simp [peekAllLoop], by simp [peekAllLoop],
        lastSizeLe, skip⟩
  | cons first next ih =>
      have skipLe := inside first rfl
      have front : ((first :: next).flatMap fun chunk =>
          chunk.data.read 0 (buffer.filled chunk)).drop firstSkip =
          first.data.read firstSkip (buffer.filled first - firstSkip) ++
            next.flatMap fun chunk => chunk.data.read 0 (buffer.filled chunk) := by
        rw [List.flatMap_cons, List.drop_append_of_le_length (by simpa using skipLe),
          Memory.drop_read, Nat.zero_add]
      cases next with
      | nil =>
          refine ⟨by rw [front]; simp [peekAllLoop], ?_, content_of_nil rfl⟩
          exact ⟨rfl, by simp [peekAllLoop], by simp [peekAllLoop], lastSizeLe, rfl⟩
      | cons second next =>
          rcases ih 0 (by simp) (by simp) with ⟨output, final, finalContent⟩
          rw [peekAllLoop]
          refine ⟨?_, final, finalContent⟩
          rw [front, output, List.drop_zero]

theorem peekAll_spec {buffer : ChunkBuffer size} (wellFormed : buffer.WellFormed) :
    buffer.peekAll.1 = buffer.content ∧ buffer.peekAll.2.WellFormed ∧
      buffer.peekAll.2.content = [] := by
  refine peekAllLoop_spec buffer.chain buffer.firstSkip wellFormed.lastSize_le ?_ ?_
  · intro nil
    have fits := wellFormed.skipFits
    have last := wellFormed.last_eq
    rw [nil] at fits last
    exact ⟨fits, last⟩
  · intro first firstMem
    cases chain : buffer.chain with
    | nil => simp [chain] at firstMem
    | cons head next =>
        rw [chain] at firstMem
        obtain rfl : head = first := by simpa using firstMem
        exact wellFormed.firstSkip_le_filled chain

theorem isEmpty_iff {buffer : ChunkBuffer size} (wellFormed : buffer.WellFormed) :
    buffer.isEmpty = true ↔ buffer.content = [] := by
  have fits := wellFormed.skipFits
  have last := wellFormed.last_eq
  have nodup := wellFormed.nodup
  cases chain : buffer.chain with
  | nil => simp [isEmpty, content, chain]
  | cons first next =>
      rw [chain] at fits last nodup
      cases next with
      | nil =>
          have head : buffer.last = some first.address := by simpa using last
          simp only [SkipFits] at fits
          simp only [isEmpty, chain, head, content, List.flatMap_cons, List.flatMap_nil,
            List.append_nil, filled_single last, Memory.drop_read]
          rw [← List.length_eq_zero_iff, Memory.length_read]
          simp
          omega
      | cons second next =>
          have nonempty : buffer.content ≠ [] := by
            intro nil
            have length := congrArg List.length nil
            simp only [content, chain, List.length_drop, List.flatMap_cons, List.length_append,
              Memory.length_read, filled_first last nodup, List.length_nil] at length
            simp only [SkipFits] at fits
            omega
          simp [isEmpty, chain, last_ne_first last nodup, nonempty]

theorem le_countUntil_iff (buffer : ChunkBuffer size) (sz csz : ℤ) (chain : List Chunk) :
    sz ≤ buffer.countUntil (fun count => sz ≤ count) csz chain ↔
      sz ≤ csz +
        (chain.flatMap fun chunk => chunk.data.read 0 (buffer.filled chunk)).length := by
  induction chain generalizing csz with
  | nil => simp [countUntil]
  | cons chunk next ih =>
      rw [List.flatMap_cons, List.length_append, Memory.length_read]
      by_cases reached : sz ≤ csz + (buffer.filled chunk : ℤ)
      · simp only [countUntil, reached, decide_true, if_true, true_iff]
        omega
      · simp only [countUntil, reached, decide_false, Bool.false_eq_true, if_false, ih]
        omega

/-- `enough(sz)` tells whether at least `sz` bytes are stored. -/
theorem enough_iff {buffer : ChunkBuffer size} (wellFormed : buffer.WellFormed) (sz : ℕ) :
    buffer.enough sz = true ↔ sz ≤ buffer.content.length := by
  have skipLe := wellFormed.firstSkip_le
  rw [enough, decide_eq_true_iff, le_countUntil_iff, content, List.length_drop]
  omega

theorem countUntil_le_iff (buffer : ChunkBuffer size) (sz csz : ℤ) (chain : List Chunk) :
    buffer.countUntil (fun count => sz < count) csz chain ≤ sz ↔
      csz + (chain.flatMap fun chunk => chunk.data.read 0 (buffer.filled chunk)).length ≤ sz := by
  induction chain generalizing csz with
  | nil => simp [countUntil]
  | cons chunk next ih =>
      rw [List.flatMap_cons, List.length_append, Memory.length_read]
      by_cases reached : sz < csz + (buffer.filled chunk : ℤ)
      · simp only [countUntil, reached, decide_true, if_true]
        omega
      · simp only [countUntil, reached, decide_false, Bool.false_eq_true, if_false, ih]
        omega

/-- `enough_for(sz)` tells whether the stored bytes fit into `sz`. -/
theorem enoughFor_iff {buffer : ChunkBuffer size} (wellFormed : buffer.WellFormed) (sz : ℕ) :
    buffer.enoughFor sz = true ↔ buffer.content.length ≤ sz := by
  have skipLe := wellFormed.firstSkip_le
  rw [enoughFor, decide_eq_true_iff, countUntil_le_iff, content, List.length_drop]
  omega

/-- A full chunk in front of a buffer that starts at its first byte. -/
theorem wellFormed_cons {buffer : ChunkBuffer size} (positive : 0 < size)
    (wellFormed : buffer.WellFormed) (nonempty : buffer.chain ≠ []) (skip : buffer.firstSkip = 0)
    {chunk : Chunk} (addressLt : chunk.address < buffer.fresh)
    (apart : chunk.address ∉ buffer.chain.map Chunk.address) :
    ({ buffer with chain := chunk :: buffer.chain } : ChunkBuffer size).WellFormed ∧
      ({ buffer with chain := chunk :: buffer.chain } : ChunkBuffer size).content =
        chunk.data.read 0 size ++ buffer.content := by
  rcases List.exists_cons_of_ne_nil nonempty with ⟨first, next, chain⟩
  have lastEq : buffer.last = (chunk :: buffer.chain).getLast?.map Chunk.address := by
    rw [chain, List.getLast?_cons_cons, ← chain, wellFormed.last_eq]
  have nodup : ((chunk :: buffer.chain).map Chunk.address).Nodup :=
    List.nodup_cons.mpr ⟨apart, wellFormed.nodup⟩
  have full : buffer.filled chunk = size := by
    rw [chain] at lastEq nodup
    exact filled_first lastEq nodup
  refine ⟨⟨lastEq, nodup, ?_, wellFormed.lastSize_le, ?_⟩, ?_⟩
  · exact List.forall_mem_cons.mpr ⟨addressLt, wellFormed.address_lt⟩
  · simpa [SkipFits, chain, skip] using positive
  · have front : ({ buffer with chain := chunk :: buffer.chain } :
        ChunkBuffer size).filled chunk = size := full
    simp only [content, List.flatMap_cons, front]
    simp only [skip, List.drop_zero]
    rfl

theorem length_chain_le_one {buffer : ChunkBuffer size} (wellFormed : buffer.WellFormed)
    (nil : buffer.content = []) : buffer.chain.length ≤ 1 := by
  have isEmpty := (isEmpty_iff wellFormed).mpr nil
  have last := wellFormed.last_eq
  have nodup := wellFormed.nodup
  rcases chain : buffer.chain with _ | ⟨first, _ | ⟨second, next⟩⟩
  · simp
  · simp
  · rw [chain] at last nodup
    simp [ChunkBuffer.isEmpty, chain, last_ne_first last nodup] at isEmpty

end ChunkBuffer

end Imconee.Tools
