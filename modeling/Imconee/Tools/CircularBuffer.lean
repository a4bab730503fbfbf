import Imconee.Lib.Memory

/-!
# `tools::circular_buffer`

A byte queue in an array of `size` cells. `start` is where the data begins and `stop` (the
source's `end`) where it ends; when `stop` lies in front of `start` the data runs to the
end of the array and goes on at its beginning. As in `ChunkBuffer`, `content` is what the
buffer holds.
-/

set_option autoImplicit false

namespace Imconee.Tools

open Imconee.Lib

structure CircularBuffer (size : ℕ) where
  data : Memory UInt8 := .fill 0
  start : ℕ := 0
  stop : ℕ := 0

namespace CircularBuffer

variable {size : ℕ}

def isFull (buffer : CircularBuffer size) : Bool :=
  (buffer.start = 0 && buffer.stop = size) || buffer.stop + 1 = buffer.start

def clear (buffer : CircularBuffer size) : CircularBuffer size :=
  { buffer with start := 0, stop := 0 }

def datasize (buffer : CircularBuffer size) : ℕ :=
  if buffer.start ≤ buffer.stop then buffer.stop - buffer.start
  else (size - buffer.start) + buffer.stop

def getFreeSize (buffer : CircularBuffer size) : ℕ :=
  if buffer.start ≤ buffer.stop then (size - buffer.stop) + (buffer.start - 1)
  else buffer.start - buffer.stop - 1

/-- The first run of free cells: where it begins and how long it is. -/
def get1stFree (buffer : CircularBuffer size) : ℕ × ℕ :=
  if buffer.start ≤ buffer.stop then
    if size - buffer.stop = 0 then (0, buffer.start - 1)
    else (buffer.stop, size - buffer.stop)
  else (buffer.stop, buffer.start - buffer.stop - 1)

def confirm (buffer : CircularBuffer size) (sz : ℕ) : CircularBuffer size :=
  if buffer.start ≤ buffer.stop then
    if sz ≤ size - buffer.stop then { buffer with stop := buffer.stop + sz }
    else { buffer with stop := sz - (size - buffer.stop) }
  else { buffer with stop := buffer.stop + sz }

/-- What the kernel does to the run that `get_1st_free` hands it. -/
def writeFree (buffer : CircularBuffer size) (bytes : List UInt8) : CircularBuffer size :=
  { buffer with data := buffer.data.write buffer.get1stFree.1 bytes }

/-- `peek(output, outsize)`: the bytes written to `output`; their number is what it returns. -/
def peek (buffer : CircularBuffer size) (outsize : ℕ) : List UInt8 × CircularBuffer size :=
  if buffer.start ≤ buffer.stop then
    let blocksize := buffer.stop - buffer.start
    let sz := if outsize ≤ blocksize then outsize else blocksize
    let rest := { buffer with start := buffer.start + sz }
    (buffer.data.read buffer.start sz, if rest.start = rest.stop then rest.clear else rest)
  else
    let sz1 := size - buffer.start
    let sz2 := buffer.stop
    if outsize ≤ sz1 then
      (buffer.data.read buffer.start outsize,
        { buffer with start :=
            if buffer.start + outsize = size then 0 else buffer.start + outsize })
    else if outsize - sz1 < sz2 then
      (buffer.data.read buffer.start sz1 ++ buffer.data.read 0 (outsize - sz1),
        { buffer with start := outsize - sz1 })
    else
      (buffer.data.read buffer.start sz1 ++ buffer.data.read 0 sz2, { buffer with start := sz2 })

/-- The bytes held. -/
def content (buffer : CircularBuffer size) : List UInt8 :=
  if buffer.start ≤ buffer.stop then
    buffer.data.read buffer.start (buffer.stop - buffer.start)
  else
    buffer.data.read buffer.start (size - buffer.start) ++ buffer.data.read 0 buffer.stop

/-- The states the operations leave the buffer in. -/
structure WellFormed (buffer : CircularBuffer size) : Prop where
  start_lt : buffer.start < size
  stop_le : buffer.stop ≤ size

theorem wellFormed_empty (positive : 0 < size) : ({} : CircularBuffer size).WellFormed :=
  ⟨positive, Nat.zero_le _⟩

@[simp]
theorem content_empty : ({} : CircularBuffer size).content = [] := rfl

theorem wellFormed_clear {buffer : CircularBuffer size} (positive : 0 < size) :
    buffer.clear.WellFormed :=
  ⟨positive, Nat.zero_le _⟩

@[simp]
theorem content_clear (buffer : CircularBuffer size) : buffer.clear.content = [] := rfl

@[simp]
theorem datasize_eq (buffer : CircularBuffer size) : buffer.datasize = buffer.content.length := by
  by_cases wrapped : buffer.start ≤ buffer.stop <;> simp [datasize, content, wrapped]

theorem length_content_le {buffer : CircularBuffer size} (wellFormed : buffer.WellFormed) :
    buffer.content.length ≤ size := by
  have start_lt := wellFormed.start_lt
  have stop_le := wellFormed.stop_le
  rw [← datasize_eq, datasize]
  split <;> omega

/-- Where there is room, the first free run is not empty. -/
theorem get1stFree_pos {buffer : CircularBuffer size} (wellFormed : buffer.WellFormed)
    (room : 0 < buffer.getFreeSize) : 0 < buffer.get1stFree.2 := by
  have stop_le := wellFormed.stop_le
  simp only [getFreeSize] at room
  simp only [get1stFree]
  split
  · rename_i flat
    simp only [flat, if_true] at room
    split
    · simp only
      omega
    · simp only
      omega
  · rename_i wrapped
    simp only [wrapped, if_false] at room
    exact room

/-- Bytes received into the first free run and confirmed go behind the content. -/
theorem confirm_writeFree {buffer : CircularBuffer size} (wellFormed : buffer.WellFormed)
    {bytes : List UInt8} (fits : bytes.length ≤ buffer.get1stFree.2) :
    ((buffer.writeFree bytes).confirm bytes.length).WellFormed ∧
      ((buffer.writeFree bytes).confirm bytes.length).content = buffer.content ++ bytes := by
  have start_lt := wellFormed.start_lt
  have stop_le := wellFormed.stop_le
  by_cases flat : buffer.start ≤ buffer.stop
  · by_cases atEnd : size - buffer.stop = 0
    · have stop : buffer.stop = size := by omega
      simp only [get1stFree, flat, atEnd, if_true] at fits
      cases bytes with
      | nil =>
          have written : buffer.data.write 0 [] = buffer.data := by
            funext index
            simp [Memory.write]
          simpa [writeFree, confirm, get1stFree, flat, atEnd, written] using wellFormed
      | cons byte bytes =>
          simp only [List.length_cons] at fits
          have wrapped : ¬buffer.start ≤ bytes.length + 1 := by omega
          have round : (buffer.writeFree (byte :: bytes)).confirm (bytes.length + 1) =
              { buffer with
                data := buffer.data.write 0 (byte :: bytes)
                stop := bytes.length + 1 } := by
            simp [writeFree, confirm, get1stFree, flat, atEnd]
          rw [List.length_cons, round]
          refine ⟨⟨start_lt, by simp only; omega⟩, ?_⟩
          have front := buffer.data.read_write_of_disjoint 0 buffer.start (size - buffer.start)
            (byte :: bytes) (Or.inr (by simp only [List.length_cons]; omega))
          have back := buffer.data.read_write 0 (byte :: bytes)
          rw [List.length_cons] at back
          simp only [content, wrapped, if_false, front, back]
          rw [if_pos flat, stop]
    · simp only [get1stFree, flat, atEnd, if_true, if_false] at fits
      have grown : buffer.start ≤ buffer.stop + bytes.length := by omega
      have round : (buffer.writeFree bytes).confirm bytes.length =
          { buffer with
            data := buffer.data.write buffer.stop bytes
            stop := buffer.stop + bytes.length } := by
        simp [writeFree, confirm, get1stFree, flat, atEnd, fits]
      rw [round]
      refine ⟨⟨start_lt, by simp only; omega⟩, ?_⟩
      have appended := buffer.data.read_write_append buffer.start (buffer.stop - buffer.start) bytes
      rw [show buffer.start + (buffer.stop - buffer.start) = buffer.stop by omega,
        show buffer.stop - buffer.start + bytes.length =
          buffer.stop + bytes.length - buffer.start by omega] at appended
      simp only [content, grown, flat, if_true, appended]
  · simp only [get1stFree, flat, if_false] at fits
    have wrapped : ¬buffer.start ≤ buffer.stop + bytes.length := by omega
    have round : (buffer.writeFree bytes).confirm bytes.length =
        { buffer with
          data := buffer.data.write buffer.stop bytes
          stop := buffer.stop + bytes.length } := by
      simp [writeFree, confirm, get1stFree, flat]
    rw [round]
    refine ⟨⟨start_lt, by simp only; omega⟩, ?_⟩
    have front := buffer.data.read_write_of_disjoint buffer.stop buffer.start
      (size - buffer.start) bytes (Or.inr (by omega))
    have appended := buffer.data.read_write_append 0 buffer.stop bytes
    rw [Nat.zero_add] at appended
    simp only [content, wrapped, flat, if_false, front, appended, List.append_assoc]

/-- `peek(output, outsize)` moves the first `outsize` bytes out, or all of them. -/
theorem peek_spec {buffer : CircularBuffer size} (wellFormed : buffer.WellFormed) (outsize : ℕ) :
    (buffer.peek outsize).1 = buffer.content.take outsize ∧
      (buffer.peek outsize).2.WellFormed ∧
      (buffer.peek outsize).2.content = buffer.content.drop outsize := by
  have start_lt := wellFormed.start_lt
  have stop_le := wellFormed.stop_le
  by_cases flat : buffer.start ≤ buffer.stop
  · have taken : (if outsize ≤ buffer.stop - buffer.start then outsize
        else buffer.stop - buffer.start) = min outsize (buffer.stop - buffer.start) := rfl
    simp only [peek, content, flat, if_true, taken, Memory.take_read, Memory.drop_read]
    by_cases drained : buffer.start + min outsize (buffer.stop - buffer.start) = buffer.stop
    · simp only [drained, if_true]
      refine ⟨trivial, wellFormed_clear (by omega), ?_⟩
      rw [show buffer.stop - buffer.start - outsize = 0 by omega]
      rfl
    · have smaller : min outsize (buffer.stop - buffer.start) = outsize := by omega
      have flat' : buffer.start + outsize ≤ buffer.stop := by omega
      rw [smaller] at drained
      simp only [smaller, drained, if_false]
      refine ⟨trivial, ⟨by simp only; omega, stop_le⟩, ?_⟩
      simp only [flat', if_true, Nat.sub_sub]
  · by_cases first : outsize ≤ size - buffer.start
    · simp only [peek, content, flat, first, if_true, if_false]
      rw [List.take_append_of_le_length (by simpa using first),
        List.drop_append_of_le_length (by simpa using first), Memory.take_read, Memory.drop_read,
        Nat.min_eq_left first]
      by_cases round : buffer.start + outsize = size
      · refine ⟨rfl, ⟨by simp only [round, if_true]; omega, stop_le⟩, ?_⟩
        simp [round, show size - buffer.start - outsize = 0 by omega]
      · have wrapped : ¬buffer.start + outsize ≤ buffer.stop := by omega
        refine ⟨rfl, ⟨by simp only [round, if_false]; omega, stop_le⟩, ?_⟩
        simp only [round, if_false, wrapped, Nat.sub_sub]
    · have whole : (buffer.data.read buffer.start (size - buffer.start)).length ≤ outsize := by
        rw [Memory.length_read]
        omega
      simp only [content, flat, if_false]
      rw [List.take_append, List.drop_append, List.take_of_length_le whole,
        List.drop_of_length_le whole, Memory.length_read, Memory.take_read, Memory.drop_read,
        List.nil_append, Nat.zero_add]
      by_cases second : outsize - (size - buffer.start) < buffer.stop
      · have flat' : outsize - (size - buffer.start) ≤ buffer.stop := by omega
        simp only [peek, flat, first, second, if_true, if_false]
        refine ⟨?_, ⟨by simp only; omega, stop_le⟩, ?_⟩
        · rw [Nat.min_eq_left flat']
        · simp only [flat', if_true]
      · simp only [peek, flat, first, second, if_false]
        refine ⟨?_, ⟨by simp only; omega, stop_le⟩, ?_⟩
        · rw [Nat.min_eq_right (by omega)]
        · rw [show buffer.stop - (outsize - (size - buffer.start)) = 0 by omega]
          simp

theorem peek_all {buffer : CircularBuffer size} (wellFormed : buffer.WellFormed) {outsize : ℕ}
    (large : buffer.content.length ≤ outsize) :
    (buffer.peek outsize).1 = buffer.content ∧ (buffer.peek outsize).2.content = [] := by
  rcases peek_spec wellFormed outsize with ⟨output, -, rest⟩
  rw [output, rest, List.take_of_length_le large, List.drop_of_length_le large]
  exact ⟨rfl, rfl⟩

end CircularBuffer

end Imconee.Tools
