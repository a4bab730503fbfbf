import Imconee.Lib.Lockstep
import Imconee.Tools.ChunkBuffer
import Imconee.Tools.CircularBuffer

/-!
# The buffers as byte queues

Both buffers of `tools.h` hold bytes and hand them over in the order in which they came. A
buffer and a list of bytes that go through the same operations stay equal, and what the
buffer answers is what the list says.

A `circular_buffer` may also be moved from, so for these there are several buffers, each
with a list of its own.
-/

set_option autoImplicit false

namespace Imconee.Tools

open Imconee.Lib

namespace ChunkBuffer

variable {size : ℕ}

/-- The calls on a `chunk_buffer`. -/
inductive Op where
  | append (data : List UInt8)
  | skip (sv : ℕ)
  | peek (sv : ℕ)
  | peekAll
  | get1stChunk
  deriving DecidableEq

def step (buffer : ChunkBuffer size) : Op → ChunkBuffer size
  | .append data => buffer.append data
  | .skip sv => buffer.skip sv
  | .peek sv => (buffer.peek sv).2
  | .peekAll => buffer.peekAll.2
  | .get1stChunk => buffer

/-- `skip` needs a chunk, and so many bytes; the other calls are always allowed. -/
def Allows (buffer : ChunkBuffer size) : Op → Prop
  | .skip sv => buffer.chain ≠ [] ∧ sv ≤ buffer.content.length
  | _ => True

/-- What the calls do to a queue of bytes. -/
def Op.refer (queue : List UInt8) : Op → List UInt8
  | .append data => queue ++ data
  | .skip sv => queue.drop sv
  | .peek sv => queue.drop sv
  | .peekAll => []
  | .get1stChunk => queue

/-- A buffer that holds what a queue holds. -/
structure Represents (buffer : ChunkBuffer size) (queue : List UInt8) : Prop where
  wellFormed : buffer.WellFormed
  content : buffer.content = queue

theorem Represents.step (positive : 0 < size) {buffer : ChunkBuffer size} {queue : List UInt8}
    {op : Op} (represents : buffer.Represents queue) (allowed : buffer.Allows op) :
    (buffer.step op).Represents (op.refer queue) := by
  rcases represents with ⟨wellFormed, rfl⟩
  cases op with
  | append data =>
      rcases append_spec positive wellFormed data with ⟨appended, content⟩
      exact ⟨appended, content⟩
  | skip sv =>
      rcases skip_spec wellFormed allowed.1 allowed.2 with ⟨skipped, content⟩
      exact ⟨skipped, content⟩
  | peek sv =>
      rcases peek_spec wellFormed sv with ⟨-, peeked, content⟩
      exact ⟨peeked, content⟩
  | peekAll =>
      rcases peekAll_spec wellFormed with ⟨-, peeked, content⟩
      exact ⟨peeked, content⟩
  | get1stChunk => exact ⟨wellFormed, rfl⟩

/-- A new buffer and an empty queue after the same calls. -/
def Run : ChunkBuffer size → List UInt8 → Prop :=
  Lockstep Allows step Op.refer {} []

theorem Represents.run (positive : 0 < size) {buffer : ChunkBuffer size} {queue : List UInt8}
    (run : Run buffer queue) : buffer.Represents queue := by
  apply Lockstep.related _ _ run
  · exact ⟨wellFormed_empty, content_empty⟩
  · intro buffer queue op represents allowed
    exact represents.step positive allowed

end ChunkBuffer

/-- `chunk_buffer` is a queue of bytes: after any calls it holds what the queue holds, and
what it hands over and says of itself is what the queue says. -/
theorem chunkBuffer_of_run {size : ℕ} (positive : 0 < size) {buffer : ChunkBuffer size}
    {queue : List UInt8} (run : ChunkBuffer.Run buffer queue) :
    buffer.content = queue ∧
      (∀ sv, (buffer.peek sv).1 = queue.take sv) ∧ buffer.peekAll.1 = queue ∧
      buffer.get1stChunk <+: queue ∧ (queue ≠ [] → buffer.get1stChunk ≠ []) ∧
      (buffer.isEmpty = true ↔ queue = []) ∧
      (∀ sz, buffer.enough sz = true ↔ sz ≤ queue.length) ∧
      ∀ sz, buffer.enoughFor sz = true ↔ queue.length ≤ sz := by
  rcases ChunkBuffer.Represents.run positive run with ⟨wellFormed, rfl⟩
  rcases ChunkBuffer.get1stChunk_spec wellFormed with ⟨front, nonempty⟩
  refine ⟨rfl, ?_, ?_, front, ?_, ChunkBuffer.isEmpty_iff wellFormed,
    ChunkBuffer.enough_iff wellFormed, ChunkBuffer.enoughFor_iff wellFormed⟩
  · intro sv
    exact (ChunkBuffer.peek_spec wellFormed sv).1
  · exact (ChunkBuffer.peekAll_spec wellFormed).1
  · intro some nothing
    exact some (nonempty nothing)

theorem chunkBuffer_of_run_two :
    (((({} : ChunkBuffer 2).step (.append [1, 2, 3])).step (.skip 1)).peek 5).1 = [2, 3] := by
  have appended : ChunkBuffer.Run (({} : ChunkBuffer 2).step (.append [1, 2, 3])) [1, 2, 3] :=
    Lockstep.step Lockstep.start (ChunkBuffer.Op.append [1, 2, 3]) trivial
  have skipped : ChunkBuffer.Run
      ((({} : ChunkBuffer 2).step (.append [1, 2, 3])).step (.skip 1)) [2, 3] :=
    Lockstep.step appended (ChunkBuffer.Op.skip 1) ⟨by decide, by decide⟩
  exact (chunkBuffer_of_run (by decide) skipped).2.1 5

namespace CircularBuffer

variable {size : ℕ}

/-- `operator=(circular_buffer&& x)`: the buffer assigned to, and `x`. -/
def moveAssign (buffer x : CircularBuffer size) : CircularBuffer size × CircularBuffer size :=
  let peeked := x.peek size
  ({ data := buffer.data.write 0 peeked.1, start := 0, stop := peeked.1.length }, peeked.2)

/-- The runs of cells from which `peek` copies: where each begins and how long it is. -/
def peekRuns (buffer : CircularBuffer size) (outsize : ℕ) : List (ℕ × ℕ) :=
  if buffer.start ≤ buffer.stop then [(buffer.start, min outsize (buffer.stop - buffer.start))]
  else if outsize ≤ size - buffer.start then [(buffer.start, outsize)]
  else [(buffer.start, size - buffer.start),
    (0, min (outsize - (size - buffer.start)) buffer.stop)]

/-- `peek` copies these runs and stays inside the array. -/
theorem peekRuns_spec {buffer : CircularBuffer size} (wellFormed : buffer.WellFormed)
    (outsize : ℕ) :
    (buffer.peek outsize).1 =
        (buffer.peekRuns outsize).flatMap (fun run => buffer.data.read run.1 run.2) ∧
      ∀ run ∈ buffer.peekRuns outsize, run.1 + run.2 ≤ size := by
  have start_lt := wellFormed.start_lt
  have stop_le := wellFormed.stop_le
  by_cases flat : buffer.start ≤ buffer.stop
  · have taken : (if outsize ≤ buffer.stop - buffer.start then outsize
        else buffer.stop - buffer.start) = min outsize (buffer.stop - buffer.start) := rfl
    constructor
    · simp [peek, peekRuns, flat, taken]
    · simp only [peekRuns, flat, if_true, List.forall_mem_singleton]
      omega
  · by_cases first : outsize ≤ size - buffer.start
    · constructor
      · simp [peek, peekRuns, flat, first]
      · simp only [peekRuns, flat, first, if_true, if_false, List.forall_mem_singleton]
        omega
    · constructor
      · by_cases second : outsize - (size - buffer.start) < buffer.stop
        · simp [peek, peekRuns, flat, first, second, Nat.min_eq_left (Nat.le_of_lt second)]
        · simp [peek, peekRuns, flat, first, second, Nat.min_eq_right (Nat.le_of_not_lt second)]
      · simp only [peekRuns, flat, first, if_false]
        intro run member
        rcases List.mem_pair.mp member with rfl | rfl
        · dsimp only
          omega
        · dsimp only
          omega

theorem get1stFree_le {buffer : CircularBuffer size} (wellFormed : buffer.WellFormed) :
    buffer.get1stFree.1 + buffer.get1stFree.2 ≤ size := by
  have start_lt := wellFormed.start_lt
  have stop_le := wellFormed.stop_le
  rw [get1stFree]
  split
  · split
    · dsimp only
      omega
    · dsimp only
      omega
  · dsimp only
    omega

theorem datasize_add_getFreeSize {buffer : CircularBuffer size} (wellFormed : buffer.WellFormed) :
    buffer.datasize + buffer.getFreeSize = if buffer.start = 0 then size else size - 1 := by
  have start_lt := wellFormed.start_lt
  have stop_le := wellFormed.stop_le
  rw [datasize, getFreeSize]
  split
  · split <;> omega
  · split <;> omega

theorem moveAssign_spec {x : CircularBuffer size} (wellFormed : x.WellFormed)
    (buffer : CircularBuffer size) :
    (buffer.moveAssign x).1.WellFormed ∧ (buffer.moveAssign x).1.content = x.content ∧
      (buffer.moveAssign x).2.WellFormed ∧ (buffer.moveAssign x).2.content = [] := by
  have inside := length_content_le wellFormed
  rcases peek_spec wellFormed size with ⟨-, peeked, -⟩
  rcases peek_all wellFormed inside with ⟨output, nothing⟩
  refine ⟨⟨?_, ?_⟩, ?_, peeked, nothing⟩
  · exact Nat.lt_of_le_of_lt (Nat.zero_le _) wellFormed.start_lt
  · simpa [moveAssign, output] using inside
  · simp [moveAssign, content, output, Memory.read_write]

/-- The calls on circular buffers that have names. -/
inductive Op (ι : Type) where
  | fill (i : ι) (bytes : List UInt8)
  | peek (i : ι) (outsize : ℕ)
  | clear (i : ι)
  | moveAssign (i x : ι)
  deriving DecidableEq

/-- What is written goes into the free run, and a buffer is moved from another one. -/
def Allows {ι : Type} (buffers : ι → CircularBuffer size) : Op ι → Prop
  | .fill i bytes => bytes.length ≤ (buffers i).get1stFree.2
  | .moveAssign i x => i ≠ x
  | _ => True

variable {ι : Type} [DecidableEq ι]

instance decidableAllows (buffers : ι → CircularBuffer size) :
    (op : Op ι) → Decidable (Allows buffers op)
  | .fill i bytes => Nat.decLe bytes.length (buffers i).get1stFree.2
  | .peek _ _ => .isTrue trivial
  | .clear _ => .isTrue trivial
  | .moveAssign _ _ => instDecidableNot

def step (buffers : ι → CircularBuffer size) : Op ι → ι → CircularBuffer size
  | .fill i bytes =>
      Function.update buffers i (((buffers i).writeFree bytes).confirm bytes.length)
  | .peek i outsize => Function.update buffers i ((buffers i).peek outsize).2
  | .clear i => Function.update buffers i (buffers i).clear
  | .moveAssign i x =>
      let moved := (buffers i).moveAssign (buffers x)
      Function.update (Function.update buffers i moved.1) x moved.2

/-- What the calls do to queues of bytes. -/
def Op.refer (queues : ι → List UInt8) : Op ι → ι → List UInt8
  | .fill i bytes => Function.update queues i (queues i ++ bytes)
  | .peek i outsize => Function.update queues i ((queues i).drop outsize)
  | .clear i => Function.update queues i []
  | .moveAssign i x => Function.update (Function.update queues i (queues x)) x []

/-- A buffer that holds what a queue holds. -/
structure Represents (buffer : CircularBuffer size) (queue : List UInt8) : Prop where
  wellFormed : buffer.WellFormed
  content : buffer.content = queue

theorem Represents.update {buffers : ι → CircularBuffer size} {queues : ι → List UInt8}
    (represents : ∀ i, (buffers i).Represents (queues i)) {i : ι} {buffer : CircularBuffer size}
    {queue : List UInt8} (here : buffer.Represents queue) (j : ι) :
    (Function.update buffers i buffer j).Represents (Function.update queues i queue j) := by
  simp only [Function.update_apply]
  split
  · exact here
  · exact represents j

theorem Represents.step {buffers : ι → CircularBuffer size} {queues : ι → List UInt8}
    {op : Op ι} (represents : ∀ i, (buffers i).Represents (queues i)) (allowed : Allows buffers op)
    (j : ι) : (step buffers op j).Represents (op.refer queues j) := by
  cases op with
  | fill i bytes =>
      rcases represents i with ⟨wellFormed, content⟩
      rcases confirm_writeFree wellFormed allowed with ⟨filled, behind⟩
      apply update represents
      exact ⟨filled, by rw [behind, content]⟩
  | peek i outsize =>
      rcases represents i with ⟨wellFormed, content⟩
      rcases peek_spec wellFormed outsize with ⟨-, peeked, rest⟩
      apply update represents
      exact ⟨peeked, by rw [rest, content]⟩
  | clear i =>
      have start_lt := (represents i).wellFormed.start_lt
      apply update represents
      exact ⟨wellFormed_clear (by omega), content_clear _⟩
  | moveAssign i x =>
      rcases represents x with ⟨wellFormed, content⟩
      rcases moveAssign_spec wellFormed (buffers i) with ⟨moved, whole, left, nothing⟩
      apply update
      · intro k
        apply update represents
        exact ⟨moved, whole.trans content⟩
      · exact ⟨left, nothing⟩

/-- New buffers and empty queues after the same calls. -/
def Run : (ι → CircularBuffer size) → (ι → List UInt8) → Prop :=
  Lockstep Allows step Op.refer (fun _ => {}) (fun _ => [])

theorem Represents.run (positive : 0 < size) {buffers : ι → CircularBuffer size}
    {queues : ι → List UInt8} (run : Run buffers queues) (i : ι) :
    (buffers i).Represents (queues i) := by
  revert i
  apply Lockstep.related _ _ run
  · intro i
    exact ⟨wellFormed_empty positive, content_empty⟩
  · intro buffers queues op represents allowed
    exact Represents.step represents allowed

end CircularBuffer

/-- `circular_buffer` is a bounded queue of bytes: after any calls it holds what the queue
holds and hands that over, its sizes are right, and it stays inside its array. -/
theorem circularBuffer_of_run {size : ℕ} {ι : Type} [DecidableEq ι] (positive : 0 < size)
    {buffers : ι → CircularBuffer size} {queues : ι → List UInt8}
    (run : CircularBuffer.Run buffers queues) (i : ι) :
    ((buffers i).content = queues i ∧
      (∀ outsize, ((buffers i).peek outsize).1 = (queues i).take outsize) ∧
      (buffers i).datasize = (queues i).length) ∧
    ((buffers i).datasize + (buffers i).getFreeSize =
        (if (buffers i).start = 0 then size else size - 1) ∧
      (0 < (buffers i).getFreeSize → 0 < (buffers i).get1stFree.2)) ∧
    (buffers i).get1stFree.1 + (buffers i).get1stFree.2 ≤ size ∧
    (∀ outsize, ((buffers i).peek outsize).1 = ((buffers i).peekRuns outsize).flatMap
        (fun run => (buffers i).data.read run.1 run.2) ∧
      ∀ run ∈ (buffers i).peekRuns outsize, run.1 + run.2 ≤ size) ∧
    ((buffers i).peek size).1.length ≤ size := by
  rcases CircularBuffer.Represents.run positive run i with ⟨wellFormed, content⟩
  have peeked : ∀ outsize, ((buffers i).peek outsize).1 = (queues i).take outsize := by
    intro outsize
    rw [(CircularBuffer.peek_spec wellFormed outsize).1, content]
  refine ⟨⟨content, peeked, ?_⟩, ⟨CircularBuffer.datasize_add_getFreeSize wellFormed,
    CircularBuffer.get1stFree_pos wellFormed⟩, CircularBuffer.get1stFree_le wellFormed,
    CircularBuffer.peekRuns_spec wellFormed, ?_⟩
  · rw [CircularBuffer.datasize_eq, content]
  · rw [peeked, List.length_take]
    exact Nat.min_le_left _ _

/-- Bytes written around the end of an array of three cells, and moved. -/
def threeCells : Bool → CircularBuffer 3 :=
  CircularBuffer.step (CircularBuffer.step (CircularBuffer.step (CircularBuffer.step
    (fun _ => {}) (.fill true [1, 2, 3])) (.peek true 2)) (.fill true [4])) (.moveAssign false true)

theorem run_threeCells :
    ∃ queues, CircularBuffer.Run threeCells queues ∧ queues false = [3, 4] := by
  have empty : CircularBuffer.Run (fun _ : Bool => ({} : CircularBuffer 3)) fun _ => [] :=
    Lockstep.start
  have filled := Lockstep.step empty (.fill true [1, 2, 3]) (by decide)
  have peeked := Lockstep.step filled (.peek true 2) trivial
  have around := Lockstep.step peeked (.fill true [4]) (by decide)
  have moved := Lockstep.step around (.moveAssign false true) (by decide)
  exact ⟨_, moved, rfl⟩

theorem circularBuffer_of_run_threeCells : ((threeCells false).peek 9).1 = [3, 4] := by
  rcases run_threeCells with ⟨queues, run, held⟩
  have spec := circularBuffer_of_run (by decide) run false
  rw [spec.1.2.1, held]
  rfl

end Imconee.Tools
