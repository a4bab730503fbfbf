import Imconee.Mem.Alone

/-!
# `ma`, `rs` and `mf`

Three arenas and the heap behind one interface. Small requests go to the arena of the next size,
from an exhausted arena to the next larger one, and in the end to the heap. Which of them a block
has come from is told by its address. The functions of the heap are not part of the program.
-/

set_option autoImplicit false

namespace Imconee.Mem

open Lib

inductive Pool where
  | arena8
  | arena32
  | arena64
  deriving DecidableEq

namespace Pool

def elsz : Pool → ℕ
  | arena8 => 8
  | arena32 => 32
  | arena64 => 64

def arsz : Pool → ℕ
  | arena8 => 1024
  | arena32 => 2048
  | arena64 => 2048

/-- The size of the buffer. -/
def bytes (pool : Pool) : ℕ := pool.elsz * pool.arsz

theorem roomy (pool : Pool) : 4 ≤ pool.elsz := by
  cases pool <;> decide

theorem small (pool : Pool) : pool.arsz < 2 ^ 31 := by
  cases pool <;> decide

end Pool

/-- Where the buffers of the arenas are. -/
structure Layout where
  buf : Pool → Word
  present : ∀ pool, 0 < (buf pool).toNat
  fits : ∀ pool, (buf pool).toNat + pool.bytes ≤ 2 ^ 64
  disjoint : ∀ pool other, pool ≠ other → (buf pool).toNat + pool.bytes ≤ (buf other).toNat ∨
    (buf other).toNat + other.bytes ≤ (buf pool).toNat

namespace Layout

variable (l : Layout)

def arena (pool : Pool) : Arena := ⟨pool.elsz, pool.arsz, l.buf pool, pool.roomy, l.fits pool⟩

/-- An address in the buffer of an arena. -/
def Within (pool : Pool) (address : ℕ) : Prop :=
  (l.buf pool).toNat ≤ address ∧ address < (l.buf pool).toNat + pool.bytes

end Layout

/-! ### The heap -/

/-- The memory, and the blocks that the heap has given and not taken back. -/
structure Store where
  memory : Memory UInt8
  blocks : List (Word × ℕ)

/-- A block is at least one byte long, also if nothing has been asked for. -/
def extent (block : Word × ℕ) : ℕ := max block.2 1

/-- Two blocks that do not overlap. -/
def Apart (block other : Word × ℕ) : Prop :=
  block.1.toNat + extent block ≤ other.1.toNat ∨ other.1.toNat + extent other ≤ block.1.toNat

/-- Blocks as a heap gives them. -/
structure Proper (l : Layout) (blocks : List (Word × ℕ)) : Prop where
  apart : blocks.Pairwise Apart
  present : ∀ block ∈ blocks, 0 < block.1.toNat
  fits : ∀ block ∈ blocks, block.1.toNat + extent block ≤ 2 ^ 64
  outside : ∀ block ∈ blocks, ∀ pool : Pool,
    block.1.toNat + extent block ≤ (l.buf pool).toNat ∨
      (l.buf pool).toNat + pool.bytes ≤ block.1.toNat

/-- The bytes of the arenas are the same. -/
def Spared (l : Layout) (memory memory' : Memory UInt8) : Prop :=
  ∀ pool address, l.Within pool address → memory' address = memory address

/-- So are those of these blocks. -/
def Kept (l : Layout) (blocks : List (Word × ℕ)) (memory memory' : Memory UInt8) : Prop :=
  Spared l memory memory' ∧ ∀ block ∈ blocks,
    memory'.read block.1.toNat block.2 = memory.read block.1.toNat block.2

/-- `malloc`, `realloc` and `free`, with what is known of them. There may be no more memory. -/
structure Heap (l : Layout) where
  malloc : ℕ → Store → Word × Store
  realloc : Word → ℕ → Store → Word × Store
  free : Word → Store → Store
  malloc_spec : ∀ size store, Proper l store.blocks →
    Kept l store.blocks store.memory (malloc size store).2.memory ∧
      ((malloc size store).1 = 0 ∧ (malloc size store).2.blocks = store.blocks ∨
        (malloc size store).1 ≠ 0 ∧
          (malloc size store).2.blocks = ((malloc size store).1, size) :: store.blocks ∧
          Proper l (malloc size store).2.blocks)
  realloc_spec : ∀ p old size store, Proper l store.blocks → (p, old) ∈ store.blocks →
    Kept l (store.blocks.erase (p, old)) store.memory (realloc p size store).2.memory ∧
      ((realloc p size store).1 = 0 ∧ size ≠ 0 ∧ (realloc p size store).2.blocks = store.blocks ∧
          Kept l store.blocks store.memory (realloc p size store).2.memory ∨
        (realloc p size store).1 = 0 ∧ size = 0 ∧
          (realloc p size store).2.blocks = store.blocks.erase (p, old) ∨
        (realloc p size store).1 ≠ 0 ∧ (realloc p size store).2.blocks =
            ((realloc p size store).1, size) :: store.blocks.erase (p, old) ∧
          Proper l (realloc p size store).2.blocks ∧
          (realloc p size store).2.memory.read (realloc p size store).1.toNat (min old size) =
            store.memory.read p.toNat (min old size))
  free_spec : ∀ p size store, Proper l store.blocks → (p, size) ∈ store.blocks →
    (free p store).blocks = store.blocks.erase (p, size) ∧
      Kept l (free p store).blocks store.memory (free p store).memory
  free_null : ∀ store, (free 0 store).blocks = store.blocks ∧
    Kept l store.blocks store.memory (free 0 store).memory

/-! ### The functions -/

/-- Where a block has come from. This is not part of the program. -/
inductive Origin where
  | arena (pool : Pool)
  | heap
  deriving DecidableEq

/-- A block, with the size that was asked for last. -/
structure Block where
  p : Word
  size : ℕ
  origin : Origin
  deriving DecidableEq

structure State where
  ff : Pool → Word
  store : Store

namespace State

/-- The state after a call of an arena. -/
def after (s : State) (pool : Pool) (shared : Shared) : State :=
  ⟨Function.update s.ff pool shared.ff, ⟨shared.memory, s.store.blocks⟩⟩

theorem after_self (s : State) (pool : Pool) (live : List Word) :
    s.after pool ⟨s.ff pool, s.store.memory, live⟩ = s := by
  rw [after, Function.update_eq_self]

def write (s : State) (memory : Memory UInt8) : State := ⟨s.ff, ⟨memory, s.store.blocks⟩⟩

end State

section

variable (l : Layout) (heap : Heap l)

/-- `malloc`, and `fb0::alloc` -/
def fb0 (size : ℕ) (s : State) : Option (Block × State) :=
  let given := heap.malloc size s.store
  some (⟨given.1, size, .heap⟩, ⟨s.ff, given.2⟩)

/-- `alloc` of an arena with its fallback -/
def allocIn (pool : Pool) (fallback : ℕ → State → Option (Block × State)) (size : ℕ) (s : State) :
    Option (Block × State) := do
  let (shared, point) ←
    (l.arena pool).call Arena.steps ⟨s.ff pool, s.store.memory, []⟩ .alloc
  match point with
  | .allocReturn nf => some (⟨nf, size, .arena pool⟩, s.after pool shared)
  | .allocFallback => fallback size (s.after pool shared)
  | _ => none

/-- `arena64.alloc`, and `fb1::alloc` -/
def fb1 : ℕ → State → Option (Block × State) := allocIn l .arena64 (fb0 l heap)

/-- `arena32.alloc`, and `fb2::alloc` -/
def fb2 : ℕ → State → Option (Block × State) := allocIn l .arena32 (fb1 l heap)

def ma (size : ℕ) (s : State) : Option (Block × State) :=
  if size ≤ 8 then allocIn l .arena8 (fb2 l heap) size s
  else if size ≤ 32 then allocIn l .arena32 (fb1 l heap) size s
  else if size ≤ 64 then allocIn l .arena64 (fb0 l heap) size s
  else fb0 l heap size s

/-- `free` of an arena -/
def freeIn (pool : Pool) (p : Word) (s : State) : Option (Bool × State) := do
  let (shared, point) ←
    (l.arena pool).call Arena.steps ⟨s.ff pool, s.store.memory, []⟩ (.free p)
  match point with
  | .freeReturn freed => some (freed, s.after pool shared)
  | _ => none

/-- `rs` of a block in an arena -/
def rsIn (pool : Pool) (p : Word) (size : ℕ) (s : State) : Option (Block × State) :=
  if size ≤ pool.elsz then some (⟨p, size, .arena pool⟩, s)
  else do
    let (np, s) ← ma l heap size s
    -- `memcpy` has no place to copy to
    if np.p = 0 then none
    else do
      let cell := s.store.memory.read p.toNat pool.elsz
      let (_, s) ← freeIn l pool p (s.write (s.store.memory.write np.p.toNat cell))
      some (np, s)

def rs (p : Word) (size : ℕ) (s : State) : Option (Block × State) :=
  if (l.arena .arena8).here p then rsIn l heap .arena8 p size s
  else if (l.arena .arena32).here p then rsIn l heap .arena32 p size s
  else if (l.arena .arena64).here p then rsIn l heap .arena64 p size s
  else
    let given := heap.realloc p size s.store
    some (⟨given.1, size, .heap⟩, ⟨s.ff, given.2⟩)

/-- `mf`, and where the block has gone -/
def mf (p : Word) (s : State) : Option (Origin × State) := do
  let (freed, s) ← freeIn l .arena8 p s
  if freed then return (.arena .arena8, s)
  let (freed, s) ← freeIn l .arena32 p s
  if freed then return (.arena .arena32, s)
  let (freed, s) ← freeIn l .arena64 p s
  if freed then return (.arena .arena64, s)
  return (.heap, ⟨s.ff, heap.free p s.store⟩)

end

/-- The constructors of the arenas. -/
def State.start (l : Layout) (memory : Memory UInt8) : State :=
  let memory := (l.arena .arena64).construct memory
  let memory := (l.arena .arena32).construct memory
  let memory := (l.arena .arena8).construct memory
  ⟨fun _ => 0, ⟨memory, []⟩⟩

end Imconee.Mem
