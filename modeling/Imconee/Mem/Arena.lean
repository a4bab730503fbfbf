import Imconee.Lib.LittleEndian
import Imconee.Lib.Memory
import Imconee.Tools.Spinlock

/-!
# `ma::arena`

A buffer of cells of one size. The cells that are not in use form a list: `ff` says which is the
first one, and the first bytes of each say which is the next one. A bit of `ff` is a lock. An
arena that is exhausted leaves the request to its fallback.
-/

set_option autoImplicit false

namespace Imconee.Mem

open Lib

/-- `long3264` and `size_t`, and what a pointer is. -/
abbrev Word := BitVec 64

/-- `*(int *)p` -/
def loadInt (memory : Memory UInt8) (p : Word) : BitVec 32 :=
  BitVec.ofNat 32 (LittleEndian.decode (memory.read p.toNat 4))

/-- `*(int *)p = value` -/
def storeInt (memory : Memory UInt8) (p : Word) (value : BitVec 32) : Memory UInt8 :=
  memory.write p.toNat (LittleEndian.encode 4 value.toNat)

/-- `spinlock::atomic_replace`: the word after it, and whether it has been replaced. -/
def atomicReplace (lock expectedValue newValue : Word) : Word × Bool :=
  let val := Tools.Spinlock.compareExchange lock newValue expectedValue
  (val.1, decide (expectedValue = val.2))

/-- `arena<elsz, arsz, fallback>`, and where its buffer is. -/
structure Arena where
  elsz : ℕ
  arsz : ℕ
  buf : Word
  roomy : 4 ≤ elsz -- `static_assert(elsz >= sizeof(int))`
  fits : buf.toNat + elsz * arsz ≤ 2 ^ 64

/-- What the threads share. The blocks that have been given out and not been taken back are not
part of the program. -/
structure Shared where
  ff : Word
  memory : Memory UInt8
  live : List Word

/-- Where a thread is. The values are those of its local variables. -/
inductive Point where
  | idle
  | alloc
  | allocFallback -- `return fallback::alloc(sz)`
  | allocRead
  | allocSwap (unlockff : Word)
  | allocNext (unlockff lockff : Word) -- lock success
  | allocUnlock (nf lockff unlockff : Word)
  | allocReturn (nf : Word)
  | free (p : Word)
  | freeRead (index : ℕ)
  | freeSwap (index : ℕ) (unlockff : Word)
  | freeStore (index : ℕ) (unlockff lockff : Word) -- lock success
  | freeUnlock (index : ℕ) (lockff : Word)
  | freeReturn (freed : Bool)
  | stopped -- `DEBUGBREAK`

def lockBit : Word := 0x80000000#64

/-- `ff & ~(0x80000000ull)` -/
def masked (ff : Word) : Word := ff &&& ~~~lockBit

namespace Arena

variable (arena : Arena)

/-- `buf + (elsz * index)` -/
def cell (index : Word) : Word := arena.buf + BitVec.ofNat 64 arena.elsz * index

/-- `(pp - buf) / elsz`. The difference becomes unsigned with `elsz`, and the index of at most
`2 ^ 62` is not negative. -/
def index (p : Word) : ℕ := (p - arena.buf).toNat / arena.elsz

/-- `here`, and the test in `free` -/
def here (p : Word) : Bool := decide (arena.index p < arena.arsz)

/-- The constructor: each cell links to the one behind it. -/
def construct (memory : Memory UInt8) : Memory UInt8 :=
  (List.range arena.arsz).foldl (fun memory i =>
    storeInt memory (arena.cell (BitVec.ofNat 64 i)) (BitVec.ofNat 32 (i + 1))) memory

/-- The next access of a thread to `ff`, or to the link of a cell. -/
def advance (shared : Shared) : Point → Shared × Point
  | .idle => (shared, .idle)
  | .alloc =>
      (shared, if (masked shared.ff).toInt < arena.arsz then .allocRead else .allocFallback)
  | .allocFallback => (shared, .idle)
  | .allocRead => (shared, .allocSwap (masked shared.ff))
  | .allocSwap unlockff =>
      let lockff := lockBit ||| unlockff
      let replaced := atomicReplace shared.ff unlockff lockff
      ({ shared with ff := replaced.1 },
        if replaced.2 then .allocNext unlockff lockff else .allocRead)
  | .allocNext unlockff lockff =>
      let nf := arena.cell unlockff
      let unlockff := (loadInt shared.memory nf).signExtend 64
      (shared, if unlockff.toInt < 0 then .stopped else .allocUnlock nf lockff unlockff)
  | .allocUnlock nf lockff unlockff =>
      let replaced := atomicReplace shared.ff lockff unlockff
      ({ shared with ff := replaced.1 }, if replaced.2 then .allocReturn nf else .stopped)
  | .allocReturn nf => ({ shared with live := nf :: shared.live }, .idle)
  | .free p =>
      (shared, if arena.here p then .freeRead (arena.index p) else .freeReturn false)
  | .freeRead index => (shared, .freeSwap index (masked shared.ff))
  | .freeSwap index unlockff =>
      let lockff := lockBit ||| unlockff
      let replaced := atomicReplace shared.ff unlockff lockff
      ({ shared with ff := replaced.1 },
        if replaced.2 then .freeStore index unlockff lockff else .freeRead index)
  | .freeStore index unlockff lockff =>
      let ef := arena.cell (BitVec.ofNat 64 index)
      ({ shared with memory := storeInt shared.memory ef (unlockff.setWidth 32) },
        .freeUnlock index lockff)
  | .freeUnlock index lockff =>
      let replaced := atomicReplace shared.ff lockff (BitVec.ofNat 64 index)
      ({ shared with ff := replaced.1 }, if replaced.2 then .freeReturn true else .stopped)
  | .freeReturn _ => (shared, .idle)
  | .stopped => (shared, .stopped)

end Arena

/-! ### Links -/

theorem loadInt_storeInt (memory : Memory UInt8) (p : Word) (value : BitVec 32) :
    loadInt (storeInt memory p value) p = value := by
  have length : (LittleEndian.encode 4 value.toNat).length = 4 := LittleEndian.length_encode 4 _
  have back := Memory.read_write memory p.toNat (LittleEndian.encode 4 value.toNat)
  rw [length] at back
  have small : value.toNat < 256 ^ 4 := value.isLt
  rw [loadInt, storeInt, back, LittleEndian.decode_encode, Nat.mod_eq_of_lt small]
  exact BitVec.ofNat_toNat 32 value

theorem loadInt_storeInt_of_disjoint (memory : Memory UInt8) {p q : Word} (value : BitVec 32)
    (disjoint : p.toNat + 4 ≤ q.toNat ∨ q.toNat + 4 ≤ p.toNat) :
    loadInt (storeInt memory p value) q = loadInt memory q := by
  rw [loadInt, storeInt, Memory.read_write_of_disjoint]
  · rfl
  · rw [LittleEndian.length_encode]
    exact disjoint.symm

theorem storeInt_of_outside (memory : Memory UInt8) {p : Word} (value : BitVec 32) {address : ℕ}
    (outside : address < p.toNat ∨ p.toNat + 4 ≤ address) :
    storeInt memory p value address = memory address := by
  apply Memory.write_of_outside
  rw [LittleEndian.length_encode]
  exact outside

/-! ### The lock bit -/

theorem atomicReplace_eq (lock expectedValue newValue : Word) :
    atomicReplace lock expectedValue newValue =
      if lock = expectedValue then (newValue, true) else (lock, false) := by
  rw [atomicReplace, Tools.Spinlock.compareExchange]
  dsimp only
  split
  · rename_i same
    rw [decide_eq_true same.symm]
  · rename_i other
    rw [decide_eq_false (Ne.symm other)]

theorem lockBit_eq : lockBit = BitVec.twoPow 64 31 := rfl

theorem masked_lockBit_or (ff : Word) : masked (lockBit ||| ff) = masked ff := by
  ext i inside
  simp [masked, Bool.and_or_distrib_right]

theorem masked_masked (ff : Word) : masked (masked ff) = masked ff := by
  rw [masked, masked, BitVec.and_assoc, BitVec.and_self]

theorem lockBit_or_ne_masked (ff ff' : Word) : lockBit ||| ff ≠ masked ff' := by
  intro same
  have bit := congrArg (fun word : Word => word.getLsbD 31) same
  simp [masked, lockBit_eq] at bit

section

variable {head : ℕ}

theorem toInt_ofNat (small : head < 2 ^ 31) : (BitVec.ofNat 64 head).toInt = head := by
  rw [BitVec.toInt_eq_toNat_of_lt] <;> rw [BitVec.toNat_ofNat] <;> omega

theorem masked_ofNat (small : head < 2 ^ 31) :
    masked (BitVec.ofNat 64 head) = BitVec.ofNat 64 head := by
  ext i inside
  by_cases bit : i = 31
  · subst bit
    have clear : (BitVec.ofNat 64 head)[31] = false := by
      rw [← BitVec.getLsbD_eq_getElem, BitVec.getLsbD_ofNat, Nat.testBit_lt_two_pow small]
      rfl
    simp [masked, clear]
  · simp [masked, lockBit_eq, bit]

theorem signExtend_ofNat (small : head < 2 ^ 31) :
    (BitVec.ofNat 32 head).signExtend 64 = BitVec.ofNat 64 head := by
  apply BitVec.eq_of_toInt_eq
  rw [BitVec.toInt_signExtend_of_le (by decide), toInt_ofNat small, BitVec.toInt_eq_toNat_of_lt] <;>
    rw [BitVec.toNat_ofNat] <;> omega

theorem setWidth_ofNat (head : ℕ) : (BitVec.ofNat 64 head).setWidth 32 = BitVec.ofNat 32 head :=
  BitVec.setWidth_ofNat_of_le (by decide) head

theorem toInt_eq_iff (small : head < 2 ^ 31) (link : BitVec 32) :
    link.toInt = head ↔ link = BitVec.ofNat 32 head := by
  have number : (BitVec.ofNat 32 head).toInt = head := by
    rw [BitVec.toInt_eq_toNat_of_lt] <;> rw [BitVec.toNat_ofNat] <;> omega
  constructor
  · intro same
    exact BitVec.eq_of_toInt_eq (same.trans number.symm)
  · rintro rfl
    exact number

end

/-! ### Cells -/

namespace Arena

variable {arena : Arena} {i j : ℕ} {memory : Memory UInt8}

theorem end_le (inside : i < arena.arsz) :
    arena.buf.toNat + arena.elsz * i + arena.elsz ≤ 2 ^ 64 := by
  have below := Nat.mul_le_mul_left arena.elsz (Nat.succ_le_of_lt inside)
  have fits := arena.fits
  rw [Nat.mul_succ] at below
  omega

theorem toNat_cell (inside : i < arena.arsz) :
    (arena.cell (BitVec.ofNat 64 i)).toNat = arena.buf.toNat + arena.elsz * i := by
  have below := end_le inside
  have roomy := arena.roomy
  rw [cell, BitVec.toNat_add, BitVec.toNat_mul, BitVec.toNat_ofNat, BitVec.toNat_ofNat,
    ← Nat.mul_mod, Nat.add_mod_mod]
  exact Nat.mod_eq_of_lt (by omega)

theorem index_cell (inside : i < arena.arsz) :
    arena.index (arena.cell (BitVec.ofNat 64 i)) = i := by
  have below := end_le inside
  have roomy := arena.roomy
  rw [index, cell, BitVec.add_comm, BitVec.add_sub_cancel, BitVec.toNat_mul, BitVec.toNat_ofNat,
    BitVec.toNat_ofNat, ← Nat.mul_mod, Nat.mod_eq_of_lt (by omega)]
  exact Nat.mul_div_cancel_left i (by omega)

theorem here_cell (inside : i < arena.arsz) :
    arena.here (arena.cell (BitVec.ofNat 64 i)) = true := by
  rw [here, index_cell inside]
  exact decide_eq_true inside

/-- A pointer is taken for a block of the arena if it points into the buffer. -/
theorem here_iff (arena : Arena) (p : Word) : arena.here p = true ↔
    arena.buf.toNat ≤ p.toNat ∧ p.toNat < arena.buf.toNat + arena.elsz * arena.arsz := by
  have fits := arena.fits
  have roomy := arena.roomy
  have buf := arena.buf.isLt
  have bound := p.isLt
  rw [here, decide_eq_true_iff, index, Nat.div_lt_iff_lt_mul (by omega), BitVec.toNat_sub,
    Nat.mul_comm arena.arsz]
  omega

theorem cell_inj (inside : i < arena.arsz) (inside' : j < arena.arsz)
    (same : arena.cell (BitVec.ofNat 64 i) = arena.cell (BitVec.ofNat 64 j)) : i = j := by
  rw [← index_cell inside, same, index_cell inside']

theorem cells_disjoint (inside : i < arena.arsz) (inside' : j < arena.arsz) (other : i ≠ j) :
    (arena.cell (BitVec.ofNat 64 i)).toNat + arena.elsz ≤ (arena.cell (BitVec.ofNat 64 j)).toNat ∨
      (arena.cell (BitVec.ofNat 64 j)).toNat + arena.elsz ≤
        (arena.cell (BitVec.ofNat 64 i)).toNat := by
  rw [toNat_cell inside, toNat_cell inside']
  rcases Nat.lt_or_gt_of_ne other with less | more
  · have below := Nat.mul_le_mul_left arena.elsz (Nat.succ_le_of_lt less)
    rw [Nat.mul_succ] at below
    omega
  · have below := Nat.mul_le_mul_left arena.elsz (Nat.succ_le_of_lt more)
    rw [Nat.mul_succ] at below
    omega

/-- The cell at `i` names `j` as the one behind it. -/
def Links (arena : Arena) (memory : Memory UInt8) (i j : ℕ) : Prop :=
  (loadInt memory (arena.cell (BitVec.ofNat 64 i))).toInt = j

theorem Links.loaded (links : arena.Links memory i j) (small : j < 2 ^ 31) :
    (loadInt memory (arena.cell (BitVec.ofNat 64 i))).signExtend 64 = BitVec.ofNat 64 j := by
  rw [(toInt_eq_iff small _).mp links, signExtend_ofNat small]

theorem links_stored (memory : Memory UInt8) (i : ℕ) (small : j < 2 ^ 31) :
    arena.Links (storeInt memory (arena.cell (BitVec.ofNat 64 i)) (BitVec.ofNat 32 j)) i j := by
  rw [Links, loadInt_storeInt]
  exact (toInt_eq_iff small _).mpr rfl

theorem Links.kept {k : ℕ} (links : arena.Links memory i j) (inside : i < arena.arsz)
    (inside' : k < arena.arsz) (other : i ≠ k) (value : BitVec 32) :
    arena.Links (storeInt memory (arena.cell (BitVec.ofNat 64 k)) value) i j := by
  have apart := cells_disjoint inside' inside (Ne.symm other)
  have roomy := arena.roomy
  rw [Links, loadInt_storeInt_of_disjoint memory value (by omega)]
  exact links

/-- The bytes of a cell are the same. -/
def Same (arena : Arena) (memory memory' : Memory UInt8) (i : ℕ) : Prop :=
  ∀ byte < arena.elsz, memory' ((arena.cell (BitVec.ofNat 64 i)).toNat + byte) =
    memory ((arena.cell (BitVec.ofNat 64 i)).toNat + byte)

theorem Links.same {memory' : Memory UInt8} (links : arena.Links memory i j)
    (same : arena.Same memory memory' i) : arena.Links memory' i j := by
  have equal : memory'.read (arena.cell (BitVec.ofNat 64 i)).toNat 4 =
      memory.read (arena.cell (BitVec.ofNat 64 i)).toNat 4 := by
    apply Memory.read_congr
    intro byte inside
    exact same byte (Nat.lt_of_lt_of_le inside arena.roomy)
  rw [Links, loadInt, equal]
  exact links

/-- At the beginning every cell links to the one behind it. -/
theorem links_construct (memory : Memory UInt8) (inside : i < arena.arsz)
    (small : arena.arsz < 2 ^ 31) : arena.Links (arena.construct memory) i (i + 1) := by
  have all : ∀ count ≤ arena.arsz, ∀ i < count, arena.Links
      ((List.range count).foldl (fun memory i =>
        storeInt memory (arena.cell (BitVec.ofNat 64 i)) (BitVec.ofNat 32 (i + 1))) memory)
      i (i + 1) := by
    intro count
    induction count with
    | zero =>
        intro _ i none
        cases none
    | succ count ih =>
        intro within i below
        rw [List.range_succ, List.foldl_append, List.foldl_cons, List.foldl_nil]
        by_cases last : i = count
        · subst last
          exact links_stored _ i (by omega)
        · exact (ih (by omega) i (by omega)).kept (by omega) (by omega) last _
  exact all arena.arsz (Nat.le_refl _) i inside

theorem construct_of_outside (memory : Memory UInt8) {address : ℕ}
    (outside : address < arena.buf.toNat ∨
      arena.buf.toNat + arena.elsz * arena.arsz ≤ address) :
    arena.construct memory address = memory address := by
  have all : ∀ count ≤ arena.arsz, (List.range count).foldl (fun memory i =>
      storeInt memory (arena.cell (BitVec.ofNat 64 i)) (BitVec.ofNat 32 (i + 1))) memory address =
        memory address := by
    intro count
    induction count with
    | zero => exact fun _ => rfl
    | succ count ih =>
        intro within
        have below := Nat.mul_le_mul_left arena.elsz within
        rw [Nat.mul_succ] at below
        have roomy := arena.roomy
        rw [List.range_succ, List.foldl_append, List.foldl_cons, List.foldl_nil,
          storeInt_of_outside, ih (by omega)]
        rw [toNat_cell within]
        omega
  exact all arena.arsz (Nat.le_refl _)

end Arena

end Imconee.Mem
