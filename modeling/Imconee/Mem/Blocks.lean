import Imconee.Mem.Facade

/-!
# The blocks of the facade

Every block that is in use is a cell of the arena it has come from or a block of the heap, and
every arena counts its own blocks as given out and no others. Blocks do not share memory, as the
buffers and the heap do not.
-/

set_option autoImplicit false

namespace Imconee.Mem

open Lib

/-! ### Addresses -/

section

variable {l : Layout} {pool other : Pool} {p : Word} {i j : ℕ}

theorem here_iff_within : (l.arena pool).here p = true ↔ l.Within pool p.toNat :=
  Arena.here_iff (l.arena pool) p

theorem within_unique {address : ℕ} (within : l.Within pool address)
    (within' : l.Within other address) : pool = other := by
  by_contra differ
  have apart := l.disjoint pool other differ
  rw [Layout.Within] at within within'
  omega

theorem cell_bounds (inside : i < pool.arsz) :
    (l.buf pool).toNat ≤ ((l.arena pool).cell (BitVec.ofNat 64 i)).toNat ∧
      ((l.arena pool).cell (BitVec.ofNat 64 i)).toNat + pool.elsz ≤
        (l.buf pool).toNat + pool.bytes := by
  have stop := Nat.mul_le_mul_left pool.elsz (Nat.succ_le_of_lt inside)
  rw [Nat.mul_succ] at stop
  rw [Arena.toNat_cell (show i < (l.arena pool).arsz from inside)]
  show (l.buf pool).toNat ≤ (l.buf pool).toNat + pool.elsz * i ∧
    (l.buf pool).toNat + pool.elsz * i + pool.elsz ≤ (l.buf pool).toNat + pool.elsz * pool.arsz
  omega

theorem within_cell (inside : i < pool.arsz) {byte : ℕ} (below : byte < pool.elsz) :
    l.Within pool (((l.arena pool).cell (BitVec.ofNat 64 i)).toNat + byte) := by
  have bounds := @cell_bounds l pool i inside
  constructor <;> omega

theorem within_cell_start (inside : i < pool.arsz) :
    l.Within pool ((l.arena pool).cell (BitVec.ofNat 64 i)).toNat :=
  within_cell inside (Nat.lt_of_lt_of_le (Nat.zero_lt_succ 3) pool.roomy)

theorem cell_ne_null (inside : i < pool.arsz) : (l.arena pool).cell (BitVec.ofNat 64 i) ≠ 0 := by
  have present := l.present pool
  have within := @within_cell_start l pool i inside
  intro null
  rw [null] at within
  exact Nat.not_le_of_lt present within.1

/-- The arenas do not take the null pointer for theirs. -/
theorem here_null : (l.arena pool).here 0 = false := by
  rw [Bool.eq_false_iff]
  intro mine
  exact Nat.not_le_of_lt (l.present pool) (here_iff_within.mp mine).1

end

/-! ### Blocks in use -/

/-- The blocks of an arena. -/
def given (pool : Pool) (live : List Block) : List Word :=
  (live.filter fun block => block.origin = .arena pool).map Block.p

/-- The blocks of the heap. -/
def onHeap (live : List Block) : List (Word × ℕ) :=
  (live.filter fun block => block.origin = .heap).map fun block => (block.p, block.size)

section

variable {pool other : Pool} {live live' : List Block} {p : Word} {size : ℕ}

@[simp]
theorem given_arena : given pool (⟨p, size, .arena pool⟩ :: live) = p :: given pool live := by
  simp [given]

theorem given_other (differ : pool ≠ other) :
    given pool (⟨p, size, .arena other⟩ :: live) = given pool live := by
  simp [given, differ.symm]

@[simp]
theorem given_heap : given pool (⟨p, size, .heap⟩ :: live) = given pool live := by
  simp [given]

@[simp]
theorem onHeap_arena : onHeap (⟨p, size, .arena pool⟩ :: live) = onHeap live := by
  simp [onHeap]

@[simp]
theorem onHeap_heap : onHeap (⟨p, size, .heap⟩ :: live) = (p, size) :: onHeap live := by
  simp [onHeap]

theorem given_perm (same : live.Perm live') : (given pool live).Perm (given pool live') :=
  (same.filter _).map _

theorem onHeap_perm (same : live.Perm live') : (onHeap live).Perm (onHeap live') :=
  (same.filter _).map _

theorem mem_given (mem : ⟨p, size, .arena pool⟩ ∈ live) : p ∈ given pool live :=
  List.mem_map.mpr ⟨_, List.mem_filter.mpr ⟨mem, decide_eq_true rfl⟩, rfl⟩

theorem mem_onHeap (mem : ⟨p, size, .heap⟩ ∈ live) : (p, size) ∈ onHeap live :=
  List.mem_map.mpr ⟨_, List.mem_filter.mpr ⟨mem, decide_eq_true rfl⟩, rfl⟩

end

/-- What holds between the calls. -/
structure Accounted (l : Layout) (s : State) (live : List Block) : Prop where
  quiet : ∀ pool, Quiet (l.arena pool) ⟨s.ff pool, s.store.memory, given pool live⟩
  fit : ∀ p size pool, ⟨p, size, .arena pool⟩ ∈ live → size ≤ pool.elsz
  heap : s.store.blocks.Perm (onHeap live)
  proper : Proper l s.store.blocks
  nodup : live.Nodup

section

variable {l : Layout} {s s' : State} {live live' : List Block} {pool other : Pool} {p : Word}
  {size : ℕ} {memory : Memory UInt8}

theorem Accounted.perm (accounted : Accounted l s live) (same : live.Perm live') :
    Accounted l s live' where
  quiet pool := (accounted.quiet pool).perm (given_perm same)
  fit p size pool mem := accounted.fit p size pool (same.mem_iff.mpr mem)
  heap := accounted.heap.trans (onHeap_perm same)
  proper := accounted.proper
  nodup := same.nodup_iff.mp accounted.nodup

theorem Accounted.cell (accounted : Accounted l s live) (mem : ⟨p, size, .arena pool⟩ ∈ live) :
    ∃ i < pool.arsz, p = (l.arena pool).cell (BitVec.ofNat 64 i) :=
  ((accounted.quiet pool).sound pool.small).blocks p (mem_given mem)

theorem Accounted.outside (accounted : Accounted l s live) (mem : ⟨p, size, .heap⟩ ∈ live) :
    p.toNat + max size 1 ≤ (l.buf pool).toNat ∨ (l.buf pool).toNat + pool.bytes ≤ p.toNat :=
  accounted.proper.outside (p, size) (accounted.heap.mem_iff.mpr (mem_onHeap mem)) pool

/-- The address of a block says where it has come from. -/
theorem Accounted.here_iff {block : Block} (accounted : Accounted l s live)
    (mem : block ∈ live) : (l.arena pool).here block.p = true ↔ block.origin = .arena pool := by
  rw [here_iff_within]
  rcases block with ⟨p, size, other | -⟩
  · rcases accounted.cell mem with ⟨i, inside, rfl⟩
    have within := @within_cell_start l other i inside
    constructor
    · intro mine
      rw [within_unique mine within]
    · intro same
      cases same
      exact within
  · have outside := @Accounted.outside _ _ _ pool _ _ accounted mem
    constructor
    · rintro ⟨low, high⟩
      dsimp only at low high
      omega
    · nofun

/-- The bytes that a block has for itself. -/
def Block.room (block : Block) : ℕ :=
  match block.origin with
  | .arena pool => pool.elsz
  | .heap => max block.size 1

theorem Accounted.fits {block : Block} (accounted : Accounted l s live) (mem : block ∈ live) :
    block.size ≤ block.room := by
  rcases block with ⟨p, size, pool | -⟩
  · exact accounted.fit p size pool mem
  · exact Nat.le_max_left size 1

instance : Std.Symm Apart := ⟨fun _ _ => Or.symm⟩

theorem Accounted.separate {block block' : Block} (accounted : Accounted l s live)
    (mem : block ∈ live) (mem' : block' ∈ live) (differ : block ≠ block') :
    block.p.toNat + block.room ≤ block'.p.toNat ∨
      block'.p.toNat + block'.room ≤ block.p.toNat := by
  rcases block with ⟨p, size, pool | -⟩ <;> rcases block' with ⟨p', size', pool' | -⟩
  · rcases accounted.cell mem with ⟨i, inside, rfl⟩
    rcases accounted.cell mem' with ⟨j, inside', rfl⟩
    by_cases same : pool = pool'
    · subst same
      -- each cell is given out once, so that two blocks of an arena have two indices
      apply @Arena.cells_disjoint (l.arena pool) _ _ inside inside'
      rintro rfl
      have once := ((accounted.quiet pool).sound pool.small).once
      have equal := List.inj_on_of_nodup_map once
        (List.mem_filter.mpr ⟨mem, decide_eq_true rfl⟩)
        (List.mem_filter.mpr ⟨mem', decide_eq_true rfl⟩) rfl
      exact differ equal
    · have bounds := @cell_bounds l pool i inside
      have bounds' := @cell_bounds l pool' j inside'
      have apart := l.disjoint pool pool' same
      dsimp only [Block.room]
      omega
  · rcases accounted.cell mem with ⟨i, inside, rfl⟩
    have bounds := @cell_bounds l pool i inside
    have outside := @Accounted.outside _ _ _ pool _ _ accounted mem'
    dsimp only [Block.room]
    omega
  · rcases accounted.cell mem' with ⟨j, inside', rfl⟩
    have bounds' := @cell_bounds l pool' j inside'
    have outside := @Accounted.outside _ _ _ pool' _ _ accounted mem
    dsimp only [Block.room]
    omega
  · apply accounted.proper.apart.forall (accounted.heap.mem_iff.mpr (mem_onHeap mem))
      (accounted.heap.mem_iff.mpr (mem_onHeap mem'))
    rintro ⟨⟩
    exact differ rfl

/-! ### What the heap does -/

theorem quiet_spared {ff : Word} {blocks : List Word} {memory' : Memory UInt8}
    (quiet : Quiet (l.arena pool) ⟨ff, memory, blocks⟩)
    (same : ∀ address, l.Within pool address → memory' address = memory address) :
    Quiet (l.arena pool) ⟨ff, memory', blocks⟩ :=
  quiet.written fun _ inside _ _ below => same _ (within_cell inside below)

theorem Accounted.write (accounted : Accounted l s live)
    (kept : ∀ address, (∀ block ∈ live, ¬(block.p.toNat ≤ address ∧
      address < block.p.toNat + block.size)) → memory address = s.store.memory address) :
    Accounted l (s.write memory) live := by
  refine ⟨?_, accounted.fit, accounted.heap, accounted.proper, accounted.nodup⟩
  intro pool
  apply (accounted.quiet pool).written
  intro i inside fresh byte (below : byte < pool.elsz)
  apply kept
  have bounds := @cell_bounds l pool i inside
  rintro ⟨p, size, other | -⟩ mem ⟨low, high⟩
  · have fits : size ≤ other.elsz := accounted.fit p size other mem
    rcases accounted.cell mem with ⟨j, inside', rfl⟩
    dsimp only at low high
    by_cases same : pool = other
    · subst same
      have differ : i ≠ j := by
        rintro rfl
        exact fresh (mem_given mem)
      have apart := @Arena.cells_disjoint (l.arena pool) _ _ inside inside' differ
      have elsz : (l.arena pool).elsz = pool.elsz := rfl
      omega
    · have bounds' := @cell_bounds l other j inside'
      have apart := l.disjoint pool other same
      omega
  · have outside := @Accounted.outside _ _ _ pool _ _ accounted mem
    dsimp only at low high
    omega

theorem Accounted.stored {store : Store} (accounted : Accounted l s live)
    (spared : Spared l s.store.memory store.memory) (heap : store.blocks.Perm (onHeap live))
    (proper : Proper l store.blocks) : Accounted l ⟨s.ff, store⟩ live :=
  ⟨fun pool => quiet_spared (accounted.quiet pool) (spared pool), accounted.fit, heap, proper,
    accounted.nodup⟩

theorem Accounted.store_more {store : Store} (accounted : Accounted l s live)
    (spared : Spared l s.store.memory store.memory)
    (heap : store.blocks.Perm ((p, size) :: onHeap live)) (proper : Proper l store.blocks) :
    Accounted l ⟨s.ff, store⟩ (⟨p, size, .heap⟩ :: live) where
  quiet pool := by
    rw [given_heap]
    exact quiet_spared (accounted.quiet pool) (spared pool)
  fit p' size' pool mem := by
    rcases List.mem_cons.mp mem with ⟨⟨⟩⟩ | before
    exact accounted.fit p' size' pool before
  heap := by
    rw [onHeap_heap]
    exact heap
  proper := proper
  nodup := by
    apply List.nodup_cons.mpr ⟨_, accounted.nodup⟩
    intro before
    have twice := List.pairwise_cons.mp (heap.pairwise_iff Or.symm |>.mp proper.apart)
    have apart := twice.1 _ (mem_onHeap before)
    have byte : 0 < extent (p, size) := Nat.lt_of_lt_of_le Nat.zero_lt_one (Nat.le_max_right _ _)
    dsimp only [Apart] at apart
    omega

theorem Accounted.tail {block : Block} {ff : Pool → Word} {store : Store}
    (accounted : Accounted l s (block :: live))
    (quiet : ∀ pool, Quiet (l.arena pool) ⟨ff pool, store.memory, given pool live⟩)
    (heap : store.blocks.Perm (onHeap live)) (proper : Proper l store.blocks) :
    Accounted l ⟨ff, store⟩ live where
  quiet := quiet
  fit p size pool mem := accounted.fit p size pool (List.mem_cons_of_mem _ mem)
  heap := heap
  proper := proper
  nodup := accounted.nodup.of_cons

theorem Accounted.store_less {store : Store}
    (accounted : Accounted l s (⟨p, size, .heap⟩ :: live))
    (spared : Spared l s.store.memory store.memory)
    (blocks : store.blocks = s.store.blocks.erase (p, size)) :
    Accounted l ⟨s.ff, store⟩ live := by
  have rest : store.blocks.Perm (onHeap live) := by
    have shorter := accounted.heap.erase (p, size)
    rw [onHeap_heap, List.erase_cons_head] at shorter
    rw [blocks]
    exact shorter
  apply accounted.tail _ rest
  · have less : store.blocks.Sublist s.store.blocks := by
      rw [blocks]
      exact List.erase_sublist
    exact ⟨accounted.proper.apart.sublist less,
      fun block mem => accounted.proper.present block (less.subset mem),
      fun block mem => accounted.proper.fits block (less.subset mem),
      fun block mem => accounted.proper.outside block (less.subset mem)⟩
  · intro pool
    have before := accounted.quiet pool
    rw [given_heap] at before
    exact quiet_spared before (spared pool)

/-! ### What the arenas do -/

theorem quiet_after {ff : Word} (quiet : Quiet (l.arena pool) ⟨ff, memory, given pool live'⟩)
    (others : ∀ other, other ≠ pool → Quiet (l.arena other) ⟨s.ff other, memory, given other live'⟩)
    (other : Pool) : Quiet (l.arena other)
      ⟨Function.update s.ff pool ff other, memory, given other live'⟩ := by
  by_cases same : other = pool
  · subst same
    rw [Function.update_self]
    exact quiet
  · rw [Function.update_of_ne same]
    exact others other same

/-- An allocation: what is returned, unless it is null, is another block, and it is null only
where `malloc` has no memory either. -/
structure Served (l : Layout) (heap : Heap l) (s : State) (live : List Block) (size : ℕ)
    (block : Block) (s' : State) : Prop where
  sized : block.size = size
  null : block.p = 0 → (heap.malloc size s.store).1 = 0
  spared : Spared l s.store.memory s'.store.memory
  accounted : Accounted l s' (if block.p = 0 then live else block :: live)

theorem Accounted.fb0_served (accounted : Accounted l s live) (heap : Heap l) (size : ℕ) :
    ∃ block s', fb0 l heap size s = some (block, s') ∧ Served l heap s live size block s' := by
  rcases heap.malloc_spec size s.store accounted.proper with
    ⟨kept, ⟨null, blocks⟩ | ⟨some, blocks, proper⟩⟩
  · refine ⟨_, _, rfl, rfl, id, kept.1, ?_⟩
    rw [if_pos null]
    apply accounted.stored kept.1
    · rw [blocks]
      exact accounted.heap
    · rw [blocks]
      exact accounted.proper
  · refine ⟨_, _, rfl, rfl, id, kept.1, ?_⟩
    rw [if_neg some]
    apply accounted.store_more kept.1 _ proper
    rw [blocks]
    exact accounted.heap.cons _

theorem Accounted.allocIn_served {heap : Heap l} (accounted : Accounted l s live)
    (fits : size ≤ pool.elsz) {fallback : ℕ → State → Option (Block × State)}
    (falls : ∃ block s', fallback size s = some (block, s') ∧ Served l heap s live size block s') :
    ∃ block s', allocIn l pool fallback size s = some (block, s') ∧
      Served l heap s live size block s' := by
  rcases (accounted.quiet pool).alloc pool.small with empty | ⟨i, inside, ff, fresh, quiet, call⟩
  · have left : allocIn l pool fallback size s = fallback size s := by
      rw [allocIn, empty]
      dsimp only [Option.bind_eq_bind, Option.bind_some]
      rw [State.after_self]
    rw [left]
    exact falls
  · have taken : allocIn l pool fallback size s =
        some (⟨(l.arena pool).cell (BitVec.ofNat 64 i), size, .arena pool⟩,
          s.after pool ⟨ff, s.store.memory, []⟩) := by
      rw [allocIn, call]
      rfl
    refine ⟨_, _, taken, rfl, fun null => absurd null (cell_ne_null inside), fun _ _ _ => rfl, ?_⟩
    rw [if_neg (cell_ne_null inside)]
    refine ⟨?_, ?_, ?_, accounted.proper, ?_⟩
    · apply quiet_after
      · rw [given_arena]
        exact quiet
      · intro other differ
        rw [given_other differ]
        exact accounted.quiet other
    · intro p size' other mem
      rcases List.mem_cons.mp mem with ⟨⟨⟩⟩ | before
      · exact fits
      · exact accounted.fit p size' other before
    · rw [onHeap_arena]
      exact accounted.heap
    · exact List.nodup_cons.mpr ⟨fun before => fresh (mem_given before), accounted.nodup⟩

theorem Accounted.fb1_served (accounted : Accounted l s live) (heap : Heap l) (fits : size ≤ 64) :
    ∃ block s', fb1 l heap size s = some (block, s') ∧ Served l heap s live size block s' :=
  accounted.allocIn_served fits (accounted.fb0_served heap size)

theorem Accounted.fb2_served (accounted : Accounted l s live) (heap : Heap l) (fits : size ≤ 32) :
    ∃ block s', fb2 l heap size s = some (block, s') ∧ Served l heap s live size block s' :=
  accounted.allocIn_served fits (accounted.fb1_served heap (Nat.le_trans fits (by decide)))

theorem Accounted.ma_served (accounted : Accounted l s live) (heap : Heap l) (size : ℕ) :
    ∃ block s', ma l heap size s = some (block, s') ∧ Served l heap s live size block s' := by
  rw [ma]
  split
  · rename_i fits
    exact accounted.allocIn_served fits (accounted.fb2_served heap (Nat.le_trans fits (by decide)))
  · split
    · rename_i fits
      exact accounted.fb2_served heap fits
    · split
      · rename_i fits
        exact accounted.fb1_served heap fits
      · exact accounted.fb0_served heap size

theorem freeIn_foreign (foreign : (l.arena pool).here p = false) :
    freeIn l pool p s = some (false, s) := by
  rw [freeIn, Arena.call_foreign foreign]
  dsimp only [Option.bind_eq_bind, Option.bind_some]
  rw [State.after_self]

theorem Accounted.freeIn_freed (accounted : Accounted l s (⟨p, size, .arena pool⟩ :: live)) :
    ∃ s' value, freeIn l pool p s = some (true, s') ∧
      s'.store.memory = storeInt s.store.memory p value ∧ Accounted l s' live := by
  have before := accounted.quiet pool
  rw [given_arena] at before
  rcases before.free pool.small List.mem_cons_self with ⟨ff, value, quiet, call⟩
  rw [List.erase_cons_head] at quiet
  have freed : freeIn l pool p s =
      some (true, s.after pool ⟨ff, storeInt s.store.memory p value, []⟩) := by
    rw [freeIn, call]
    rfl
  refine ⟨_, value, freed, rfl, accounted.tail ?_ ?_ accounted.proper⟩
  · apply quiet_after quiet
    intro other differ
    have untouched := accounted.quiet other
    rw [given_other differ] at untouched
    apply quiet_spared untouched
    intro address within
    rcases accounted.cell List.mem_cons_self with ⟨i, inside, rfl⟩
    have bounds := @cell_bounds l pool i inside
    have apart := l.disjoint pool other differ.symm
    have roomy := pool.roomy
    apply storeInt_of_outside
    rw [Layout.Within] at within
    omega
  · have blocks := accounted.heap
    rw [onHeap_arena] at blocks
    exact blocks

end

end Imconee.Mem
