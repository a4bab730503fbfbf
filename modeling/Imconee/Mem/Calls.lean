import Imconee.Mem.Blocks

/-!
# Every sequence of calls

`ma`, `rs` and `mf` in any order, and writes of those who own the blocks in between.
-/

set_option autoImplicit false

namespace Imconee.Mem

open Lib Lib.FreeList

section

variable {l : Layout} {s s' : State} {live rest : List Block} {pool : Pool} {p : Word}
  {old size : ℕ} {block' : Block}

/-! ### `rs` -/

theorem Accounted.resize (accounted : Accounted l s (⟨p, old, .arena pool⟩ :: rest))
    (fits : size ≤ pool.elsz) : Accounted l s (⟨p, size, .arena pool⟩ :: rest) where
  quiet other := by
    have before := accounted.quiet other
    by_cases same : other = pool
    · subst same
      rw [given_arena] at before ⊢
      exact before
    · rw [given_other same] at before ⊢
      exact before
  fit p' size' other mem := by
    rcases List.mem_cons.mp mem with ⟨⟨⟩⟩ | before
    · exact fits
    · exact accounted.fit p' size' other (List.mem_cons_of_mem _ before)
  heap := by
    have blocks := accounted.heap
    rw [onHeap_arena] at blocks ⊢
    exact blocks
  proper := accounted.proper
  nodup := by
    apply List.nodup_cons.mpr ⟨_, accounted.nodup.of_cons⟩
    intro before
    have once := ((accounted.quiet pool).sound pool.small).once
    dsimp only at once
    rw [given_arena] at once
    exact (List.nodup_cons.mp once).1 (mem_given before)

theorem Accounted.copy {block : Block} (accounted : Accounted l s (block :: rest))
    {values : List UInt8} (fits : values.length ≤ block.size) :
    Accounted l (s.write (s.store.memory.write block.p.toNat values)) (block :: rest) := by
  apply accounted.write
  intro address outside
  have elsewhere := outside block List.mem_cons_self
  apply Memory.write_of_outside
  omega

/-- What has been copied stays when the old cell is put on the list. -/
theorem read_moved {memory : Memory UInt8} {p np : Word} {cell : ℕ} (value : BitVec 32)
    (oldLe : old ≤ cell) (apart : p.toNat + 4 ≤ np.toNat ∨ np.toNat + old ≤ p.toNat) :
    (storeInt (memory.write np.toNat (memory.read p.toNat cell)) p value).read np.toNat old =
      memory.read p.toNat old := by
  have back := Memory.read_write memory np.toNat (memory.read p.toNat cell)
  rw [Memory.length_read] at back
  have short := congrArg (List.take old) back
  rw [Memory.take_read, Memory.take_read, Nat.min_eq_left oldLe] at short
  rw [storeInt, Memory.read_write_of_disjoint, short]
  rw [LittleEndian.length_encode]
  exact apart.symm

/-- The block stays where it is, or is moved out of the arena, unless it has to be moved and
there is no memory. -/
theorem Accounted.rsIn_resized (accounted : Accounted l s (⟨p, old, .arena pool⟩ :: rest))
    (heap : Heap l) (size : ℕ) : (∃ block' s', rsIn l heap pool p size s = some (block', s') ∧
      block'.p ≠ 0 ∧ block'.size = size ∧ Accounted l s' (block' :: rest) ∧
        s'.store.memory.read block'.p.toNat (min old size) =
          s.store.memory.read p.toNat (min old size)) ∨
      rsIn l heap pool p size s = none ∧ pool.elsz < size ∧
        (heap.malloc size s.store).1 = 0 := by
  have oldLe : old ≤ pool.elsz := accounted.fit p old pool List.mem_cons_self
  rcases accounted.cell List.mem_cons_self with ⟨i, inside, place⟩
  rw [rsIn]
  split
  · rename_i fits
    left
    refine ⟨_, _, rfl, ?_, rfl, accounted.resize fits, rfl⟩
    rw [place]
    exact cell_ne_null inside
  · rename_i large
    rcases accounted.ma_served heap size with ⟨np, s₁, ran, served⟩
    rw [ran]
    dsimp only [Option.bind_eq_bind, Option.bind_some]
    split
    · rename_i null
      exact Or.inr ⟨rfl, Nat.lt_of_not_le large, served.null null⟩
    · rename_i some
      left
      -- there are two blocks now: the new one is written to, and then the old one goes back
      have both := served.accounted
      rw [if_neg some] at both
      have room : pool.elsz ≤ np.size := by
        rw [served.sized]
        exact Nat.le_of_not_le large
      have copied := @Accounted.copy _ _ _ _ both (s₁.store.memory.read p.toNat pool.elsz) (by
        rw [Memory.length_read]
        exact room)
      have differ := (List.nodup_cons.mp copied.nodup).1
      have apart := copied.separate List.mem_cons_self (List.mem_cons_of_mem np List.mem_cons_self)
        (fun same => differ (same ▸ List.mem_cons_self))
      have fits := copied.fits List.mem_cons_self
      rcases (copied.perm (List.Perm.swap _ np rest)).freeIn_freed with
        ⟨s₃, value, freed, memory, left⟩
      rw [freed]
      refine ⟨np, s₃, rfl, some, served.sized, left, ?_⟩
      rw [Nat.min_eq_left (Nat.le_trans oldLe (Nat.le_of_not_le large)), memory]
      have kept : s₁.store.memory.read p.toNat old = s.store.memory.read p.toNat old := by
        apply Memory.read_congr
        intro byte below
        apply served.spared pool
        rw [place]
        exact within_cell inside (Nat.lt_of_lt_of_le below oldLe)
      rw [← kept]
      apply read_moved value oldLe
      have roomy := pool.roomy
      have cell : Block.room ⟨p, old, .arena pool⟩ = pool.elsz := rfl
      rw [cell] at apart
      dsimp only at apart
      omega

theorem Accounted.here (accounted : Accounted l s live) {block : Block} (mem : block ∈ live)
    (pool : Pool) : (l.arena pool).here block.p = decide (block.origin = .arena pool) := by
  rw [Bool.eq_iff_iff, decide_eq_true_iff]
  exact accounted.here_iff mem

theorem Accounted.rs_arena (accounted : Accounted l s live) (mem : ⟨p, old, .arena pool⟩ ∈ live)
    (heap : Heap l) (size : ℕ) : rs l heap p size s = rsIn l heap pool p size s := by
  have here : ∀ other, (l.arena other).here p = decide (Origin.arena pool = .arena other) :=
    accounted.here mem
  rw [rs, here, here, here]
  cases pool <;> rfl

theorem Accounted.rs_heap (accounted : Accounted l s live) (mem : ⟨p, old, .heap⟩ ∈ live)
    (heap : Heap l) (size : ℕ) : rs l heap p size s =
      some (⟨(heap.realloc p size s.store).1, size, .heap⟩,
        ⟨s.ff, (heap.realloc p size s.store).2⟩) := by
  have here : ∀ other, (l.arena other).here p = decide (Origin.heap = .arena other) :=
    accounted.here mem
  rw [rs, here, here, here]
  rfl

/-- The blocks after `rs`. With nothing asked for, the heap takes the block and gives none. -/
def resized (block block' : Block) (live : List Block) : List Block :=
  if block'.p ≠ 0 then block' :: live.erase block
  else if block'.size = 0 then live.erase block
  else live

/-- What `rs` returns: it is null only where `realloc` returns null. -/
structure Resized (l : Layout) (heap : Heap l) (s : State) (live : List Block) (block : Block)
    (size : ℕ) (block' : Block) (s' : State) : Prop where
  sized : block'.size = size
  null : block'.p = 0 → block.origin = .heap ∧ (heap.realloc block.p size s.store).1 = 0
  accounted : Accounted l s' (resized block block' live)
  preserved : block'.p ≠ 0 → s'.store.memory.read block'.p.toNat (min block.size size) =
    s.store.memory.read block.p.toNat (min block.size size)

theorem Accounted.realloc_resized (accounted : Accounted l s live)
    (mem : ⟨p, old, .heap⟩ ∈ live) (heap : Heap l) (size : ℕ) :
    Resized l heap s live ⟨p, old, .heap⟩ size ⟨(heap.realloc p size s.store).1, size, .heap⟩
      ⟨s.ff, (heap.realloc p size s.store).2⟩ := by
  have first := accounted.perm (List.perm_cons_erase mem)
  have blocks := first.heap
  rw [onHeap_heap] at blocks
  have there : (p, old) ∈ s.store.blocks := blocks.mem_iff.mpr List.mem_cons_self
  have others := blocks.erase (p, old)
  rw [List.erase_cons_head] at others
  rcases heap.realloc_spec p old size s.store accounted.proper there with
    ⟨kept, ⟨null, some, same, all⟩ | ⟨null, none, less⟩ | ⟨given, more, proper, same⟩⟩
  · refine ⟨rfl, fun null => ⟨rfl, null⟩, ?_, fun given => absurd null given⟩
    rw [resized, if_neg (not_not.mpr null), if_neg some]
    apply accounted.stored all.1
    · rw [same]
      exact accounted.heap
    · rw [same]
      exact accounted.proper
  · refine ⟨rfl, fun null => ⟨rfl, null⟩, ?_, fun given => absurd null given⟩
    rw [resized, if_neg (not_not.mpr null), if_pos none]
    exact first.store_less kept.1 less
  · refine ⟨rfl, fun null => absurd null given, ?_, fun _ => same⟩
    rw [resized, if_pos given]
    -- the old block is given up before the new one is counted
    have without := @Accounted.store_less _ _ _ _ _
      ⟨s.store.memory, s.store.blocks.erase (p, old)⟩ first (fun _ _ _ => rfl) rfl
    apply without.store_more kept.1 _ proper
    rw [more]
    exact others.cons _

theorem Accounted.rs_resized {block : Block} (accounted : Accounted l s live) (mem : block ∈ live)
    (heap : Heap l) (size : ℕ) : (∃ block' s', rs l heap block.p size s = some (block', s') ∧
      Resized l heap s live block size block' s') ∨
      rs l heap block.p size s = none ∧
        (∃ pool, block.origin = .arena pool ∧ pool.elsz < size) ∧
        (heap.malloc size s.store).1 = 0 := by
  have first := accounted.perm (List.perm_cons_erase mem)
  rcases block with ⟨p, old, pool | -⟩
  · rw [accounted.rs_arena mem]
    rcases first.rsIn_resized heap size with
      ⟨block', s', returns, some, sized, left, same⟩ | ⟨none, large, null⟩
    · refine Or.inl ⟨block', s', returns, sized, fun null => absurd null some, ?_, fun _ => same⟩
      rw [resized, if_pos some]
      exact left
    · exact Or.inr ⟨none, ⟨pool, rfl, large⟩, null⟩
  · exact Or.inl ⟨_, _, accounted.rs_heap mem heap size, accounted.realloc_resized mem heap size⟩

/-! ### `mf` -/

section

theorem mf_arena8 {heap : Heap l} (freed : freeIn l .arena8 p s = some (true, s')) :
    mf l heap p s = some (.arena .arena8, s') := by
  rw [mf, freed]
  rfl

theorem mf_arena32 {heap : Heap l} (foreign : freeIn l .arena8 p s = some (false, s))
    (freed : freeIn l .arena32 p s = some (true, s')) :
    mf l heap p s = some (.arena .arena32, s') := by
  rw [mf, foreign]
  simp only [Option.bind_eq_bind, Option.bind_some, Bool.false_eq_true, if_false]
  rw [freed]
  rfl

theorem mf_arena64 {heap : Heap l} (foreign : freeIn l .arena8 p s = some (false, s))
    (foreign' : freeIn l .arena32 p s = some (false, s))
    (freed : freeIn l .arena64 p s = some (true, s')) :
    mf l heap p s = some (.arena .arena64, s') := by
  rw [mf, foreign]
  simp only [Option.bind_eq_bind, Option.bind_some, Bool.false_eq_true, if_false, foreign']
  rw [freed]
  rfl

theorem mf_heap {heap : Heap l} (foreign : ∀ pool, freeIn l pool p s = some (false, s)) :
    mf l heap p s = some (.heap, ⟨s.ff, heap.free p s.store⟩) := by
  simp only [mf, foreign, Option.bind_eq_bind, Option.bind_some, Bool.false_eq_true, if_false]
  rfl

end

theorem Accounted.mf_returned {block : Block} (accounted : Accounted l s live) (mem : block ∈ live)
    (heap : Heap l) : ∃ s', mf l heap block.p s = some (block.origin, s') ∧
      Accounted l s' (live.erase block) := by
  have first := accounted.perm (List.perm_cons_erase mem)
  have foreign : ∀ other, block.origin ≠ .arena other →
      freeIn l other block.p s = some (false, s) := by
    intro other differ
    apply freeIn_foreign
    rw [accounted.here mem, decide_eq_false differ]
  rcases block with ⟨p, size, pool | -⟩
  · rcases first.freeIn_freed with ⟨s', value, freed, -, left⟩
    refine ⟨s', ?_, left⟩
    cases pool with
    | arena8 => exact mf_arena8 freed
    | arena32 => exact mf_arena32 (foreign .arena8 nofun) freed
    | arena64 => exact mf_arena64 (foreign .arena8 nofun) (foreign .arena32 nofun) freed
  · refine ⟨_, mf_heap fun other => foreign other nofun, ?_⟩
    have blocks := first.heap
    rw [onHeap_heap] at blocks
    rcases heap.free_spec p size s.store accounted.proper
      (blocks.mem_iff.mpr List.mem_cons_self) with ⟨less, kept⟩
    exact first.store_less kept.1 less

theorem Accounted.mf_null (accounted : Accounted l s live) (heap : Heap l) :
    ∃ s', mf l heap 0 s = some (.heap, s') ∧ Accounted l s' live := by
  refine ⟨_, mf_heap fun _ => freeIn_foreign here_null, ?_⟩
  rcases heap.free_null s.store with ⟨same, kept⟩
  apply accounted.stored kept.1
  · rw [same]
    exact accounted.heap
  · rw [same]
    exact accounted.proper

/-! ### Runs -/

theorem quiet_start (l : Layout) (pool : Pool) (memory : Memory UInt8) :
    Quiet (l.arena pool) ⟨0, (l.arena pool).construct memory, []⟩ :=
  Valid.start pool.small memory

theorem construct_elsewhere {other : Pool} {memory : Memory UInt8} (differ : pool ≠ other)
    (address : ℕ) (within : l.Within pool address) :
    (l.arena other).construct memory address = memory address := by
  apply Arena.construct_of_outside
  rcases l.disjoint pool other differ with below | above
  · exact Or.inl (Nat.lt_of_lt_of_le within.2 below)
  · exact Or.inr (Nat.le_trans above within.1)

theorem Accounted.start (l : Layout) (memory : Memory UInt8) :
    Accounted l (State.start l memory) [] := by
  refine ⟨?_, nofun, List.Perm.nil, ⟨List.Pairwise.nil, nofun, nofun, nofun⟩, List.nodup_nil⟩
  intro pool
  dsimp only [State.start]
  cases pool with
  | arena8 => exact quiet_start l .arena8 _
  | arena32 => exact quiet_spared (quiet_start l .arena32 _) (construct_elsewhere nofun)
  | arena64 =>
      have built := quiet_spared (quiet_start l .arena64 memory)
        (@construct_elsewhere _ _ .arena32 _ nofun)
      exact quiet_spared built (construct_elsewhere nofun)

/-- What one thread comes to by calls, and by writing to its blocks. At each call the heap may
be another one. -/
inductive Reached (l : Layout) (memory : Memory UInt8) : State → List Block → Prop where
  | start : Reached l memory (State.start l memory) []
  | ma {s s' : State} {live : List Block} {block : Block} (run : Reached l memory s live)
      (heap : Heap l) (size : ℕ) (returns : ma l heap size s = some (block, s')) :
      Reached l memory s' (if block.p = 0 then live else block :: live)
  | rs {s s' : State} {live : List Block} {block block' : Block} (run : Reached l memory s live)
      (heap : Heap l) (mem : block ∈ live) (size : ℕ)
      (returns : rs l heap block.p size s = some (block', s')) :
      Reached l memory s' (resized block block' live)
  | mf {s s' : State} {live : List Block} {block : Block} {origin : Origin}
      (run : Reached l memory s live) (heap : Heap l) (mem : block ∈ live)
      (returns : mf l heap block.p s = some (origin, s')) : Reached l memory s' (live.erase block)
  | mfNull {s s' : State} {live : List Block} {origin : Origin} (run : Reached l memory s live)
      (heap : Heap l) (returns : mf l heap 0 s = some (origin, s')) : Reached l memory s' live
  | write {s : State} {live : List Block} {memory' : Memory UInt8} (run : Reached l memory s live)
      (kept : ∀ address, (∀ block ∈ live, ¬(block.p.toNat ≤ address ∧
        address < block.p.toNat + block.size)) → memory' address = s.store.memory address) :
      Reached l memory (s.write memory') live

theorem Reached.accounted {memory : Memory UInt8} (run : Reached l memory s live) :
    Accounted l s live := by
  induction run with
  | start => exact Accounted.start l memory
  | ma run heap size returns ih =>
      rcases ih.ma_served heap size with ⟨block, s', same, served⟩
      cases returns.symm.trans same
      exact served.accounted
  | rs run heap mem size returns ih =>
      rcases ih.rs_resized mem heap size with ⟨block', s', same, resized⟩ | ⟨fails, -⟩
      · cases returns.symm.trans same
        exact resized.accounted
      · cases returns.symm.trans fails
  | mf run heap mem returns ih =>
      rcases ih.mf_returned mem heap with ⟨s', same, left⟩
      cases returns.symm.trans same
      exact left
  | mfNull run heap returns ih =>
      rcases ih.mf_null heap with ⟨s', same, left⟩
      cases returns.symm.trans same
      exact left
  | write run kept ih => exact ih.write kept

/-- What is expected of the facade. -/
structure Managed (l : Layout) (s : State) (live : List Block) : Prop where
  /-- A block is where it has come from, -/
  blocks : ∀ block ∈ live, match block.origin with
    | .arena pool => ∃ i < pool.arsz, block.p = (l.arena pool).cell (BitVec.ofNat 64 i)
    | .heap => (block.p, block.size) ∈ s.store.blocks
  /-- has room for what was asked for, -/
  room : ∀ block ∈ live, block.size ≤ block.room
  /-- and shares it with no other block. -/
  apart : live.Pairwise fun block other => block.p.toNat + block.room ≤ other.p.toNat ∨
    other.p.toNat + other.room ≤ block.p.toNat
  free : ∀ pool, ∃ cells : List ℕ, cells.Nodup ∧
    Linked ((l.arena pool).Links s.store.memory) pool.arsz cells ∧
    s.ff pool = BitVec.ofNat 64 (head pool.arsz cells) ∧
    ∀ i, i ∈ cells ↔ i < pool.arsz ∧
      ∀ block ∈ live, block.p ≠ (l.arena pool).cell (BitVec.ofNat 64 i)
  /-- The heap counts its own live blocks as given out and no others. -/
  heap : s.store.blocks.Perm (onHeap live)
  /-- `ma` gives a block, unless `malloc` has no memory. -/
  serves : ∀ (heap : Heap l) size, ∃ block s', ma l heap size s = some (block, s') ∧
    block.size = size ∧ (block.p = 0 → (heap.malloc size s.store).1 = 0)
  /-- `rs` gives a block with the old bytes, unless `realloc` returns null for a block of the
  heap, or `malloc` for one that outgrows its arena. -/
  resizes : ∀ (heap : Heap l), ∀ block ∈ live, ∀ size,
    (∃ block' s', rs l heap block.p size s = some (block', s') ∧ block'.size = size ∧
      (block'.p = 0 → block.origin = .heap ∧ (heap.realloc block.p size s.store).1 = 0) ∧
      (block'.p ≠ 0 → s'.store.memory.read block'.p.toNat (min block.size size) =
        s.store.memory.read block.p.toNat (min block.size size))) ∨
      rs l heap block.p size s = none ∧
        (∃ pool, block.origin = .arena pool ∧ pool.elsz < size) ∧ (heap.malloc size s.store).1 = 0
  /-- `mf` takes a block back to its origin, and the heap counts the others on. -/
  returns : ∀ (heap : Heap l), ∀ block ∈ live, ∃ s', mf l heap block.p s = some (block.origin, s') ∧
    s'.store.blocks.Perm (onHeap (live.erase block))

theorem Accounted.given_iff (accounted : Accounted l s live) {i : ℕ} (inside : i < pool.arsz) :
    (l.arena pool).cell (BitVec.ofNat 64 i) ∈ given pool live ↔
      ∃ block ∈ live, block.p = (l.arena pool).cell (BitVec.ofNat 64 i) := by
  constructor
  · intro mem
    rcases List.mem_map.mp mem with ⟨block, there, same⟩
    exact ⟨block, (List.mem_filter.mp there).1, same⟩
  · rintro ⟨⟨p, size, origin⟩, mem, rfl⟩
    have mine := here_iff_within.mpr (@within_cell_start l pool i inside)
    cases (accounted.here_iff mem).mp mine
    exact mem_given mem

theorem Accounted.free_list (accounted : Accounted l s live) (pool : Pool) :
    ∃ cells : List ℕ, cells.Nodup ∧
      Linked ((l.arena pool).Links s.store.memory) pool.arsz cells ∧
      s.ff pool = BitVec.ofNat 64 (head pool.arsz cells) ∧
      ∀ i, i ∈ cells ↔ i < pool.arsz ∧
        ∀ block ∈ live, block.p ≠ (l.arena pool).cell (BitVec.ofNat 64 i) := by
  rcases (accounted.quiet pool).opened with ⟨cells, place, placed, held, word⟩
  refine ⟨cells, placed.nodup, held.linked, word, ?_⟩
  intro i
  rw [placed.listed i]
  apply and_congr_right
  intro inside
  have taken := accounted.given_iff inside
  rw [placed.cell_live inside] at taken
  constructor
  · intro there block mem same
    rw [taken.mpr ⟨block, mem, same⟩] at there
    cases there
  · intro none
    cases there : place i with
    | listed => rfl
    | live =>
        rcases taken.mp there with ⟨block, mem, same⟩
        exact absurd same (none block mem)
    | carried t => cases (placed.carried t i).mpr ⟨inside, there⟩

theorem Accounted.managed (accounted : Accounted l s live) : Managed l s live where
  blocks := by
    rintro ⟨p, size, pool | -⟩ mem
    · exact accounted.cell mem
    · exact accounted.heap.mem_iff.mpr (mem_onHeap mem)
  room _ mem := accounted.fits mem
  apart := accounted.nodup.pairwise_of_forall_ne fun block mem other mem' differ =>
    accounted.separate mem mem' differ
  free := accounted.free_list
  heap := accounted.heap
  serves heap size := by
    rcases accounted.ma_served heap size with ⟨block, s', returns, served⟩
    exact ⟨block, s', returns, served.sized, served.null⟩
  resizes heap block mem size := by
    rcases accounted.rs_resized mem heap size with ⟨block', s', returns, resized⟩ | fails
    · exact Or.inl ⟨block', s', returns, resized.sized, resized.null, resized.preserved⟩
    · exact Or.inr fails
  returns heap block mem := by
    rcases accounted.mf_returned mem heap with ⟨s', returns, left⟩
    exact ⟨s', returns, left.heap⟩

/-- The facade does what is expected of it after every sequence of calls. -/
theorem managed_of_reached {memory : Memory UInt8} (run : Reached l memory s live) :
    Managed l s live :=
  run.accounted.managed

end

/-- The buffers one after the other. -/
def sample : Layout where
  buf
    | .arena64 => 0x10000
    | .arena32 => 0x30000
    | .arena8 => 0x40000
  present pool := by cases pool <;> decide
  fits pool := by cases pool <;> decide
  disjoint pool other := by cases pool <;> cases other <;> decide

theorem eraseP_eq_erase {blocks : List (Word × ℕ)} {p : Word} {size : ℕ}
    (apart : blocks.Pairwise Apart) (mem : (p, size) ∈ blocks) :
    blocks.eraseP (fun block => block.1 = p) = blocks.erase (p, size) := by
  induction blocks with
  | nil => cases mem
  | cons block rest ih =>
      rcases List.pairwise_cons.mp apart with ⟨first, others⟩
      by_cases same : block = (p, size)
      · subst same
        rw [List.erase_cons_head]
        exact List.eraseP_cons_of_pos (decide_eq_true rfl)
      · have there := (List.mem_cons.mp mem).resolve_left (Ne.symm same)
        have differ : ¬block.1 = p := by
          intro equal
          have byte : 0 < extent block := Nat.lt_of_lt_of_le Nat.zero_lt_one (Nat.le_max_right _ _)
          have byte' : 0 < extent (p, size) :=
            Nat.lt_of_lt_of_le Nat.zero_lt_one (Nat.le_max_right _ _)
          have separate := first _ there
          dsimp only [Apart] at separate
          rw [equal] at separate
          omega
        rw [List.erase_cons_tail (by simpa using same),
          List.eraseP_cons_of_neg (by simpa using differ), ih others there]

/-- A heap of one page, which can hold one block. -/
def onePage : Heap sample where
  malloc size store :=
    if store.blocks = [] ∧ size ≤ 0x1000 then (0x1000, ⟨store.memory, [(0x1000, size)]⟩)
    else (0, store)
  realloc p size store :=
    if size = 0 then (0, ⟨store.memory, store.blocks.eraseP fun block => block.1 = p⟩)
    else (0, store)
  free p store :=
    if p = 0 then store else ⟨store.memory, store.blocks.eraseP fun block => block.1 = p⟩
  malloc_spec size store proper := by
    split
    · rename_i fits
      rw [fits.1]
      refine ⟨⟨fun _ _ _ => rfl, nofun⟩, Or.inr ⟨nofun, rfl, ?_⟩⟩
      have room : extent (0x1000, size) ≤ 0x1000 := Nat.max_le.mpr ⟨fits.2, by decide⟩
      refine ⟨List.pairwise_singleton _ _, ?_, ?_, ?_⟩
      · simp
      · simp only [List.mem_singleton, forall_eq]
        exact Nat.le_trans (Nat.add_le_add_left room _) (by decide)
      · simp only [List.mem_singleton, forall_eq]
        intro pool
        left
        apply Nat.le_trans (Nat.add_le_add_left room _)
        cases pool <;> decide
    · exact ⟨⟨fun _ _ _ => rfl, fun _ _ => rfl⟩, Or.inl ⟨rfl, rfl⟩⟩
  realloc_spec p old size store proper mem := by
    split
    · rename_i none
      refine ⟨⟨fun _ _ _ => rfl, fun _ _ => rfl⟩, Or.inr (Or.inl ⟨rfl, none, ?_⟩)⟩
      exact eraseP_eq_erase proper.apart mem
    · rename_i some
      exact ⟨⟨fun _ _ _ => rfl, fun _ _ => rfl⟩,
        Or.inl ⟨rfl, some, rfl, fun _ _ _ => rfl, fun _ _ => rfl⟩⟩
  free_spec p size store proper mem := by
    split
    · rename_i null
      subst null
      exact absurd (proper.present _ mem) (Nat.lt_irrefl 0)
    · exact ⟨eraseP_eq_erase proper.apart mem, fun _ _ _ => rfl, fun _ _ => rfl⟩
  free_null store := by
    rw [if_pos rfl]
    exact ⟨rfl, fun _ _ _ => rfl, fun _ _ => rfl⟩

/-- A block for which the arenas are too small. -/
theorem managed_of_reached_large : ∃ block s',
    ma sample onePage 100 (State.start sample (Memory.fill 0)) = some (block, s') ∧
      Managed sample s' [block] := by
  refine ⟨_, _, rfl, ?_⟩
  have begun : Reached sample (Memory.fill 0) _ _ := .start
  exact managed_of_reached (begun.ma onePage 100 rfl)

end Imconee.Mem
