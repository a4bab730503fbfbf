import Imconee.Lib.FreeList
import Imconee.Lib.Interleaving
import Imconee.Mem.Arena

/-!
# The arena under threads

Threads allocate and free in any order, each access to `ff` being one step, and write to the
blocks that they have been given. A cell is in the list, or given out, or on its way with one of
the threads. This goes wrong where `alloc` finds out too late that the list has become empty, and
with so many cells that the lock bit is a part of their indices.
-/

set_option autoImplicit false

namespace Imconee.Mem

open Lib Lib.FreeList

namespace Point

/-- The thread has set the lock bit. -/
def Locked : Point → Prop
  | allocNext _ _ => True
  | allocUnlock _ _ _ => True
  | freeStore _ _ _ => True
  | freeUnlock _ _ => True
  | _ => False

/-- The cell that the thread takes from the list to the one who asks for a block, or back. -/
def carried (arena : Arena) : Point → Option ℕ
  | allocReturn nf => some (arena.index nf)
  | free p => if arena.here p then some (arena.index p) else none
  | freeRead index => some index
  | freeSwap index _ => some index
  | freeStore index _ _ => some index
  | freeUnlock index _ => some index
  | _ => none

theorem carried_free {arena : Arena} {p : Word} (mine : arena.here p = true) :
    (free p).carried arena = some (arena.index p) := if_pos mine

theorem carried_cell {arena : Arena} {i : ℕ} (inside : i < arena.arsz) :
    (free (arena.cell (BitVec.ofNat 64 i))).carried arena = some i := by
  rw [carried_free (Arena.here_cell inside), Arena.index_cell inside]

theorem carried_foreign {arena : Arena} {p : Word} (foreign : ¬arena.here p = true) :
    (free p).carried arena = none := if_neg foreign

/-- No lock is taken by `alloc` while the list is empty. -/
def Careful (arena : Arena) (shared : Shared) : Point → Prop
  | allocSwap unlockff => shared.ff = unlockff → unlockff.toInt < arena.arsz
  | _ => True

end Point

/-- What a thread can do: a call, the next access, and writes to what has been given out, or
somewhere else. -/
inductive Move (arena : Arena) : Shared → Point → Shared → Point → Prop where
  | alloc {shared : Shared} : Move arena shared .idle shared .alloc
  | free {shared : Shared} {p : Word} (block : p ∈ shared.live) :
      Move arena shared .idle { shared with live := shared.live.erase p } (.free p)
  | foreign {shared : Shared} {p : Word} (elsewhere : arena.here p = false) :
      Move arena shared .idle shared (.free p)
  | access {shared : Shared} {point : Point} :
      Move arena shared point (arena.advance shared point).1 (arena.advance shared point).2
  | write {shared : Shared} {point : Point} {memory : Memory UInt8}
      (kept : ∀ i < arena.arsz, arena.cell (BitVec.ofNat 64 i) ∉ shared.live →
        arena.Same shared.memory memory i) :
      Move arena shared point { shared with memory := memory } point

/-- A move that is not an `alloc` which locks the empty list. -/
def CarefulMove (arena : Arena) (shared : Shared) (point : Point) (next : Shared)
    (after : Point) : Prop :=
  point.Careful arena shared ∧ Move arena shared point next after

def Arena.start (arena : Arena) (memory : Memory UInt8) : Shared := ⟨0, arena.construct memory, []⟩

section

variable {ι : Type}

/-- What is expected of the arena. -/
structure Sound (arena : Arena) (shared : Shared) (points : ι → Point) : Prop where
  /-- A block that `alloc` returns is a cell that is not in use. -/
  returned : ∀ t nf, points t = .allocReturn nf →
    (∃ i < arena.arsz, nf = arena.cell (BitVec.ofNat 64 i)) ∧ nf ∉ shared.live
  /-- No cell has two owners. -/
  once : shared.live.Nodup
  blocks : ∀ p ∈ shared.live, ∃ i < arena.arsz, p = arena.cell (BitVec.ofNat 64 i)
  /-- Nor is it with two threads. -/
  carriers : ∀ t u i, (points t).carried arena = some i → (points u).carried arena = some i → t = u
  apart : ∀ t i, (points t).carried arena = some i → arena.cell (BitVec.ofNat 64 i) ∉ shared.live
  /-- The list is that of all other cells. -/
  free : ∃ cells : List ℕ, cells.Nodup ∧ Linked (arena.Links shared.memory) arena.arsz cells ∧
    masked shared.ff = BitVec.ofNat 64 (head arena.arsz cells) ∧
      ∀ i, i ∈ cells ↔ i < arena.arsz ∧ arena.cell (BitVec.ofNat 64 i) ∉ shared.live ∧
        ∀ t, (points t).carried arena ≠ some i

/-! ### Where the cells are -/

/-- Where a cell is. -/
inductive Place (ι : Type) where
  | listed
  | live
  | carried (thread : ι)

/-- Every cell is where its place says. -/
structure Placed (arena : Arena) (live : List Word) (points : ι → Point) (cells : List ℕ)
    (place : ℕ → Place ι) : Prop where
  nodup : cells.Nodup
  listed : ∀ i, i ∈ cells ↔ i < arena.arsz ∧ place i = .listed
  once : live.Nodup
  live : ∀ p, p ∈ live ↔ ∃ i < arena.arsz, p = arena.cell (BitVec.ofNat 64 i) ∧ place i = .live
  carried : ∀ t i, (points t).carried arena = some i ↔ i < arena.arsz ∧ place i = .carried t

variable {arena : Arena} {live : List Word} {points : ι → Point} {cells : List ℕ}
  {place : ℕ → Place ι} {t : ι} {point : Point} {i j : ℕ}

theorem Placed.cell_live (placed : Placed arena live points cells place) (inside : i < arena.arsz) :
    arena.cell (BitVec.ofNat 64 i) ∈ live ↔ place i = .live := by
  constructor
  · intro given
    rcases (placed.live _).mp given with ⟨j, within, same, there⟩
    rw [Arena.cell_inj inside within same]
    exact there
  · intro there
    exact (placed.live _).mpr ⟨i, inside, rfl, there⟩

theorem Place.live_ne_listed : (.live : Place ι) ≠ .listed := nofun

theorem Place.carried_ne_listed (thread : ι) : Place.carried thread ≠ .listed := nofun

theorem Place.carried_ne_live (thread : ι) : Place.carried thread ≠ .live := nofun

section

variable {source target other : Place ι}

theorem placed_elsewhere (was : place i = source) (notSource : other ≠ source)
    (notTarget : other ≠ target) : Function.update place i target j = other ↔ place j = other := by
  by_cases same : j = i
  · subst same
    rw [Function.update_self, was]
    exact ⟨fun here => absurd here.symm notTarget, fun here => absurd here.symm notSource⟩
  · rw [Function.update_of_ne same]

theorem placed_target : Function.update place i target j = target ↔ j = i ∨ place j = target := by
  by_cases same : j = i
  · subst same
    rw [Function.update_self]
    exact ⟨fun _ => Or.inl rfl, fun _ => rfl⟩
  · rw [Function.update_of_ne same]
    exact ⟨Or.inr, fun here => here.resolve_left same⟩

theorem placed_source (differ : target ≠ source) :
    Function.update place i target j = source ↔ j ≠ i ∧ place j = source := by
  by_cases same : j = i
  · subst same
    rw [Function.update_self]
    exact ⟨fun here => absurd here differ, fun here => absurd rfl here.1⟩
  · rw [Function.update_of_ne same]
    exact ⟨fun here => ⟨same, here⟩, And.right⟩

end

theorem Placed.head_lt (placed : Placed arena live points cells place)
    (small : arena.arsz < 2 ^ 31) : head arena.arsz cells < 2 ^ 31 := by
  rcases @head_mem_or_stop _ arena.arsz cells with inside | stop
  · exact Nat.lt_trans ((placed.listed _).mp inside).1 small
  · rw [stop]
    exact small

theorem Placed.rest_lt {rest : List ℕ} (placed : Placed arena live points (i :: rest) place)
    (small : arena.arsz < 2 ^ 31) : head arena.arsz rest < 2 ^ 31 := by
  rcases @head_mem_or_stop _ arena.arsz rest with inside | stop
  · exact Nat.lt_trans ((placed.listed _).mp (List.mem_cons_of_mem i inside)).1 small
  · rw [stop]
    exact small

theorem Placed.linked_store {memory : Memory UInt8} (placed : Placed arena live points cells place)
    (linked : Linked (arena.Links memory) arena.arsz cells) (inside : i < arena.arsz)
    (elsewhere : place i ≠ .listed) (value : BitVec 32) :
    Linked (arena.Links (storeInt memory (arena.cell (BitVec.ofNat 64 i)) value)) arena.arsz
      cells := by
  apply linked.congr
  intro j there next links
  rcases (placed.listed j).mp there with ⟨within, listed⟩
  apply links.kept within inside
  rintro rfl
  exact elsewhere listed

section

variable [DecidableEq ι]

theorem Placed.stay (placed : Placed arena live points cells place)
    (same : point.carried arena = (points t).carried arena) :
    Placed arena live (Function.update points t point) cells place where
  nodup := placed.nodup
  listed := placed.listed
  once := placed.once
  live := placed.live
  carried u i := by
    by_cases first : u = t
    · subst first
      rw [Function.update_self, same]
      exact placed.carried u i
    · rw [Function.update_of_ne first]
      exact placed.carried u i

/-- Only the thread at hand takes a cell or leaves it. -/
theorem Placed.carried_update (placed : Placed arena live points cells place) {target : Place ι}
    (was : place i = .carried t ∨ ∀ u, place i ≠ .carried u)
    (goes : target = .carried t ∨ ∀ u, target ≠ .carried u)
    (own : ∀ j, point.carried arena = some j ↔
      j < arena.arsz ∧ Function.update place i target j = .carried t) (u : ι) (j : ℕ) :
    (Function.update points t point u).carried arena = some j ↔
      j < arena.arsz ∧ Function.update place i target j = .carried u := by
  by_cases first : u = t
  · subst first
    rw [Function.update_self]
    exact own j
  · rw [Function.update_of_ne first, placed.carried u j, placed_elsewhere rfl]
    · intro here
      rcases was with mine | none
      · rw [mine] at here
        cases here
        exact first rfl
      · exact none u here.symm
    · intro here
      rcases goes with mine | none
      · rw [mine] at here
        cases here
        exact first rfl
      · exact none u here.symm

theorem Placed.carried_enters (placed : Placed arena live points cells place)
    (inside : i < arena.arsz) (was : ∀ u, place i ≠ .carried u)
    (before : (points t).carried arena = none) (after : point.carried arena = some i) (u : ι)
    (j : ℕ) : (Function.update points t point u).carried arena = some j ↔
      j < arena.arsz ∧ Function.update place i (.carried t) j = .carried u := by
  apply placed.carried_update (Or.inr was) (Or.inl rfl)
  intro j
  rw [after, placed_target]
  constructor
  · rintro ⟨⟩
    exact ⟨inside, Or.inl rfl⟩
  · rintro ⟨within, rfl | there⟩
    · rfl
    · rw [(placed.carried t j).mpr ⟨within, there⟩] at before
      cases before

theorem Placed.carried_leaves (placed : Placed arena live points cells place) {target : Place ι}
    (before : (points t).carried arena = some i) (was : place i = .carried t)
    (goes : ∀ u, target ≠ .carried u) (after : point.carried arena = none) (u : ι) (j : ℕ) :
    (Function.update points t point u).carried arena = some j ↔
      j < arena.arsz ∧ Function.update place i target j = .carried u := by
  apply placed.carried_update (Or.inl was) (Or.inr goes)
  intro j
  rw [after, placed_source (goes t)]
  constructor
  · rintro ⟨⟩
  · rintro ⟨within, other, there⟩
    rw [(placed.carried t j).mpr ⟨within, there⟩] at before
    cases before
    exact absurd rfl other

theorem Placed.take (placed : Placed arena live points (i :: cells) place)
    (before : (points t).carried arena = none) (after : point.carried arena = some i) :
    Placed arena live (Function.update points t point) cells
      (Function.update place i (.carried t)) := by
  rcases (placed.listed i).mp List.mem_cons_self with ⟨inside, was⟩
  rcases List.nodup_cons.mp placed.nodup with ⟨fresh, nodup⟩
  refine ⟨nodup, ?_, placed.once, ?_, ?_⟩
  · intro j
    rw [placed_source (Place.carried_ne_listed t), ← and_left_comm, ← placed.listed j,
      List.mem_cons]
    constructor
    · intro there
      refine ⟨?_, Or.inr there⟩
      rintro rfl
      exact fresh there
    · rintro ⟨other, there⟩
      exact there.resolve_left other
  · intro p
    rw [placed.live p]
    simp only [placed_elsewhere was Place.live_ne_listed (Place.carried_ne_live t).symm]
  · exact placed.carried_enters inside (fun u => by rw [was]; nofun) before after

/-- A cell that the thread has carried is the first one of the list. -/
theorem Placed.put (placed : Placed arena live points cells place)
    (before : (points t).carried arena = some i) (after : point.carried arena = none) :
    Placed arena live (Function.update points t point) (i :: cells)
      (Function.update place i .listed) := by
  rcases (placed.carried t i).mp before with ⟨inside, was⟩
  refine ⟨?_, ?_, placed.once, ?_, ?_⟩
  · apply List.nodup_cons.mpr ⟨_, placed.nodup⟩
    intro there
    rw [((placed.listed i).mp there).2] at was
    cases was
  · intro j
    rw [placed_target, List.mem_cons, placed.listed j]
    constructor
    · rintro (rfl | ⟨within, there⟩)
      · exact ⟨inside, Or.inl rfl⟩
      · exact ⟨within, Or.inr there⟩
    · rintro ⟨within, rfl | there⟩
      · exact Or.inl rfl
      · exact Or.inr ⟨within, there⟩
  · intro p
    rw [placed.live p]
    simp only [placed_elsewhere was (Place.carried_ne_live t).symm Place.live_ne_listed]
  · exact placed.carried_leaves before was (fun u => (Place.carried_ne_listed u).symm) after

theorem Placed.give (placed : Placed arena live points cells place)
    (before : (points t).carried arena = some i) (after : point.carried arena = none) :
    Placed arena (arena.cell (BitVec.ofNat 64 i) :: live) (Function.update points t point) cells
      (Function.update place i .live) := by
  rcases (placed.carried t i).mp before with ⟨inside, was⟩
  refine ⟨placed.nodup, ?_, ?_, ?_, ?_⟩
  · intro j
    rw [placed.listed j,
      placed_elsewhere was (Place.carried_ne_listed t).symm Place.live_ne_listed.symm]
  · apply List.nodup_cons.mpr ⟨_, placed.once⟩
    rw [placed.cell_live inside, was]
    nofun
  · intro p
    simp only [placed_target]
    rw [List.mem_cons, placed.live p]
    constructor
    · rintro (rfl | ⟨j, within, same, there⟩)
      · exact ⟨i, inside, rfl, Or.inl rfl⟩
      · exact ⟨j, within, same, Or.inr there⟩
    · rintro ⟨j, within, same, rfl | there⟩
      · exact Or.inl same
      · exact Or.inr ⟨j, within, same, there⟩
  · exact placed.carried_leaves before was (fun u => (Place.carried_ne_live u).symm) after

theorem Placed.back (placed : Placed arena live points cells place) (inside : i < arena.arsz)
    (was : place i = .live) (before : (points t).carried arena = none)
    (after : point.carried arena = some i) :
    Placed arena (live.erase (arena.cell (BitVec.ofNat 64 i))) (Function.update points t point)
      cells (Function.update place i (.carried t)) := by
  refine ⟨placed.nodup, ?_, placed.once.erase _, ?_, ?_⟩
  · intro j
    rw [placed.listed j,
      placed_elsewhere was Place.live_ne_listed.symm (Place.carried_ne_listed t).symm]
  · intro p
    simp only [placed_source (Place.carried_ne_live t)]
    rw [placed.once.mem_erase_iff, placed.live p]
    constructor
    · rintro ⟨other, j, within, rfl, there⟩
      refine ⟨j, within, rfl, ?_, there⟩
      rintro rfl
      exact other rfl
    · rintro ⟨j, within, rfl, other, there⟩
      refine ⟨?_, j, within, rfl, there⟩
      intro same
      exact other (Arena.cell_inj within inside same)
  · exact placed.carried_enters inside (fun u => by rw [was]; nofun) before after

end

/-! ### The lock and the list -/

/-- What a thread relies on where it is. -/
def Point.Relies (arena : Arena) (memory : Memory UInt8) (cells : List ℕ) : Point → Prop
  | allocSwap unlockff => masked unlockff = unlockff
  | allocNext unlockff lockff =>
      unlockff = BitVec.ofNat 64 (head arena.arsz cells) ∧
        lockff = lockBit ||| BitVec.ofNat 64 (head arena.arsz cells) ∧
        head arena.arsz cells ≠ arena.arsz
  | allocUnlock nf lockff unlockff => ∃ i rest, cells = i :: rest ∧
      nf = arena.cell (BitVec.ofNat 64 i) ∧ lockff = lockBit ||| BitVec.ofNat 64 i ∧
      unlockff = BitVec.ofNat 64 (head arena.arsz rest)
  | allocReturn nf => ∃ i < arena.arsz, nf = arena.cell (BitVec.ofNat 64 i)
  | freeSwap _ unlockff => masked unlockff = unlockff
  | freeStore _ unlockff lockff =>
      unlockff = BitVec.ofNat 64 (head arena.arsz cells) ∧
        lockff = lockBit ||| BitVec.ofNat 64 (head arena.arsz cells)
  | freeUnlock index lockff =>
      lockff = lockBit ||| BitVec.ofNat 64 (head arena.arsz cells) ∧
        arena.Links memory index (head arena.arsz cells)
  | stopped => False
  | _ => True

/-- The list hangs on `ff`, and one thread at a time has the lock. -/
structure Held (arena : Arena) (ff : Word) (memory : Memory UInt8) (points : ι → Point)
    (cells : List ℕ) : Prop where
  linked : Linked (arena.Links memory) arena.arsz cells
  alone : ∀ t u, (points t).Locked → (points u).Locked → t = u
  unlocked : (∀ t, ¬(points t).Locked) → ff = BitVec.ofNat 64 (head arena.arsz cells)
  locked : ∀ t, (points t).Locked → ff = lockBit ||| BitVec.ofNat 64 (head arena.arsz cells)
  relies : ∀ t, (points t).Relies arena memory cells

variable {ff ff' : Word} {memory memory' : Memory UInt8} {cells' : List ℕ}

theorem Point.Relies.of_not_locked (relies : point.Relies arena memory cells)
    (none : ¬point.Locked) : point.Relies arena memory' cells' := by
  cases point with
  | allocNext _ _ => exact absurd trivial none
  | allocUnlock _ _ _ => exact absurd trivial none
  | freeStore _ _ _ => exact absurd trivial none
  | freeUnlock _ _ => exact absurd trivial none
  | _ => exact relies

/-- Nor does a thread rely on the bytes of a cell that it does not carry. -/
theorem Point.Relies.same (relies : point.Relies arena memory cells)
    (same : ∀ i, point.carried arena = some i → arena.Same memory memory' i) :
    point.Relies arena memory' cells := by
  cases point with
  | freeUnlock index lockff => exact ⟨relies.1, relies.2.same (same index rfl)⟩
  | _ => exact relies

theorem Held.owned (held : Held arena ff memory points cells) (here : points t = point)
    (locks : point.Locked) : (∀ u, u ≠ t → ¬(points u).Locked) ∧
      ff = lockBit ||| BitVec.ofNat 64 (head arena.arsz cells) ∧
      point.Relies arena memory cells := by
  subst here
  refine ⟨?_, held.locked t locks, held.relies t⟩
  intro u other also
  exact other (held.alone u t also locks)

theorem Held.none_locked (held : Held arena ff memory points cells) (unset : masked ff = ff)
    (u : ι) : ¬(points u).Locked := by
  intro there
  have set := held.locked u there
  rw [← unset] at set
  exact lockBit_or_ne_masked _ _ set.symm

/-- What holds in every state. -/
def Valid (arena : Arena) (shared : Shared) (points : ι → Point) : Prop :=
  ∃ cells place, Placed arena shared.live points cells place ∧
    Held arena shared.ff shared.memory points cells

variable {shared : Shared} {old : Point}

theorem Valid.relies (valid : Valid arena shared points) (here : points t = old) :
    ∃ cells, old.Relies arena shared.memory cells := by
  rcases valid with ⟨cells, place, placed, held⟩
  subst here
  exact ⟨cells, held.relies t⟩

theorem Valid.perm {live' : List Word} (valid : Valid arena ⟨ff, memory, live⟩ points)
    (same : live.Perm live') : Valid arena ⟨ff, memory, live'⟩ points := by
  rcases valid with ⟨cells, place, placed, held⟩
  refine ⟨cells, place, ⟨placed.nodup, placed.listed, ?_, ?_, placed.carried⟩, held⟩
  · exact same.nodup_iff.mp placed.once
  · intro p
    rw [← same.mem_iff]
    exact placed.live p

/-- Somebody writes where no cell is that is not given out. -/
theorem Valid.written (valid : Valid arena shared points)
    (kept : ∀ i < arena.arsz, arena.cell (BitVec.ofNat 64 i) ∉ shared.live →
      arena.Same shared.memory memory i) : Valid arena { shared with memory := memory } points := by
  rcases valid with ⟨cells, place, placed, held⟩
  have same : ∀ i < arena.arsz, place i ≠ .live → arena.Same shared.memory memory i := by
    intro i inside elsewhere
    apply kept i inside
    rw [placed.cell_live inside]
    exact elsewhere
  refine ⟨cells, place, placed, ?_, held.alone, held.unlocked, held.locked, ?_⟩
  · apply held.linked.congr
    intro i there next links
    rcases (placed.listed i).mp there with ⟨inside, listed⟩
    apply links.same (same i inside _)
    rw [listed]
    exact Place.live_ne_listed.symm
  · intro t
    apply (held.relies t).same
    intro i carried
    rcases (placed.carried t i).mp carried with ⟨inside, there⟩
    apply same i inside
    rw [there]
    exact Place.carried_ne_live t

/-! ### From the beginning to what is expected -/

theorem Valid.start (small : arena.arsz < 2 ^ 31) (memory : Memory UInt8) :
    Valid arena (arena.start memory) fun _ : ι => .idle := by
  refine ⟨List.range arena.arsz, fun _ => .listed, ?_, ?_⟩
  · refine ⟨List.nodup_range, ?_, List.nodup_nil, ?_, ?_⟩
    · intro i
      rw [List.mem_range, and_iff_left rfl]
    · intro p
      constructor
      · nofun
      · rintro ⟨-, -, -, ⟨⟩⟩
    · intro t i
      constructor
      · nofun
      · rintro ⟨-, ⟨⟩⟩
  · refine ⟨?_, fun _ _ => nofun, ?_, fun _ => nofun, fun _ => trivial⟩
    · apply linked_range
      intro i inside
      exact Arena.links_construct memory inside small
    · intro _
      cases arena.arsz with
      | zero => rfl
      | succ arsz => rw [List.range_succ_eq_map]; rfl

theorem Held.masked_ff (held : Held arena ff memory points cells)
    (small : head arena.arsz cells < 2 ^ 31) :
    masked ff = BitVec.ofNat 64 (head arena.arsz cells) := by
  by_cases some : ∃ t, (points t).Locked
  · rcases some with ⟨t, there⟩
    rw [held.locked t there, masked_lockBit_or, masked_ofNat small]
  · rw [held.unlocked (not_exists.mp some), masked_ofNat small]

theorem Valid.sound (valid : Valid arena shared points) (small : arena.arsz < 2 ^ 31) :
    Sound arena shared points := by
  rcases valid with ⟨cells, place, placed, held⟩
  refine ⟨?_, placed.once, ?_, ?_, ?_, cells, placed.nodup, held.linked,
    held.masked_ff (placed.head_lt small), ?_⟩
  · intro t nf here
    have relies := held.relies t
    rw [here] at relies
    rcases relies with ⟨i, inside, rfl⟩
    have carries : (points t).carried arena = some i := by
      rw [here]
      exact congrArg some (Arena.index_cell inside)
    refine ⟨⟨i, inside, rfl⟩, ?_⟩
    rw [placed.cell_live inside, ((placed.carried t i).mp carries).2]
    exact Place.carried_ne_live t
  · intro p block
    rcases (placed.live p).mp block with ⟨i, inside, same, -⟩
    exact ⟨i, inside, same⟩
  · intro t u i first second
    have here := ((placed.carried t i).mp first).2
    rw [((placed.carried u i).mp second).2] at here
    cases here
    rfl
  · intro t i carries
    rcases (placed.carried t i).mp carries with ⟨inside, there⟩
    rw [placed.cell_live inside, there]
    exact Place.carried_ne_live t
  · intro i
    rw [placed.listed i]
    constructor
    · rintro ⟨inside, there⟩
      refine ⟨inside, ?_, ?_⟩
      · rw [placed.cell_live inside, there]
        exact Place.live_ne_listed.symm
      · intro t carries
        rw [((placed.carried t i).mp carries).2] at there
        cases there
    · rintro ⟨inside, notLive, notCarried⟩
      refine ⟨inside, ?_⟩
      rw [placed.cell_live inside] at notLive
      cases there : place i with
      | listed => rfl
      | live => exact absurd there notLive
      | carried t => exact absurd ((placed.carried t i).mpr ⟨inside, there⟩) (notCarried t)

theorem Sound.small (sound : Sound arena (arena.start memory) fun _ : ι => .idle) :
    arena.arsz < 2 ^ 31 := by
  by_contra large
  rcases sound.free with ⟨cells, -, linked, -, all⟩
  have first : 0 ∈ cells := by
    rw [all 0]
    exact ⟨by omega, nofun, fun _ => nofun⟩
  rcases linked.exists_stop (List.ne_nil_of_mem first) with ⟨last, -, links⟩
  have bound := @BitVec.toInt_lt 32 (loadInt (arena.start memory).memory
    (arena.cell (BitVec.ofNat 64 last)))
  rw [Arena.Links] at links
  omega

variable [DecidableEq ι]

/-- A step of a thread that has the lock, takes it or gives it up. -/
theorem Held.replace (held : Held arena ff memory points cells)
    (others : ∀ u, u ≠ t → ¬(points u).Locked)
    (linked : Linked (arena.Links memory') arena.arsz cells')
    (unlocked : ¬point.Locked → ff' = BitVec.ofNat 64 (head arena.arsz cells'))
    (locked : point.Locked → ff' = lockBit ||| BitVec.ofNat 64 (head arena.arsz cells'))
    (relies : point.Relies arena memory' cells') :
    Held arena ff' memory' (Function.update points t point) cells' where
  linked := linked
  alone u v first second := by
    have only : ∀ u, (Function.update points t point u).Locked → u = t := by
      intro u there
      by_contra other
      rw [Function.update_of_ne other] at there
      exact others u other there
    rw [only u first, only v second]
  unlocked none := by
    have own := none t
    rw [Function.update_self] at own
    exact unlocked own
  locked u there := by
    by_cases first : u = t
    · subst first
      rw [Function.update_self] at there
      exact locked there
    · rw [Function.update_of_ne first] at there
      exact absurd there (others u first)
  relies u := by
    by_cases first : u = t
    · subst first
      rw [Function.update_self]
      exact relies
    · rw [Function.update_of_ne first]
      exact (held.relies u).of_not_locked (others u first)

theorem Held.stay (held : Held arena ff memory points cells) (before : ¬(points t).Locked)
    (after : ¬point.Locked) (relies : point.Relies arena memory cells) :
    Held arena ff memory (Function.update points t point) cells := by
  have same : ∀ u, (Function.update points t point u).Locked ↔ (points u).Locked := by
    intro u
    by_cases first : u = t
    · subst first
      rw [Function.update_self]
      exact ⟨fun there => absurd there after, fun there => absurd there before⟩
    · rw [Function.update_of_ne first]
  refine ⟨held.linked, ?_, ?_, ?_, ?_⟩
  · intro u v first second
    exact held.alone u v ((same u).mp first) ((same v).mp second)
  · intro none
    exact held.unlocked fun u there => none u ((same u).mpr there)
  · intro u there
    exact held.locked u ((same u).mp there)
  · intro u
    by_cases first : u = t
    · subst first
      rw [Function.update_self]
      exact relies
    · rw [Function.update_of_ne first]
      exact held.relies u

theorem Held.lock (held : Held arena ff memory points cells) (none : ∀ u, ¬(points u).Locked)
    (locks : point.Locked) (relies : point.Relies arena memory cells) :
    Held arena (lockBit ||| ff) memory (Function.update points t point) cells := by
  apply held.replace (fun u _ => none u) held.linked (absurd locks) _ relies
  intro _
  rw [held.unlocked none]

/-! ### Moves -/

theorem Valid.stay (valid : Valid arena shared points) (here : points t = old)
    (before : ¬old.Locked) (after : ¬point.Locked) (same : point.carried arena = old.carried arena)
    (relies : ∀ cells, point.Relies arena shared.memory cells) :
    Valid arena shared (Function.update points t point) := by
  rcases valid with ⟨cells, place, placed, held⟩
  subst here
  exact ⟨cells, place, placed.stay same, held.stay before after (relies cells)⟩

/-- A swap that finds the lock bit not set finds the head of the list. -/
theorem Valid.lock (valid : Valid arena shared points) (small : arena.arsz < 2 ^ 31)
    (here : points t = old) (same : point.carried arena = old.carried arena)
    (unset : masked shared.ff = shared.ff) (locks : point.Locked)
    (relies : ∀ cells, head arena.arsz cells < 2 ^ 31 →
      shared.ff = BitVec.ofNat 64 (head arena.arsz cells) →
        point.Relies arena shared.memory cells) :
    Valid arena { shared with ff := lockBit ||| shared.ff } (Function.update points t point) := by
  rcases valid with ⟨cells, place, placed, held⟩
  subst here
  have none := held.none_locked unset
  refine ⟨cells, place, placed.stay same, held.lock none locks ?_⟩
  exact relies cells (placed.head_lt small) (held.unlocked none)

/-- The first cell has been read: it is taken off the list. -/
theorem Valid.next (valid : Valid arena shared points) (small : arena.arsz < 2 ^ 31)
    {unlockff lockff : Word} (here : points t = .allocNext unlockff lockff) :
    Valid arena (arena.advance shared (.allocNext unlockff lockff)).1
      (Function.update points t (arena.advance shared (.allocNext unlockff lockff)).2) := by
  rcases valid with ⟨cells, place, placed, held⟩
  rcases held.owned here trivial with ⟨others, word, relies⟩
  rcases relies with ⟨rfl, rfl, some⟩
  rcases eq_cons_of_head some with ⟨rest, shape⟩
  generalize head arena.arsz cells = i at shape
  subst shape
  have restLt := placed.rest_lt small
  rw [Arena.advance]
  dsimp only
  rw [held.linked.1.loaded restLt, toInt_ofNat restLt,
    if_neg (Int.not_lt.mpr (Int.natCast_nonneg _))]
  refine ⟨_, place, placed.stay (by rw [here]; rfl), ?_⟩
  refine held.replace others held.linked (absurd trivial) (fun _ => word) ?_
  exact ⟨i, rest, rfl, rfl, rfl, rfl⟩

/-- The link to the head of the list is stored in a cell that is not in it. -/
theorem Valid.store (valid : Valid arena shared points) (small : arena.arsz < 2 ^ 31) {index : ℕ}
    {unlockff lockff : Word} (here : points t = .freeStore index unlockff lockff) :
    Valid arena (arena.advance shared (.freeStore index unlockff lockff)).1
      (Function.update points t (arena.advance shared (.freeStore index unlockff lockff)).2) := by
  rcases valid with ⟨cells, place, placed, held⟩
  rcases held.owned here trivial with ⟨others, word, relies⟩
  rcases relies with ⟨rfl, rfl⟩
  rcases (placed.carried t index).mp (by rw [here]; rfl) with ⟨inside, was⟩
  refine ⟨cells, place, placed.stay (by rw [here]; rfl), ?_⟩
  rw [Arena.advance, setWidth_ofNat]
  refine held.replace others ?_ (absurd trivial) (fun _ => word) ?_
  · apply placed.linked_store held.linked inside
    rw [was]
    exact Place.carried_ne_listed t
  · exact ⟨rfl, Arena.links_stored _ index (placed.head_lt small)⟩

/-- The lock is given up, and the first cell of the list is with the thread. -/
theorem Valid.taken (valid : Valid arena shared points) {nf lockff unlockff : Word}
    (here : points t = .allocUnlock nf lockff unlockff) :
    Valid arena (arena.advance shared (.allocUnlock nf lockff unlockff)).1
      (Function.update points t (arena.advance shared (.allocUnlock nf lockff unlockff)).2) := by
  rcases valid with ⟨cells, place, placed, held⟩
  rcases held.owned here trivial with ⟨others, word, relies⟩
  rcases relies with ⟨i, rest, rfl, rfl, rfl, rfl⟩
  rcases (placed.listed i).mp List.mem_cons_self with ⟨inside, -⟩
  have found : shared.ff = lockBit ||| BitVec.ofNat 64 i := word
  rw [Arena.advance, atomicReplace_eq, if_pos found]
  refine ⟨rest, _, placed.take (by rw [here]; rfl) ?_, ?_⟩
  · exact congrArg some (Arena.index_cell inside)
  · exact held.replace others held.linked.2 (fun _ => rfl) nofun ⟨i, inside, rfl⟩

/-- The lock is given up, and the cell that the thread has had is the first one of the list. -/
theorem Valid.listed (valid : Valid arena shared points) {index : ℕ} {lockff : Word}
    (here : points t = .freeUnlock index lockff) :
    Valid arena (arena.advance shared (.freeUnlock index lockff)).1
      (Function.update points t (arena.advance shared (.freeUnlock index lockff)).2) := by
  rcases valid with ⟨cells, place, placed, held⟩
  rcases held.owned here trivial with ⟨others, word, relies⟩
  rcases relies with ⟨rfl, links⟩
  rw [Arena.advance, atomicReplace_eq, if_pos word]
  refine ⟨index :: cells, _, placed.put (by rw [here]; rfl) rfl, ?_⟩
  exact held.replace others ⟨links, held.linked⟩ (fun _ => rfl) nofun trivial

theorem Valid.given (valid : Valid arena shared points) {nf : Word}
    (here : points t = .allocReturn nf) :
    Valid arena { shared with live := nf :: shared.live } (Function.update points t .idle) := by
  rcases valid with ⟨cells, place, placed, held⟩
  have relies := held.relies t
  rw [here] at relies
  rcases relies with ⟨i, inside, rfl⟩
  refine ⟨cells, _, placed.give ?_ rfl, held.stay (by rw [here]; nofun) nofun trivial⟩
  rw [here]
  exact congrArg some (Arena.index_cell inside)

theorem Valid.called (valid : Valid arena shared points) {p : Word} (here : points t = .idle)
    (block : p ∈ shared.live) :
    Valid arena { shared with live := shared.live.erase p }
      (Function.update points t (.free p)) := by
  rcases valid with ⟨cells, place, placed, held⟩
  rcases (placed.live p).mp block with ⟨i, inside, rfl, was⟩
  refine ⟨cells, _, placed.back inside was (by rw [here]; rfl) (Point.carried_cell inside), ?_⟩
  exact held.stay (by rw [here]; nofun) nofun trivial

theorem Valid.advance (valid : Valid arena shared points) (small : arena.arsz < 2 ^ 31) (t : ι)
    (careful : (points t).Careful arena shared) :
    Valid arena (arena.advance shared (points t)).1
      (Function.update points t (arena.advance shared (points t)).2) := by
  cases here : points t with
  | idle => exact valid.stay here nofun nofun rfl fun _ => trivial
  | alloc =>
      rw [Arena.advance]
      split
      · exact valid.stay here nofun nofun rfl fun _ => trivial
      · exact valid.stay here nofun nofun rfl fun _ => trivial
  | allocFallback => exact valid.stay here nofun nofun rfl fun _ => trivial
  | allocRead => exact valid.stay here nofun nofun rfl fun _ => masked_masked shared.ff
  | allocSwap unlockff =>
      rcases valid.relies here with ⟨_, relies⟩
      rw [Arena.advance, atomicReplace_eq]
      dsimp only
      split
      · rename_i same
        subst same
        refine valid.lock small here rfl relies trivial ?_
        intro cells headLt word
        refine ⟨word, by rw [← word], ?_⟩
        -- what has been tested is an older head; that this one is a cell is the condition
        rw [here] at careful
        have below := careful rfl
        rw [word, toInt_ofNat headLt] at below
        exact Nat.ne_of_lt (Int.ofNat_lt.mp below)
      · exact valid.stay here nofun nofun rfl fun _ => trivial
  | allocNext unlockff lockff => exact valid.next small here
  | allocUnlock nf lockff unlockff => exact valid.taken here
  | allocReturn nf => exact valid.given here
  | free p =>
      rw [Arena.advance]
      split
      · rename_i mine
        exact valid.stay here nofun nofun (Point.carried_free mine).symm fun _ => trivial
      · rename_i foreign
        exact valid.stay here nofun nofun (Point.carried_foreign foreign).symm fun _ => trivial
  | freeRead index => exact valid.stay here nofun nofun rfl fun _ => masked_masked shared.ff
  | freeSwap index unlockff =>
      rcases valid.relies here with ⟨_, relies⟩
      rw [Arena.advance, atomicReplace_eq]
      dsimp only
      split
      · rename_i same
        subst same
        refine valid.lock small here rfl relies trivial ?_
        intro cells headLt word
        exact ⟨word, by rw [← word]⟩
      · exact valid.stay here nofun nofun rfl fun _ => trivial
  | freeStore index unlockff lockff => exact valid.store small here
  | freeUnlock index lockff => exact valid.listed here
  | freeReturn freed => exact valid.stay here nofun nofun rfl fun _ => trivial
  | stopped =>
      rcases valid.relies here with ⟨_, relies⟩
      exact relies.elim

theorem Valid.move {after : Point} {next : Shared} (valid : Valid arena shared points)
    (small : arena.arsz < 2 ^ 31) (t : ι)
    (moves : CarefulMove arena shared (points t) next after) :
    Valid arena next (Function.update points t after) := by
  rcases moves with ⟨careful, moves⟩
  generalize here : points t = old at careful moves
  cases moves with
  | alloc => exact valid.stay here nofun nofun rfl fun _ => trivial
  | free block => exact valid.called here block
  | foreign elsewhere =>
      have none := Point.carried_foreign (Bool.eq_false_iff.mp elsewhere)
      exact valid.stay here nofun nofun none fun _ => trivial
  | access =>
      rw [← here] at careful ⊢
      exact valid.advance small t careful
  | write kept =>
      rw [← here, Function.update_eq_self]
      exact valid.written kept

/-! ### Every run -/

/-- The threads begin with a new arena. -/
abbrev Run (arena : Arena) (move : Shared → Point → Shared → Point → Prop)
    (memory : Memory UInt8) : Shared → (ι → Point) → Prop :=
  Interleaved (fun _ => move) (fun _ _ => True) (arena.start memory) fun _ => .idle

/-- The arena does what is expected of it, whatever the threads do, exactly if its indices are
smaller than the lock bit and no `alloc` locks the empty list. -/
theorem sound_iff (arena : Arena) (memory : Memory UInt8) :
    (∀ shared (points : ι → Point), Run arena (CarefulMove arena) memory shared points →
      Sound arena shared points) ↔ arena.arsz < 2 ^ 31 := by
  constructor
  · intro all
    exact (all _ _ .start).small
  · intro small shared points run
    have valid : Valid arena shared points := by
      apply run.invariant (Valid.start small memory)
      intro t before next points after valid moves _
      exact valid.move small t moves
    exact valid.sound small

end

/-- An arena of one cell. -/
def single : Arena := ⟨8, 1, 0, by decide, by decide⟩

/-- A thread sees that there is a cell, another one takes it, and the first one takes what lies
behind the buffer. -/
theorem not_sound_emptied : ¬∀ shared (points : Bool → Point),
    Run single (Move single) (Memory.fill 0) shared points → Sound single shared points := by
  intro all
  have begun : Run single (Move single) (Memory.fill 0) (single.start (Memory.fill 0))
    fun _ : Bool => .idle := .start
  have seen := (begun.step false .alloc trivial).step false .access trivial
  have locked := (((seen.step true .alloc trivial).step true .access trivial).step
    true .access trivial).step true .access trivial
  have given := ((locked.step true .access trivial).step true .access trivial).step
    true .access trivial
  have returns := (((given.step false .access trivial).step false .access trivial).step
    false .access trivial).step false .access trivial
  rcases ((all _ _ returns).returned false (single.cell 1) rfl).1 with ⟨i, inside, same⟩
  rw [Nat.lt_one_iff.mp inside] at same
  exact absurd same (by decide)

end Imconee.Mem
