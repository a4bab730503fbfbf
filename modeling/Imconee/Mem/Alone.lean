import Imconee.Mem.Threads

/-!
# The arena with one thread

With nobody else there, no swap fails, and a call comes back after a few steps. What it does to
the list is what the same steps do among other threads.
-/

set_option autoImplicit false

namespace Imconee.Mem

open Lib Lib.FreeList

/-- The call is about to return. -/
def Point.Returned : Point → Bool
  | allocFallback => true
  | allocReturn _ => true
  | freeReturn _ => true
  | _ => false

/-- A call from `point` on: the state in which it returns, unless it has not done so after so
many steps. -/
def Arena.call (arena : Arena) : ℕ → Shared → Point → Option (Shared × Point)
  | 0, shared, point => if point.Returned then some (shared, point) else none
  | fuel + 1, shared, point =>
      if point.Returned then some (shared, point)
      else arena.call fuel (arena.advance shared point).1 (arena.advance shared point).2

/-- The longest way through `alloc` and through `free`. -/
def Arena.steps : ℕ := 5

namespace Arena

variable {arena : Arena} {memory : Memory UInt8} {live : List Word} {i next : ℕ}

theorem call_alloc_empty (small : arena.arsz < 2 ^ 31) :
    arena.call steps ⟨BitVec.ofNat 64 arena.arsz, memory, live⟩ .alloc =
      some (⟨BitVec.ofNat 64 arena.arsz, memory, live⟩, .allocFallback) := by
  have none : ¬(masked (BitVec.ofNat 64 arena.arsz)).toInt < arena.arsz := by
    rw [masked_ofNat small, toInt_ofNat small]
    exact Int.lt_irrefl _
  have step : arena.advance ⟨BitVec.ofNat 64 arena.arsz, memory, live⟩ .alloc =
      (⟨BitVec.ofNat 64 arena.arsz, memory, live⟩, .allocFallback) := by
    rw [advance, if_neg none]
  rw [steps, call, if_neg (by decide), step]
  rfl

theorem call_alloc (small : arena.arsz < 2 ^ 31) (inside : i < arena.arsz)
    (links : arena.Links memory i next) (nextLt : next < 2 ^ 31) :
    arena.call steps ⟨BitVec.ofNat 64 i, memory, live⟩ .alloc =
      some (⟨BitVec.ofNat 64 next, memory, live⟩,
        .allocReturn (arena.cell (BitVec.ofNat 64 i))) := by
  have iLt := Nat.lt_trans inside small
  have mask := masked_ofNat iLt
  have some : (BitVec.ofNat 64 i).toInt < arena.arsz := by
    rw [toInt_ofNat iLt]
    exact Int.ofNat_lt.mpr inside
  have fine : ¬(BitVec.ofNat 64 next).toInt < 0 := by
    rw [toInt_ofNat nextLt]
    exact Int.not_lt.mpr (Int.natCast_nonneg _)
  simp only [steps, call, Point.Returned, advance, mask, some, links.loaded nextLt, fine,
    atomicReplace_eq, if_true, if_false, Bool.false_eq_true]

theorem call_free {p : Word} (mine : arena.here p = true) (nextLt : next < 2 ^ 31) :
    arena.call steps ⟨BitVec.ofNat 64 next, memory, live⟩ (.free p) =
      some (⟨BitVec.ofNat 64 (arena.index p),
        storeInt memory (arena.cell (BitVec.ofNat 64 (arena.index p))) (BitVec.ofNat 32 next),
        live⟩, .freeReturn true) := by
  simp only [steps, call, Point.Returned, advance, mine, masked_ofNat nextLt, setWidth_ofNat,
    atomicReplace_eq, if_true, if_false, Bool.false_eq_true]

theorem call_foreign {p : Word} (foreign : arena.here p = false) (shared : Shared) :
    arena.call steps shared (.free p) = some (shared, .freeReturn false) := by
  simp only [steps, call, Point.Returned, advance, foreign, if_true, if_false, Bool.false_eq_true]

end Arena

/-- The only thread is not at work. -/
abbrev Quiet (arena : Arena) (shared : Shared) : Prop := Valid arena shared fun _ : Unit => .idle

theorem update_unit (points : Unit → Point) :
    Function.update points () .idle = fun _ => .idle :=
  funext fun _ => Function.update_self () Point.idle points

section

variable {arena : Arena} {ff : Word} {memory : Memory UInt8} {live : List Word}

theorem Quiet.opened (quiet : Quiet arena ⟨ff, memory, live⟩) : ∃ cells place,
    Placed arena live (fun _ : Unit => .idle) cells place ∧
      Held arena ff memory (fun _ : Unit => .idle) cells ∧
      ff = BitVec.ofNat 64 (head arena.arsz cells) := by
  rcases quiet with ⟨cells, place, placed, held⟩
  exact ⟨cells, place, placed, held, held.unlocked fun _ => nofun⟩

/-- `alloc` gives out a cell that is not in use, or leaves everything as it is. -/
theorem Quiet.alloc (quiet : Quiet arena ⟨ff, memory, live⟩) (small : arena.arsz < 2 ^ 31) :
    (∀ ghost, arena.call Arena.steps ⟨ff, memory, ghost⟩ .alloc =
      some (⟨ff, memory, ghost⟩, .allocFallback)) ∨
    ∃ i < arena.arsz, ∃ ff', arena.cell (BitVec.ofNat 64 i) ∉ live ∧
      Quiet arena ⟨ff', memory, arena.cell (BitVec.ofNat 64 i) :: live⟩ ∧
      ∀ ghost, arena.call Arena.steps ⟨ff, memory, ghost⟩ .alloc =
        some (⟨ff', memory, ghost⟩, .allocReturn (arena.cell (BitVec.ofNat 64 i))) := by
  rcases quiet.opened with ⟨cells, place, placed, held, rfl⟩
  cases cells with
  | nil =>
      left
      exact fun _ => Arena.call_alloc_empty small
  | cons i rest =>
      right
      rcases (placed.listed i).mp List.mem_cons_self with ⟨inside, was⟩
      refine ⟨i, inside, BitVec.ofNat 64 (head arena.arsz rest), ?_, ?_, ?_⟩
      · rw [placed.cell_live inside, was]
        exact Place.live_ne_listed.symm
      · have taken : Valid arena ⟨BitVec.ofNat 64 (head arena.arsz rest), memory, live⟩
            (Function.update (fun _ : Unit => .idle) ()
              (.allocReturn (arena.cell (BitVec.ofNat 64 i)))) := by
          refine ⟨rest, _, placed.take rfl ?_, ?_⟩
          · exact congrArg some (Arena.index_cell inside)
          · exact held.replace (fun _ _ => nofun) held.linked.2 (fun _ => rfl) nofun
              ⟨i, inside, rfl⟩
        have given := taken.given (Function.update_self _ _ _)
        rw [update_unit] at given
        exact given
      · intro ghost
        exact Arena.call_alloc small inside held.linked.1 (placed.rest_lt small)

theorem Quiet.free (quiet : Quiet arena ⟨ff, memory, live⟩) (small : arena.arsz < 2 ^ 31) {p : Word}
    (block : p ∈ live) : ∃ ff' value, Quiet arena ⟨ff', storeInt memory p value, live.erase p⟩ ∧
      ∀ ghost, arena.call Arena.steps ⟨ff, memory, ghost⟩ (.free p) =
        some (⟨ff', storeInt memory p value, ghost⟩, .freeReturn true) := by
  rcases quiet.opened with ⟨cells, place, placed, held, rfl⟩
  rcases (placed.live p).mp block with ⟨i, inside, rfl, was⟩
  have headLt := placed.head_lt small
  refine ⟨BitVec.ofNat 64 i, BitVec.ofNat 32 (head arena.arsz cells), ?_, ?_⟩
  · have carries := Point.carried_cell inside
    have called := @Placed.back _ _ _ _ _ _ () _ _ _ placed inside was rfl carries
    have listed := @Placed.put _ _ _ _ _ _ () .idle i _ called
      (by rw [Function.update_self]; exact carries) rfl
    have linked : Linked (arena.Links (storeInt memory (arena.cell (BitVec.ofNat 64 i))
        (BitVec.ofNat 32 (head arena.arsz cells)))) arena.arsz (i :: cells) := by
      refine ⟨Arena.links_stored memory i headLt, placed.linked_store held.linked inside ?_ _⟩
      rw [was]
      exact Place.live_ne_listed
    have opened : Held arena (BitVec.ofNat 64 i) _
        (Function.update (fun _ : Unit => .idle) () .idle) (i :: cells) :=
      held.replace (fun _ _ => nofun) linked (fun _ => rfl) nofun trivial
    rw [update_unit] at listed opened
    exact ⟨i :: cells, _, listed, opened⟩
  · intro ghost
    rw [Arena.call_free (Arena.here_cell inside) headLt, Arena.index_cell inside]

end

end Imconee.Mem
