import Mathlib.Data.List.Nodup
import Mathlib.Tactic.Common

/-!
# Lists that live in their own cells

Each cell of such a list holds a link to the next one, and the link of the last cell is the mark
at which a walk over the list stops. The list begins where its head says. Cells are taken off
and put on at the head.
-/

set_option autoImplicit false

namespace Imconee.Lib

universe u

namespace FreeList

variable {Cell : Type u} (links : Cell → Cell → Prop) (stop : Cell)

/-- Where a walk over the cells begins. -/
def head (cells : List Cell) : Cell := cells.headD stop

/-- Each of the cells links to the next one. -/
def Linked : List Cell → Prop
  | [] => True
  | cell :: rest => links cell (head stop rest) ∧ Linked rest

variable {links links' : Cell → Cell → Prop} {stop : Cell} {cells : List Cell}

theorem head_mem_or_stop (cells : List Cell) :
    head stop cells ∈ cells ∨ head stop cells = stop := by
  cases cells with
  | nil => exact Or.inr rfl
  | cons cell rest => exact Or.inl List.mem_cons_self

theorem eq_cons_of_head (inside : head stop cells ≠ stop) :
    ∃ rest, cells = head stop cells :: rest := by
  cases cells with
  | nil => exact absurd rfl inside
  | cons cell rest => exact ⟨rest, rfl⟩

theorem Linked.congr (linked : Linked links stop cells)
    (same : ∀ cell ∈ cells, ∀ next, links cell next → links' cell next) :
    Linked links' stop cells := by
  induction cells with
  | nil => trivial
  | cons cell rest ih =>
      constructor
      · exact same cell List.mem_cons_self _ linked.1
      · exact ih linked.2 fun other inside => same other (List.mem_cons_of_mem cell inside)

theorem Linked.exists_stop (linked : Linked links stop cells) (some : cells ≠ []) :
    ∃ cell ∈ cells, links cell stop := by
  induction cells with
  | nil => exact absurd rfl some
  | cons cell rest ih =>
      cases rest with
      | nil => exact ⟨cell, List.mem_cons_self, linked.1⟩
      | cons next others =>
          rcases ih linked.2 (List.cons_ne_nil next others) with ⟨last, inside, links⟩
          exact ⟨last, List.mem_cons_of_mem cell inside, links⟩

theorem linked_range {links : ℕ → ℕ → Prop} {stop : ℕ} (all : ∀ i < stop, links i (i + 1)) :
    Linked links stop (List.range stop) := by
  have rest : ∀ count first, first + count = stop →
      Linked links stop (List.range' first count) := by
    intro count
    induction count with
    | zero => exact fun _ _ => trivial
    | succ count ih =>
        intro first total
        rw [List.range'_succ]
        refine ⟨?_, ih (first + 1) (by omega)⟩
        have next : head stop (List.range' (first + 1) count) = first + 1 := by
          cases count with
          | zero => exact total.symm
          | succ count => rfl
        rw [next]
        exact all first (by omega)
  rw [List.range_eq_range']
  exact rest stop 0 (Nat.zero_add stop)

end FreeList

end Imconee.Lib
