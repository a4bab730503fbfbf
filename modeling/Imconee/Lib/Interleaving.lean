import Mathlib.Algebra.BigOperators.Group.Finset.Basic
import Mathlib.Data.Fintype.Basic
import Mathlib.Logic.Function.Basic
import Mathlib.Tactic.Common

/-!
# Interleavings

Threads with states of their own share a state. At each step one of them moves, and what all
threads do in any order is a run. Some states are not met: those in which a bound on which the
threads rely has been exceeded.
-/

set_option autoImplicit false

namespace Imconee.Lib

universe u v w

variable {ι : Type u} {Shared : Type v} {Local : Type w} [DecidableEq ι]

/-- The states that the threads come to from some state. -/
inductive Interleaved (move : ι → Shared → Local → Shared → Local → Prop)
    (met : Shared → (ι → Local) → Prop) (start : Shared) (locals₀ : ι → Local) :
    Shared → (ι → Local) → Prop where
  | start : Interleaved move met start locals₀ start locals₀
  | step {shared next : Shared} {locals : ι → Local} {after : Local} (thread : ι)
      (run : Interleaved move met start locals₀ shared locals)
      (moves : move thread shared (locals thread) next after)
      (bounded : met next (Function.update locals thread after)) :
      Interleaved move met start locals₀ next (Function.update locals thread after)

namespace Interleaved

variable {move : ι → Shared → Local → Shared → Local → Prop}
  {met : Shared → (ι → Local) → Prop} {start shared : Shared} {locals₀ locals : ι → Local}

theorem met_of_start (run : Interleaved move met start locals₀ shared locals)
    (first : met start locals₀) : met shared locals := by
  cases run with
  | start => exact first
  | step thread run moves bounded => exact bounded

/-- What holds at the beginning, and is kept by each move, holds in every state. -/
theorem invariant {inv : Shared → (ι → Local) → Prop} (first : inv start locals₀)
    (kept : ∀ {thread shared next locals after}, inv shared locals →
      move thread shared (locals thread) next after →
      met next (Function.update locals thread after) →
      inv next (Function.update locals thread after))
    (run : Interleaved move met start locals₀ shared locals) : inv shared locals := by
  induction run with
  | start => exact first
  | step thread run moves bounded ih => exact kept ih moves bounded

end Interleaved

theorem sum_update [Fintype ι] (f : Local → ℕ) (locals : ι → Local) (thread : ι) (after : Local) :
    (∑ i, f (Function.update locals thread after i)) + f (locals thread) =
      (∑ i, f (locals i)) + f after := by
  rw [← Finset.add_sum_erase _ _ (Finset.mem_univ thread),
    ← Finset.add_sum_erase _ (fun i => f (locals i)) (Finset.mem_univ thread),
    Function.update_self]
  have others : ∑ i ∈ Finset.univ.erase thread, f (Function.update locals thread after i) =
      ∑ i ∈ Finset.univ.erase thread, f (locals i) := by
    apply Finset.sum_congr rfl
    intro i other
    rw [Function.update_of_ne (Finset.ne_of_mem_erase other)]
  rw [others]
  omega

end Imconee.Lib
