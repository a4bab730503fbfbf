import Mathlib.Data.List.Basic
import Mathlib.Tactic.Common

/-!
# Computations that take their input in pieces

An object is fed with pieces of any length and asked for an answer now and then; it then
starts again. It computes a function if each answer is the value of that function at what
has been fed since the last one. `none` is a failure.
-/

set_option autoImplicit false

namespace Imconee.Lib

universe u v w

structure BufferedComputation (τ : Type v) (α : Type u) (β : Type w) where
  update : τ → List α → Option τ
  final : τ → Option (β × τ)

namespace BufferedComputation

inductive Request (α : Type u) where
  | update (input : List α)
  | final

variable {τ : Type v} {α : Type u} {β : Type w}

/-- The answers to requests, one after another -/
def serve (machine : BufferedComputation τ α β) :
    τ → List (Request α) → Option (List β × τ)
  | object, [] => some ([], object)
  | object, .update input :: requests =>
      (machine.update object input).bind fun next => machine.serve next requests
  | object, .final :: requests =>
      (machine.final object).bind fun answered =>
        (machine.serve answered.2 requests).map fun served => (answered.1 :: served.1, served.2)

/-- What the answers are if `pending` has been fed already -/
def answers (f : List α → β) : List α → List (Request α) → List β
  | _, [] => []
  | pending, .update input :: requests => answers f (pending ++ input) requests
  | pending, .final :: requests => f pending :: answers f [] requests

/-- The object behind that has been fed with `pending` since its last answer. -/
structure Computes (machine : BufferedComputation τ α β) (f : List α → β)
    (Holds : τ → List α → Prop) : Prop where
  fed : ∀ {object : τ} {pending : List α}, Holds object pending → ∀ input : List α,
    ∃ next, machine.update object input = some next ∧ Holds next (pending ++ input)
  answered : ∀ {object : τ} {pending : List α}, Holds object pending →
    ∃ next, machine.final object = some (f pending, next) ∧ Holds next []

variable {machine : BufferedComputation τ α β} {f : List α → β}
  {Holds : τ → List α → Prop}

/-- Every answer is the value at what has been fed since the one before. -/
theorem Computes.serve (computes : machine.Computes f Holds) {object : τ} {pending : List α}
    (holds : Holds object pending) (requests : List (Request α)) :
    ∃ last, machine.serve object requests = some (answers f pending requests, last) := by
  induction requests generalizing object pending with
  | nil => exact ⟨object, rfl⟩
  | cons request requests ih =>
      cases request with
      | update input =>
          rcases computes.fed holds input with ⟨next, updated, next_holds⟩
          rcases ih next_holds with ⟨last, served⟩
          refine ⟨last, ?_⟩
          simp only [BufferedComputation.serve, updated, Option.bind_some, served, answers]
      | final =>
          rcases computes.answered holds with ⟨next, answer, next_holds⟩
          rcases ih next_holds with ⟨last, served⟩
          refine ⟨last, ?_⟩
          simp only [BufferedComputation.serve, answer, Option.bind_some, served,
            Option.map_some, answers]

end BufferedComputation

end Imconee.Lib
