import Mathlib.Tactic.Common

/-!
# Machines in lockstep

A machine and a model of it take the same operations one after the other. What relates the
two at the start and is kept by every operation that is allowed relates them ever after.
-/

set_option autoImplicit false

namespace Imconee.Lib

universe u v w

variable {Op : Type u} {State : Type v} {Model : Type w}

/-- What a machine and its model come to; an operation may depend on where the machine is. -/
inductive Lockstep (allowed : State → Op → Prop) (step : State → Op → State)
    (refer : Model → Op → Model) (first : State) (origin : Model) : State → Model → Prop where
  | start : Lockstep allowed step refer first origin first origin
  | step {state : State} {model : Model}
      (run : Lockstep allowed step refer first origin state model) (op : Op)
      (fine : allowed state op) :
      Lockstep allowed step refer first origin (step state op) (refer model op)

theorem Lockstep.related {allowed : State → Op → Prop} {step : State → Op → State}
    {refer : Model → Op → Model} {first state : State} {origin model : Model}
    {related : State → Model → Prop} (starts : related first origin)
    (keeps : ∀ state model op, related state model → allowed state op →
      related (step state op) (refer model op))
    (run : Lockstep allowed step refer first origin state model) : related state model := by
  induction run with
  | start => exact starts
  | step run op fine ih =>
      apply keeps
      · exact ih
      · exact fine

end Imconee.Lib
