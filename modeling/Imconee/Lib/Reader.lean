import Mathlib.Data.List.Basic
import Mathlib.Algebra.Order.Group.Nat

/-!
# Incremental readers

A reader looks at the front of the symbols it has buffered. It asks for more, takes a
non-empty front and moves on, or halts. The one law that matters is `look_append`: a
verdict, once reached, does not change when more symbols arrive behind it. From it
follows that a reader cannot tell how its input was cut into segments.
-/

set_option autoImplicit false

namespace Imconee.Lib

universe u v w x

/-- What a reader decides about the symbols it has buffered. -/
inductive Verdict (State : Type u) (Output : Type w) (Halt : Type x) where
  | more
  | take (consumed : ℕ) (next : State) (output : List Output)
  | halt (reason : Halt)

/-- A reader whose verdicts are stable under the arrival of further input. -/
structure Reader (State : Type u) (Symbol : Type v) (Output : Type w) (Halt : Type x) where
  look : State → List Symbol → Verdict State Output Halt
  look_append : ∀ {state buffered} (later : List Symbol),
    look state buffered ≠ .more → look state (buffered ++ later) = look state buffered
  take_bounds : ∀ {state buffered consumed next output},
    look state buffered = .take consumed next output →
      0 < consumed ∧ consumed ≤ buffered.length

/-- Where a reader stands: its state, what it has not consumed, what it has produced, and
why it halted if it did. -/
@[ext]
structure Progress (State : Type u) (Symbol : Type v) (Output : Type w) (Halt : Type x) where
  state : State
  unread : List Symbol
  output : List Output
  halted : Option Halt

namespace Progress

variable {State : Type u} {Symbol : Type v} {Output : Type w} {Halt : Type x}

/-- The same position, after some earlier output. -/
def after (earlier : List Output) (progress : Progress State Symbol Output Halt) :
    Progress State Symbol Output Halt :=
  { progress with output := earlier ++ progress.output }

@[simp]
theorem after_nil (progress : Progress State Symbol Output Halt) :
    progress.after [] = progress := by
  simp [after]

@[simp]
theorem after_after (first second : List Output) (progress : Progress State Symbol Output Halt) :
    (progress.after second).after first = progress.after (first ++ second) := by
  simp [after]

@[simp]
theorem after_state (earlier : List Output) (progress : Progress State Symbol Output Halt) :
    (progress.after earlier).state = progress.state := rfl

@[simp]
theorem after_unread (earlier : List Output) (progress : Progress State Symbol Output Halt) :
    (progress.after earlier).unread = progress.unread := rfl

@[simp]
theorem after_output (earlier : List Output) (progress : Progress State Symbol Output Halt) :
    (progress.after earlier).output = earlier ++ progress.output := rfl

@[simp]
theorem after_halted (earlier : List Output) (progress : Progress State Symbol Output Halt) :
    (progress.after earlier).halted = progress.halted := rfl

end Progress

namespace Reader

variable {State : Type u} {Symbol : Type v} {Output : Type w} {Halt : Type x}
  (reader : Reader State Symbol Output Halt)

/-- Take as long as the verdict is `take`. -/
def drain (state : State) (buffered : List Symbol) : Progress State Symbol Output Halt :=
  match _verdict : reader.look state buffered with
  | .more => ⟨state, buffered, [], none⟩
  | .halt reason => ⟨state, buffered, [], some reason⟩
  | .take consumed next output => (drain next (buffered.drop consumed)).after output
termination_by buffered.length
decreasing_by
  have bounds := reader.take_bounds _verdict
  simp only [List.length_drop]
  omega

variable {reader} {state next : State} {buffered : List Symbol}

theorem drain_of_more (verdict : reader.look state buffered = .more) :
    reader.drain state buffered = ⟨state, buffered, [], none⟩ := by
  rw [drain]
  split <;> simp_all

theorem drain_of_halt {reason : Halt} (verdict : reader.look state buffered = .halt reason) :
    reader.drain state buffered = ⟨state, buffered, [], some reason⟩ := by
  rw [drain]
  split <;> simp_all

theorem drain_of_take {consumed : ℕ} {output : List Output}
    (verdict : reader.look state buffered = .take consumed next output) :
    reader.drain state buffered =
      (reader.drain next (buffered.drop consumed)).after output := by
  rw [drain]
  split <;> simp_all

variable (reader) in
/-- Draining meets one of three cases; the induction principle of every fact about it. -/
theorem drain_induction {motive : State → List Symbol → Prop}
    (more : ∀ state buffered, reader.look state buffered = .more → motive state buffered)
    (halt : ∀ state buffered reason,
      reader.look state buffered = .halt reason → motive state buffered)
    (take : ∀ state buffered consumed next output,
      reader.look state buffered = .take consumed next output →
        motive next (buffered.drop consumed) → motive state buffered)
    (state : State) (buffered : List Symbol) : motive state buffered := by
  induction size : buffered.length using Nat.strongRecOn generalizing state buffered with
  | _ size ih =>
      cases verdict : reader.look state buffered with
      | more => exact more state buffered verdict
      | halt reason => exact halt state buffered reason verdict
      | take consumed next output =>
          have bounds := reader.take_bounds verdict
          refine take state buffered consumed next output verdict ?_
          refine ih (buffered.length - consumed) (by omega) next _ ?_
          simp

/-- A reader that has not halted has taken everything it could. -/
theorem look_drain_of_not_halted (running : (reader.drain state buffered).halted = none) :
    reader.look (reader.drain state buffered).state (reader.drain state buffered).unread =
      .more := by
  induction state, buffered using drain_induction reader with
  | more state buffered verdict => simpa [drain_of_more verdict] using verdict
  | halt state buffered reason verdict => simp [drain_of_halt verdict] at running
  | take state buffered consumed next output verdict ih =>
      rw [drain_of_take verdict] at running ⊢
      exact ih running

/-- Input behind the place where a reader halts stays unread. -/
theorem drain_append_of_halted {reason : Halt} (later : List Symbol)
    (halted : (reader.drain state buffered).halted = some reason) :
    reader.drain state (buffered ++ later) =
      { reader.drain state buffered with
        unread := (reader.drain state buffered).unread ++ later } := by
  induction state, buffered using drain_induction reader with
  | more state buffered verdict => simp [drain_of_more verdict] at halted
  | halt state buffered reason verdict =>
      have stable : reader.look state (buffered ++ later) = .halt reason := by
        rw [reader.look_append later (by simp [verdict]), verdict]
      simp [drain_of_halt verdict, drain_of_halt stable]
  | take state buffered consumed next output verdict ih =>
      have bounds := reader.take_bounds verdict
      have stable : reader.look state (buffered ++ later) = .take consumed next output := by
        rw [reader.look_append later (by simp [verdict]), verdict]
      rw [drain_of_take verdict] at halted ⊢
      rw [drain_of_take stable, List.drop_append_of_le_length bounds.2, ih halted]
      simp [Progress.after]

/-- A reader that has not halted goes on with what it left unread. -/
theorem drain_append_of_running (later : List Symbol)
    (running : (reader.drain state buffered).halted = none) :
    reader.drain state (buffered ++ later) =
      (reader.drain (reader.drain state buffered).state
        ((reader.drain state buffered).unread ++ later)).after
          (reader.drain state buffered).output := by
  induction state, buffered using drain_induction reader with
  | more state buffered verdict => simp [drain_of_more verdict]
  | halt state buffered reason verdict => simp [drain_of_halt verdict] at running
  | take state buffered consumed next output verdict ih =>
      have bounds := reader.take_bounds verdict
      have stable : reader.look state (buffered ++ later) = .take consumed next output := by
        rw [reader.look_append later (by simp [verdict]), verdict]
      rw [drain_of_take verdict] at running ⊢
      rw [drain_of_take stable, List.drop_append_of_le_length bounds.2, ih running]
      simp

end Reader

end Imconee.Lib
