import Mathlib.Data.Nat.Init
import Mathlib.Logic.Relation
import Mathlib.Tactic.Common

/-!
# Fairness

Endless runs of threads on a common state. A thread is treated fairly if it is not kept from
moving for ever while it could. If in every state some thread can help, so that a rank falls
with its step while the others neither raise the rank nor take the help away, then a run that
is fair to the helpers reaches its goal.
-/

set_option autoImplicit false

namespace Imconee.Lib

universe u v

/-- An endless run: at each time somebody takes a step, or nobody does. -/
structure Trace {Thread : Type u} {State : Type v} (step : Thread → State → State → Prop) where
  state : ℕ → State
  mover : ℕ → Option Thread
  stays : ∀ n, mover n = none → state (n + 1) = state n
  moves : ∀ n thread, mover n = some thread → step thread (state n) (state (n + 1))

/-- The thread can take a step. -/
def Enabled {Thread : Type u} {State : Type v} (step : Thread → State → State → Prop)
    (thread : Thread) (s : State) : Prop :=
  ∃ next, step thread s next

namespace Trace

variable {Thread : Type u} {State : Type v} {step : Thread → State → State → Prop}

/-- The thread moves again and again, if it does not find itself unable to. -/
def Fair (trace : Trace step) (thread : Thread) : Prop :=
  ∀ n, ∃ m, n ≤ m ∧ (trace.mover m = some thread ∨ ¬Enabled step thread (trace.state m))

/-- What steps keep holds from some time on. -/
theorem invariant (trace : Trace step) {holds : State → Prop} {start : ℕ}
    (first : holds (trace.state start))
    (keeps : ∀ thread s next, holds s → step thread s next → holds next) :
    ∀ n, start ≤ n → holds (trace.state n) := by
  intro n later
  induction n, later using Nat.le_induction with
  | base => exact first
  | succ n later ih =>
      cases mover : trace.mover n with
      | none => exact trace.stays n mover ▸ ih
      | some thread => exact keeps thread _ _ ih (trace.moves n thread mover)

/-- A run in which nothing happens -/
def still (s : State) : Trace step where
  state _ := s
  mover _ := none
  stays _ _ := rfl
  moves _ _ never := by cases never

/-- A run with a step before it -/
def after (trace : Trace step) (s : State) (thread : Thread)
    (first : step thread s (trace.state 0)) : Trace step where
  state n := n.casesOn s trace.state
  mover n := n.casesOn (some thread) trace.mover
  stays n rests := by
    cases n with
    | zero => cases rests
    | succ n => exact trace.stays n rests
  moves n other turn := by
    cases n with
    | zero =>
        rcases Option.some.inj turn with rfl
        exact first
    | succ n => exact trace.moves n other turn

/-- A run can have a finite run before it. -/
theorem exists_of_before (trace : Trace step) {s : State}
    (run : Relation.ReflTransGen (fun s next => ∃ thread, step thread s next) s (trace.state 0)) :
    ∃ whole : Trace step, whole.state 0 = s ∧
      ∃ n, ∀ m, whole.state (n + m) = trace.state m := by
  induction run using Relation.ReflTransGen.head_induction_on with
  | refl => exact ⟨trace, rfl, 0, fun m => by rw [Nat.zero_add]⟩
  | head first _ ih =>
      rcases first with ⟨thread, steps⟩
      rcases ih with ⟨whole, rfl, n, same⟩
      refine ⟨whole.after _ thread steps, rfl, n + 1, ?_⟩
      intro m
      rw [Nat.add_right_comm]
      exact same m

/-- After a finite run nothing more may happen. -/
theorem exists_of_finite {s last : State}
    (run : Relation.ReflTransGen (fun s next => ∃ thread, step thread s next) s last) :
    ∃ trace : Trace step, trace.state 0 = s ∧ ∃ n, ∀ m, n ≤ m → trace.state m = last := by
  rcases exists_of_before (still last) run with ⟨trace, start, n, rests⟩
  refine ⟨trace, start, n, fun m later => ?_⟩
  rw [← Nat.add_sub_of_le later]
  exact rests (m - n)

/-- It is fair to a thread that is unable to move in the end. -/
theorem fair_of_rests {trace : Trace step} {thread : Thread} {last : State} {n : ℕ}
    (rests : ∀ m, n ≤ m → trace.state m = last) (unable : ¬Enabled step thread last) :
    trace.Fair thread := by
  intro k
  refine ⟨max n k, Nat.le_max_right n k, .inr ?_⟩
  rw [rests _ (Nat.le_max_left n k)]
  exact unable

/-- A way to the goal -/
structure Way (step : Thread → State → State → Prop) (holds goal : State → Prop) where
  rank : State → ℕ
  helper : State → Thread
  enabled : ∀ s, holds s → ¬goal s → Enabled step (helper s) s
  falls : ∀ thread s next, holds s → ¬goal s → step thread s next →
    rank next < rank s ∨ thread ≠ helper s ∧ rank next = rank s ∧ helper next = helper s

variable {holds goal : State → Prop}

/-- Up to any time the goal has been reached, the rank has fallen, or the same thread helps. -/
theorem helped (trace : Trace step) (way : Way step holds goal) {start : ℕ}
    (always : ∀ n, start ≤ n → holds (trace.state n)) :
    ∀ n, start ≤ n →
      (∃ m, start ≤ m ∧ goal (trace.state m)) ∨
      (∃ m, start ≤ m ∧ way.rank (trace.state m) < way.rank (trace.state start)) ∨
      way.rank (trace.state n) = way.rank (trace.state start) ∧
        way.helper (trace.state n) = way.helper (trace.state start) := by
  intro n later
  induction n, later using Nat.le_induction with
  | base => exact .inr (.inr ⟨rfl, rfl⟩)
  | succ n later ih =>
      rcases ih with reached | fallen | ⟨rank, helper⟩
      · exact .inl reached
      · exact .inr (.inl fallen)
      by_cases reached : goal (trace.state n)
      · exact .inl ⟨n, later, reached⟩
      cases mover : trace.mover n with
      | none =>
          rw [trace.stays n mover]
          exact .inr (.inr ⟨rank, helper⟩)
      | some thread =>
          rcases way.falls thread _ _ (always n later) reached (trace.moves n thread mover) with
            falls | ⟨_, sameRank, sameHelper⟩
          · exact .inr (.inl ⟨n + 1, by omega, rank ▸ falls⟩)
          · exact .inr (.inr ⟨sameRank.trans rank, sameHelper.trans helper⟩)

/-- The goal is reached. -/
theorem reaches (trace : Trace step) (way : Way step holds goal) {start : ℕ}
    (always : ∀ n, start ≤ n → holds (trace.state n))
    (fair : ∀ s, holds s → ¬goal s → trace.Fair (way.helper s)) :
    ∃ n, start ≤ n ∧ goal (trace.state n) := by
  generalize level : way.rank (trace.state start) = rank
  induction rank using Nat.strongRecOn generalizing start with
  | ind rank ih =>
      -- below this rank the goal is reached, so it is enough that the rank falls
      have lower : ∀ m, start ≤ m → way.rank (trace.state m) < way.rank (trace.state start) →
          ∃ n, start ≤ n ∧ goal (trace.state n) := by
        intro m later falls
        rcases ih _ (level ▸ falls) (fun n from_m => always n (Nat.le_trans later from_m)) rfl with
          ⟨n, from_m, reached⟩
        exact ⟨n, Nat.le_trans later from_m, reached⟩
      by_cases here : goal (trace.state start)
      · exact ⟨start, Nat.le_refl start, here⟩
      rcases fair _ (always start (Nat.le_refl _)) here start with ⟨m, later, turn⟩
      rcases trace.helped way always m later with reached | ⟨n, after, fallen⟩ | ⟨rank', helper⟩
      · exact reached
      · exact lower n after fallen
      by_cases reached : goal (trace.state m)
      · exact ⟨m, later, reached⟩
      have able := way.enabled _ (always m later) reached
      rw [helper] at able
      have moves : trace.mover m = some (way.helper (trace.state start)) :=
        turn.resolve_right fun unable => unable able
      rcases way.falls _ _ _ (always m later) reached (trace.moves m _ moves) with
        falls | ⟨other, _, _⟩
      · exact lower (m + 1) (by omega) (rank' ▸ falls)
      · exact absurd helper.symm other

end Trace

end Imconee.Lib
