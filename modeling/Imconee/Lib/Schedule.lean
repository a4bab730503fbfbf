import Mathlib.Logic.Relation
import Mathlib.Tactic.Common

/-!
# Schedules

Actors take steps in any order. The steps of different ones commute, and an actor that is
settled has only one step to take. If along one run all actors are settled, and the run ends
where none can go on, then every other run is on its way to the same end, and has no more
steps.
-/

set_option autoImplicit false

namespace Imconee.Lib

universe u v

/-- Actors on a common state. -/
structure Actors (ι : Type u) (State : Type v) where
  step : ι → State → State → Prop
  settled : ι → State → Prop
  alike : ∀ {i s next other}, settled i s → step i s next → step i s other → next = other
  apart : ∀ {i j s next}, i ≠ j → step j s next → (settled i s ↔ settled i next)
  commute : ∀ {i j s next other}, i ≠ j → step i s next → step j s other →
    ∃ joined, step j next joined ∧ step i other joined

namespace Actors

variable {ι : Type u} {State : Type v} (actors : Actors ι State)

/-- A step of some actor. -/
def Moves (s next : State) : Prop := ∃ i, actors.step i s next

/-- Nobody can go on. -/
def Ended (s : State) : Prop := ∀ i next, ¬actors.step i s next

/-- A run of so many steps along which all actors are settled. -/
inductive Leads : ℕ → State → State → Prop where
  | here {s : State} (settled : ∀ i, actors.settled i s) : Leads 0 s s
  | step {s next last : State} {count : ℕ} (i : ι) (settled : ∀ i, actors.settled i s)
      (moves : actors.step i s next) (rest : Leads count next last) : Leads (count + 1) s last

/-- Any run of so many steps. -/
inductive Takes : ℕ → State → State → Prop where
  | here {s : State} : Takes 0 s s
  | step {s next last : State} {count : ℕ} (moves : actors.Moves s next)
      (rest : Takes count next last) : Takes (count + 1) s last

variable {actors}

theorem Leads.settled {count : ℕ} {s last : State} (leads : actors.Leads count s last) :
    ∀ i, actors.settled i s := by
  cases leads with
  | here settled => exact settled
  | step i settled moves rest => exact settled

theorem Leads.takes {count : ℕ} {s last : State} (leads : actors.Leads count s last) :
    actors.Takes count s last := by
  induction leads with
  | here settled => exact .here
  | step i settled moves rest ih => exact .step ⟨i, moves⟩ ih

/-- After any other step there is one step less to go. -/
theorem Leads.after {count : ℕ} {s last next : State} (leads : actors.Leads count s last)
    (ended : actors.Ended last) (moves : actors.Moves s next) :
    ∃ rest, count = rest + 1 ∧ actors.Leads rest next last := by
  induction leads generalizing next with
  | here settled =>
      rcases moves with ⟨i, moves⟩
      exact absurd moves (ended i next)
  | @step s first last count i settled leadsOn rest ih =>
      rcases moves with ⟨j, moves⟩
      by_cases same : i = j
      · subst same
        rw [actors.alike (settled i) moves leadsOn]
        exact ⟨count, rfl, rest⟩
      · rcases actors.commute same leadsOn moves with ⟨joined, later, earlier⟩
        rcases ih ended ⟨j, later⟩ with ⟨fewer, rfl, closing⟩
        refine ⟨fewer + 1, rfl, .step i ?_ earlier closing⟩
        intro k
        by_cases own : k = i
        · subst own
          exact (actors.apart same moves).mp (settled k)
        · exact (actors.apart own earlier).mpr (closing.settled k)

theorem Leads.of_takes {count taken : ℕ} {s last next : State}
    (leads : actors.Leads count s last) (ended : actors.Ended last)
    (takes : actors.Takes taken s next) :
    ∃ rest, count = taken + rest ∧ actors.Leads rest next last := by
  induction takes generalizing count with
  | here => exact ⟨count, by omega, leads⟩
  | step moves rest ih =>
      rcases leads.after ended moves with ⟨fewer, rfl, onward⟩
      rcases ih onward with ⟨left, rfl, closing⟩
      exact ⟨left, by omega, closing⟩

/-- The state ends up there, however the actors are scheduled. -/
def Settles (actors : Actors ι State) (s last : State) : Prop :=
  actors.Ended last ∧ ∃ count, actors.Leads count s last

/-- All runs end in one state, after the same number of steps, and this holds of it. -/
def Always (actors : Actors ι State) (s : State) (holds : State → Prop) : Prop :=
  ∃ last count, actors.Ended last ∧ holds last ∧ ∀ taken next, actors.Takes taken s next →
    ∃ rest, count = taken + rest ∧ actors.Takes rest next last

theorem Settles.always {s last : State} {holds : State → Prop} (settles : actors.Settles s last)
    (there : holds last) : actors.Always s holds := by
  rcases settles with ⟨ended, count, leads⟩
  refine ⟨last, count, ended, there, ?_⟩
  intro taken next takes
  rcases leads.of_takes ended takes with ⟨rest, count, leads⟩
  exact ⟨rest, count, leads.takes⟩

/-- The state settles, and this holds where it does. -/
def Finally (actors : Actors ι State) (s : State) (holds : State → Prop) : Prop :=
  ∃ last, actors.Settles s last ∧ holds last

theorem Finally.always {s : State} {holds : State → Prop} (ends : actors.Finally s holds) :
    actors.Always s holds := by
  rcases ends with ⟨last, settles, there⟩
  exact settles.always there

theorem Settles.always_iff {s last : State} {holds : State → Prop}
    (settles : actors.Settles s last) : actors.Always s holds ↔ holds last := by
  constructor
  · rintro ⟨other, total, ended, there, runs⟩
    rcases settles with ⟨stays, count, leads⟩
    rcases runs count last leads.takes with ⟨rest, -, takes⟩
    cases takes with
    | here => exact there
    | step moves onward =>
        rcases moves with ⟨i, moves⟩
        exact absurd moves (stays i _)
  · exact settles.always

theorem Settles.step {s next last : State} {i : ι} (settles : actors.Settles next last)
    (settled : ∀ i, actors.settled i s) (moves : actors.step i s next) :
    actors.Settles s last := by
  rcases settles with ⟨ended, count, leads⟩
  exact ⟨ended, count + 1, .step i settled moves leads⟩

theorem Settles.settled {s last : State} (settles : actors.Settles s last) :
    ∀ i, actors.settled i s := by
  rcases settles with ⟨-, count, leads⟩
  exact leads.settled

end Actors

end Imconee.Lib
