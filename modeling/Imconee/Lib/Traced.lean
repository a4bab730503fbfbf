import Mathlib.Tactic.Common

/-!
# Programs that leave a trace

A program looks at the cells of a memory and leaves a trace of what it does, or it does not come
to its end. Total correctness has the usual rules; beside the value it is about the trace, of
which a law must hold for the empty one and for two of them in a row.
-/

set_option autoImplicit false

namespace Imconee.Lib

/-- The value and the trace; none if the program has been stopped. -/
def Traced (Memory Event α : Type) : Type := Memory → Option (α × List Event)

namespace Traced

variable {Memory Event α β : Type}

instance : Monad (Traced Memory Event) where
  pure a := fun _ => some (a, [])
  bind x f := fun memory =>
    match x memory with
    | none => none
    | some (a, first) =>
        match f a memory with
        | none => none
        | some (b, second) => some (b, first ++ second)

/-- The program has been stopped. -/
def stuck : Traced Memory Event α := fun _ => none

/-- What is found in the memory, with the trace of finding it -/
def look (found : Memory → α) (events : List Event) : Traced Memory Event α :=
  fun memory => some (found memory, events)

def mark (event : Event) : Traced Memory Event Unit := look (fun _ => ()) [event]

/-- What a trace obeys. -/
structure Law (Event : Type) where
  holds : List Event → Prop
  nil : holds []
  append : ∀ {first second}, holds first → holds second → holds (first ++ second)

/-- The program comes to its end with a value, and with a trace that obeys the law. -/
def Meets (law : Law Event) (memory : Memory) (x : Traced Memory Event α) (post : α → Prop) :
    Prop :=
  ∃ a trace, x memory = some (a, trace) ∧ law.holds trace ∧ post a

variable {law : Law Event} {memory : Memory} {x : Traced Memory Event α}
  {f : α → Traced Memory Event β} {post : α → Prop} {after : β → Prop}

theorem Meets.pure {a : α} (holds : post a) :
    Meets law memory (Pure.pure a : Traced Memory Event α) post :=
  ⟨a, [], rfl, law.nil, holds⟩

theorem Meets.look {found : Memory → α} {events : List Event} (obeys : law.holds events)
    (holds : post (found memory)) : Meets law memory (Traced.look found events) post :=
  ⟨found memory, events, rfl, obeys, holds⟩

theorem bind_eq_some {a : α} {b : β} {first second : List Event}
    (run : x memory = some (a, first)) (runs : f a memory = some (b, second)) :
    (x >>= f) memory = some (b, first ++ second) := by
  change (match x memory with | none => none | some (a, first) => _) = _
  rw [run]
  dsimp only
  rw [runs]

theorem Meets.bind (first : Meets law memory x post)
    (next : ∀ a, post a → Meets law memory (f a) after) : Meets law memory (x >>= f) after := by
  rcases first with ⟨a, trace, run, obeys, holds⟩
  rcases next a holds with ⟨b, rest, runs, obeysRest, holdsAfter⟩
  exact ⟨b, trace ++ rest, bind_eq_some run runs, law.append obeys obeysRest, holdsAfter⟩

theorem Meets.mono {weaker : α → Prop} (meets : Meets law memory x post)
    (implies : ∀ a, post a → weaker a) : Meets law memory x weaker := by
  rcases meets with ⟨a, trace, run, obeys, holds⟩
  exact ⟨a, trace, run, obeys, implies a holds⟩

theorem Meets.ite {p : Prop} [Decidable p] {y : Traced Memory Event α}
    (yes : p → Meets law memory x post) (no : ¬p → Meets law memory y post) :
    Meets law memory (if p then x else y) post := by
  split
  · rename_i holds
    exact yes holds
  · rename_i fails
    exact no fails

/-! ### Without the trace -/

/-- The program comes to its end with this value. -/
def Gives (memory : Memory) (x : Traced Memory Event α) (a : α) : Prop :=
  ∃ trace, x memory = some (a, trace)

/-- If the program comes to its end, its value is such a one. -/
def Keeps (memory : Memory) (x : Traced Memory Event α) (post : α → Prop) : Prop :=
  ∀ a, Gives memory x a → post a

theorem Meets.gives (meets : Meets law memory x post) : ∃ a, Gives memory x a ∧ post a := by
  rcases meets with ⟨a, trace, run, -, holds⟩
  exact ⟨a, ⟨trace, run⟩, holds⟩

theorem Gives.pure (a : α) : Gives memory (Pure.pure a : Traced Memory Event α) a := ⟨[], rfl⟩

theorem Gives.look (found : Memory → α) (events : List Event) :
    Gives memory (Traced.look found events) (found memory) := ⟨events, rfl⟩

theorem Gives.bind {a : α} {b : β} (first : Gives memory x a) (next : Gives memory (f a) b) :
    Gives memory (x >>= f) b := by
  rcases first with ⟨trace, run⟩
  rcases next with ⟨rest, runs⟩
  exact ⟨trace ++ rest, bind_eq_some run runs⟩

theorem Gives.unique {a b : α} (first : Gives memory x a) (second : Gives memory x b) : a = b := by
  rcases first with ⟨trace, run⟩
  rcases second with ⟨other, runs⟩
  rw [run] at runs
  simp only [Option.some.injEq, Prod.mk.injEq] at runs
  exact runs.1

theorem Gives.of_bind {b : β} (gives : Gives memory (x >>= f) b) :
    ∃ a, Gives memory x a ∧ Gives memory (f a) b := by
  rcases gives with ⟨trace, run⟩
  change (match x memory with | none => none | some (a, first) => _) = _ at run
  rcases first : x memory with _ | ⟨a, events⟩
  · simp [first] at run
  · simp only [first] at run
    rcases next : f a memory with _ | ⟨c, rest⟩
    · simp [next] at run
    · simp only [next, Option.some.injEq, Prod.mk.injEq] at run
      exact ⟨a, ⟨events, first⟩, rest, by rw [next, run.1]⟩

theorem Keeps.stuck : Keeps memory (stuck : Traced Memory Event α) post := by
  rintro a ⟨trace, run⟩
  cases run

theorem Keeps.pure {a : α} (holds : post a) :
    Keeps memory (Pure.pure a : Traced Memory Event α) post := by
  intro b gives
  rwa [← (Gives.pure a).unique gives]

theorem Keeps.bind (next : ∀ a, Keeps memory (f a) after) : Keeps memory (x >>= f) after := by
  intro b gives
  rcases gives.of_bind with ⟨a, -, gives⟩
  exact next a b gives

theorem Keeps.bind_of (first : Keeps memory x post)
    (next : ∀ a, post a → Keeps memory (f a) after) : Keeps memory (x >>= f) after := by
  intro b gives
  rcases gives.of_bind with ⟨a, found, gives⟩
  exact next a (first a found) b gives

theorem Keeps.ite {p : Prop} [Decidable p] {y : Traced Memory Event α}
    (yes : p → Keeps memory x post) (no : ¬p → Keeps memory y post) :
    Keeps memory (if p then x else y) post := by
  split
  · rename_i holds
    exact yes holds
  · rename_i fails
    exact no fails

end Traced

end Imconee.Lib
