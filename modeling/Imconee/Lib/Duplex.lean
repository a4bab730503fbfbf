import Imconee.Lib.Dialogue

/-!
# Two dialogues over a pair of streams

What one end sends flies to the other one, where it arrives byte by byte, so that a read may
find any part of it. Both ends and both directions take their steps in any order; reads of an
exact size do not see how.
-/

set_option autoImplicit false

namespace Imconee.Lib

open Dialogue

variable {α β : Type}

/-- One end, with the bytes on their way to it and those that have arrived. -/
structure End (α : Type) where
  program : Dialogue α
  flying : List UInt8 := []
  arrived : List UInt8 := []

namespace End

/-- A step of the program, or the arrival of a byte, and what it sends. -/
inductive Step : Bool → End α → End α → List UInt8 → Prop where
  | send {bytes flying arrived : List UInt8} {next : Bool → Dialogue α} :
      Step true ⟨send bytes next, flying, arrived⟩ ⟨next true, flying, arrived⟩ bytes
  | receive {size : ℤ} {next : Option (List UInt8) → Dialogue α}
      {bytes flying rest : List UInt8} (answers : Answers size bytes) :
      Step true ⟨receive size next, flying, bytes ++ rest⟩ ⟨next (some bytes), flying, rest⟩ []
  | arrive {program : Dialogue α} {byte : UInt8} {flying arrived : List UInt8} :
      Step false ⟨program, byte :: flying, arrived⟩ ⟨program, flying, arrived ++ [byte]⟩ []

/-- More bytes are sent to this end. -/
def push (e : End α) (bytes : List UInt8) : End α := { e with flying := e.flying ++ bytes }

variable {e next other : End α} {own : Bool} {output output' : List UInt8}

@[simp]
theorem push_nil (e : End α) : e.push [] = e := by
  simp [push]

theorem Step.push (step : Step own e next output) (bytes : List UInt8) :
    Step own (e.push bytes) (next.push bytes) output := by
  cases step with
  | send => exact .send
  | receive answers => exact .receive answers
  | arrive => exact .arrive

theorem Step.alike (first : Step own e next output) (second : Step own e other output')
    (sure : own = true → e.program.Sure) : next = other ∧ output = output' := by
  cases first with
  | send =>
      cases second
      exact ⟨rfl, rfl⟩
  | arrive =>
      cases second
      exact ⟨rfl, rfl⟩
  | @receive size next bytes flying rest answers =>
      generalize whole : bytes ++ rest = arrived at second
      cases second with
      | @receive _ _ bytes' _ rest' answers' =>
          have nonpos : size ≤ 0 := sure rfl
          have long : bytes.length = bytes'.length := by
            rcases answers with ⟨exact, atMost⟩
            rcases answers' with ⟨exact', atMost'⟩
            omega
          rcases List.append_inj whole long with ⟨rfl, rfl⟩
          exact ⟨rfl, rfl⟩

/-- A byte may arrive before or after a step of the program. -/
theorem Step.commute (first : Step true e next output) (second : Step false e other output') :
    ∃ joined, Step false next joined output' ∧ Step true other joined output := by
  cases second with
  | arrive =>
      generalize there : (⟨_, _, _⟩ : End α) = start at first
      cases first with
      | send =>
          cases there
          exact ⟨_, .arrive, .send⟩
      | receive answers =>
          cases there
          refine ⟨_, .arrive, ?_⟩
          rw [List.append_assoc]
          exact .receive answers

theorem Step.program (step : Step false e next output) : next.program = e.program := by
  cases step
  rfl

theorem Step.silent (step : Step false e next output) : output = [] := by
  cases step
  rfl

end End

/-- The two ends. -/
structure Duplex (α β : Type) where
  left : End α
  right : End β

namespace Duplex

/-- A step of one end, and whether it is one of its program. -/
inductive Step : Bool × Bool → Duplex α β → Duplex α β → Prop where
  | left {own : Bool} {e next : End α} {other : End β} {output : List UInt8}
      (step : End.Step own e next output) : Step (true, own) ⟨e, other⟩ ⟨next, other.push output⟩
  | right {own : Bool} {e next : End β} {other : End α} {output : List UInt8}
      (step : End.Step own e next output) : Step (false, own) ⟨other, e⟩ ⟨other.push output, next⟩

/-- Which programs have only one step to take. -/
def settled : Bool × Bool → Duplex α β → Prop
  | (true, true), s => s.left.program.Sure
  | (false, true), s => s.right.program.Sure
  | (_, false), _ => True

namespace Step

theorem across {e next : End α} {r other : End β} {own own' : Bool} {output output' : List UInt8}
    (first : End.Step own e next output) (second : End.Step own' r other output') :
    Step (false, own') ⟨next, r.push output⟩ ⟨next.push output', other.push output⟩ ∧
      Step (true, own) ⟨e.push output', other⟩ ⟨next.push output', other.push output⟩ := by
  constructor
  · exact .right (second.push output)
  · exact .left (first.push output')

/-- An arrival and a step of the program at the left end. -/
theorem leftEnd {e next other : End α} (r : End β) {output output' : List UInt8}
    (first : End.Step true e next output) (second : End.Step false e other output') :
    ∃ joined, Step (true, false) ⟨next, r.push output⟩ joined ∧
      Step (true, true) ⟨other, r.push output'⟩ joined := by
  rcases first.commute second with ⟨joined, arrives, goesOn⟩
  have silent := second.silent
  subst silent
  refine ⟨⟨joined, r.push output⟩, ?_, ?_⟩
  · simpa using @Step.left _ _ _ _ _ (r.push output) _ arrives
  · simpa using @Step.left _ _ _ _ _ r _ goesOn

theorem rightEnd {e next other : End β} (l : End α) {output output' : List UInt8}
    (first : End.Step true e next output) (second : End.Step false e other output') :
    ∃ joined, Step (false, false) ⟨l.push output, next⟩ joined ∧
      Step (false, true) ⟨l.push output', other⟩ joined := by
  rcases first.commute second with ⟨joined, arrives, goesOn⟩
  have silent := second.silent
  subst silent
  refine ⟨⟨l.push output, joined⟩, ?_, ?_⟩
  · simpa using @Step.right _ _ _ _ _ (l.push output) _ arrives
  · simpa using @Step.right _ _ _ _ _ l _ goesOn

end Step

variable (α β) in
/-- The ends and the directions. -/
def actors : Actors (Bool × Bool) (Duplex α β) where
  step := Step
  settled := settled
  alike {i s next other} sure first second := by
    cases first with
    | left step =>
        cases second with
        | left step' =>
            rcases step.alike step' (by rintro rfl; exact sure) with ⟨rfl, rfl⟩
            rfl
    | right step =>
        cases second with
        | right step' =>
            rcases step.alike step' (by rintro rfl; exact sure) with ⟨rfl, rfl⟩
            rfl
  apart {i j s next} different step := by
    rcases i with ⟨side, own⟩
    cases own with
    | false => cases side <;> exact Iff.rfl
    | true =>
        cases step with
        | @left own e next other output step =>
            cases own with
            | true =>
                cases side with
                | true => exact absurd rfl different
                | false => exact Iff.rfl
            | false =>
                cases side with
                | true => simp [settled, step.program]
                | false => exact Iff.rfl
        | @right own e next other output step =>
            cases own with
            | true =>
                cases side with
                | true => exact Iff.rfl
                | false => exact absurd rfl different
            | false =>
                cases side with
                | true => exact Iff.rfl
                | false => simp [settled, step.program]
  commute {i j s next other} different first second := by
    cases first with
    | @left own e next r output step =>
        cases second with
        | @left own' _ other _ output' step' =>
            cases own with
            | true =>
                cases own' with
                | true => exact absurd rfl different
                | false => exact Step.leftEnd r step step'
            | false =>
                cases own' with
                | true =>
                    rcases Step.leftEnd r step' step with ⟨joined, later, earlier⟩
                    exact ⟨joined, earlier, later⟩
                | false => exact absurd rfl different
        | right step' => exact ⟨_, Step.across step step'⟩
    | @right own e next l output step =>
        cases second with
        | left step' =>
            rcases Step.across step' step with ⟨later, earlier⟩
            exact ⟨_, earlier, later⟩
        | @right own' _ other _ output' step' =>
            cases own with
            | true =>
                cases own' with
                | true => exact absurd rfl different
                | false => exact Step.rightEnd l step step'
            | false =>
                cases own' with
                | true =>
                    rcases Step.rightEnd l step' step with ⟨joined, later, earlier⟩
                    exact ⟨joined, earlier, later⟩
                | false => exact absurd rfl different

/-- Both dialogues are over and nothing is on its way. -/
theorem settles_here {d : Dialogue α} {e : Dialogue β} {arrived arrived' : List UInt8}
    (left : d.Over) (right : e.Over) :
    (actors α β).Settles ⟨⟨d, [], arrived⟩, ⟨e, [], arrived'⟩⟩
      ⟨⟨d, [], arrived⟩, ⟨e, [], arrived'⟩⟩ := by
  refine ⟨?_, 0, .here ?_⟩
  · intro i next step
    cases step with
    | left step =>
        cases step with
        | send => exact left.elim
        | receive answers => exact left.elim
    | right step =>
        cases step with
        | send => exact right.elim
        | receive answers => exact right.elim
  · rintro ⟨side, own⟩
    cases own with
    | false => cases side <;> trivial
    | true =>
        cases side with
        | true => exact left.sure
        | false => exact right.sure

/-- The ends in the other order. -/
def swap (s : Duplex α β) : Duplex β α := ⟨s.right, s.left⟩

theorem Step.swap {i : Bool × Bool} {s next : Duplex α β} (step : Step i s next) :
    Step (!i.1, i.2) s.swap next.swap := by
  cases step with
  | left step => exact .right step
  | right step => exact .left step

theorem settled_swap {s : Duplex α β} (sure : ∀ i, settled i s) (i : Bool × Bool) :
    settled i s.swap := by
  rcases i with ⟨side, own⟩
  cases own with
  | false => cases side <;> trivial
  | true =>
      cases side with
      | true => exact sure (false, true)
      | false => exact sure (true, true)

theorem settles_swap {s last : Duplex α β} (settles : (actors α β).Settles s last) :
    (actors β α).Settles s.swap last.swap := by
  rcases settles with ⟨ended, count, leads⟩
  refine ⟨fun i next step => ended _ next.swap step.swap, count, ?_⟩
  induction leads with
  | here sure => exact .here (settled_swap sure)
  | step i sure step rest ih => exact .step _ (settled_swap sure) (Step.swap step) (ih ended)

/-- A step of the left end does not matter to the right one. -/
theorem settles_left {s next last : Duplex α β} {own : Bool}
    (settles : (actors α β).Settles next last) (sure : s.left.program.Sure)
    (same : next.right.program = s.right.program) (step : Step (true, own) s next) :
    (actors α β).Settles s last := by
  refine settles.step ?_ step
  rintro ⟨side, program⟩
  cases program with
  | false => cases side <;> trivial
  | true =>
      cases side with
      | true => exact sure
      | false =>
          have right : next.right.program.Sure := settles.settled (false, true)
          rwa [same] at right

theorem settles_arrive {program : Dialogue α} {flying arrived : List UInt8} {r : End β}
    {last : Duplex α β}
    (settles : (actors α β).Settles ⟨⟨program, [], arrived ++ flying⟩, r⟩ last) :
    (actors α β).Settles ⟨⟨program, flying, arrived⟩, r⟩ last := by
  induction flying generalizing arrived with
  | nil => simpa using settles
  | cons byte flying ih =>
      have next : (actors α β).Settles ⟨⟨program, flying, arrived ++ [byte]⟩, r.push []⟩ last := by
        rw [End.push_nil]
        apply ih
        simpa using settles
      exact settles_left next (next.settled (true, true)) rfl (.left .arrive)

/-- The program of the left end goes on with what has arrived. -/
theorem settles_advance {first second : Dialogue α} {input output flying rest : List UInt8}
    {r : End β} {last : Duplex α β} (advances : Advances first input output second)
    (settles : (actors α β).Settles ⟨⟨second, flying, rest⟩, r.push output⟩ last) :
    (actors α β).Settles ⟨⟨first, flying, input ++ rest⟩, r⟩ last := by
  induction advances generalizing r with
  | here d => simpa using settles
  | @receive size next bytes input output last' exact rest' ih =>
      have goesOn := ih settles
      rw [← End.push_nil r] at goesOn
      have nonpos : size ≤ 0 := by omega
      have answers : Answers size bytes := by constructor <;> intro <;> omega
      rw [List.append_assoc]
      exact settles_left goesOn nonpos rfl (.left (.receive answers))
  | @send bytes input output next last' rest' ih =>
      have goesOn := @ih (r.push bytes) (by simpa [End.push] using settles)
      exact settles_left goesOn trivial rfl (.left .send)

/-- The left end takes in what has arrived, and what it sends arrives at the right one. -/
theorem settles_turn {first second : Dialogue α} {other : Dialogue β}
    {input output rest arrived : List UInt8} {last : Duplex α β}
    (advances : Advances first input output second)
    (settles : (actors α β).Settles ⟨⟨second, [], rest⟩, ⟨other, [], arrived ++ output⟩⟩ last) :
    (actors α β).Settles ⟨⟨first, [], input ++ rest⟩, ⟨other, [], arrived⟩⟩ last := by
  apply settles_advance advances
  refine @settles_swap β α ⟨⟨other, [] ++ output, arrived⟩, ⟨second, [], rest⟩⟩ last.swap ?_
  apply settles_arrive
  exact settles_swap settles

/-- The right end takes in what has arrived, and what it sends arrives at the left one. -/
theorem settles_return {first second : Dialogue β} {other : Dialogue α}
    {input output rest arrived : List UInt8} {last : Duplex α β}
    (advances : Advances first input output second)
    (settles : (actors α β).Settles ⟨⟨other, [], arrived ++ output⟩, ⟨second, [], rest⟩⟩ last) :
    (actors α β).Settles ⟨⟨other, [], arrived⟩, ⟨first, [], input ++ rest⟩⟩ last := by
  have turned := settles_turn advances (settles_swap settles)
  exact settles_swap turned

variable {holds : Duplex α β → Prop}

theorem finally_turn {first second : Dialogue α} {other : Dialogue β}
    {input output rest arrived : List UInt8} (advances : Advances first input output second)
    (ends : (actors α β).Finally ⟨⟨second, [], rest⟩, ⟨other, [], arrived ++ output⟩⟩ holds) :
    (actors α β).Finally ⟨⟨first, [], input ++ rest⟩, ⟨other, [], arrived⟩⟩ holds := by
  rcases ends with ⟨last, settles, there⟩
  exact ⟨last, settles_turn advances settles, there⟩

theorem finally_return {first second : Dialogue β} {other : Dialogue α}
    {input output rest arrived : List UInt8} (advances : Advances first input output second)
    (ends : (actors α β).Finally ⟨⟨other, [], arrived ++ output⟩, ⟨second, [], rest⟩⟩ holds) :
    (actors α β).Finally ⟨⟨other, [], arrived⟩, ⟨first, [], input ++ rest⟩⟩ holds := by
  rcases ends with ⟨last, settles, there⟩
  exact ⟨last, settles_return advances settles, there⟩

theorem finally_here {d : Dialogue α} {e : Dialogue β} {arrived arrived' : List UInt8}
    (left : d.Over) (right : e.Over)
    (there : holds ⟨⟨d, [], arrived⟩, ⟨e, [], arrived'⟩⟩) :
    (actors α β).Finally ⟨⟨d, [], arrived⟩, ⟨e, [], arrived'⟩⟩ holds :=
  ⟨_, settles_here left right, there⟩

end Duplex

end Imconee.Lib
