import Mathlib.Data.Finset.Card
import Mathlib.Data.Int.Notation
import Mathlib.Logic.Relation
import Mathlib.Tactic.Common

/-!
# Closing a `crypto_pipe`

`send`, `recv` and `get_waitable` test `pipe` and then hold an `incdec`, which counts them in
`busy`; `close` adds 10001 to `busy` and closes the pipe below if nobody was counted. The
destructor of `incdec` calls `close` again where it finds that a close has been asked for.

A step is one atomic operation on `busy` or one use of `pipe`. A call that is made from
within another one, as `get_waitable` from `recv`, is a call of its own. Besides what the
code keeps, a state records which calls hold a guard, which of them did so when the first
request for a close was made, which came later, and whether one of these used the pipe.
-/

set_option autoImplicit false

namespace Imconee.Shadowsocks

/-- `incdec`; `owner` is false where the member is null. -/
structure Incdec where
  owner : Bool
  deriving DecidableEq

/-- The constructor, with what it makes of `v`. Past 10000 it assigns null to its parameter
`owner`, and by then the member has been initialised. -/
def Incdec.create (v : ℤ) : Incdec × ℤ := ({ owner := true }, v + 1)

/-- `operator bool` -/
def Incdec.refuses (guard : Incdec) : Bool := !guard.owner

/-- Where a call is: behind the test of `pipe`; under its guard; and in `close` before the
addition, before `pipe->close`, and before `pipe = nullptr`. -/
inductive Place where
  | outside
  | tested
  | inside (guard : Incdec)
  | requesting
  | closing
  | nulling
  deriving DecidableEq

/-- The call holds a guard. -/
@[grind]
def Place.isInside : Place → Bool
  | .inside _ => true
  | _ => false

/-- What a call does next. -/
inductive Move where
  | test
  | enter
  | use
  | leave
  | call
  | request
  | close
  | null
  deriving DecidableEq

structure Closing (C : Type) where
  busy : ℤ := 0
  /-- `pipe` is not null. -/
  pipe : Bool := true
  /-- How often the pipe below has been closed. -/
  closed : ℕ := 0
  place : C → Place := fun _ => .outside
  guarded : Finset C := ∅
  requested : Bool := false
  inFlight : Finset C := ∅
  late : Finset C := ∅
  usedLate : Bool := false

namespace Closing

variable {C : Type} [DecidableEq C]

def put (s : Closing C) (c : C) (place : Place) : Closing C :=
  { s with place := Function.update s.place c place }

/-- `if (!pipe) return` -/
def test (s : Closing C) (c : C) : Closing C :=
  if s.pipe then s.put c .tested else s

def enter (s : Closing C) (c : C) : Closing C :=
  let created := Incdec.create s.busy
  { s.put c (.inside created.1) with
    busy := created.2
    guarded := insert c s.guarded
    late := if s.requested then insert c s.late else s.late }

/-- `if (ddd) return`, or a use of the pipe below -/
def use (s : Closing C) (c : C) (guard : Incdec) : Closing C :=
  if guard.refuses then s else { s with usedLate := s.usedLate || decide (c ∈ s.late) }

/-- The destructor of the guard; it may go on to `owner->close(true)`. -/
def leave (s : Closing C) (c : C) : Closing C :=
  let busy := s.busy - 1
  { s.put c (if 10000 < busy then .requesting else .outside) with
    busy
    guarded := s.guarded.erase c
    inFlight := s.inFlight.erase c
    late := s.late.erase c }

/-- `bool io = increment_by(busy, 10001) > 0`, which returns the value before -/
def request (s : Closing C) (c : C) : Closing C :=
  let io := decide (0 < s.busy)
  { s.put c (if io then .outside else .closing) with
    busy := s.busy + 10001
    requested := true
    inFlight := if s.requested then s.inFlight else s.guarded }

def close (s : Closing C) (c : C) : Closing C :=
  { s.put c .nulling with closed := s.closed + 1 }

def null (s : Closing C) (c : C) : Closing C :=
  { s.put c .outside with pipe := false }

/-- The next step of a call. -/
def step (s : Closing C) (c : C) (move : Move) : Option (Closing C) :=
  match s.place c, move with
  | .outside, .test => some (s.test c)
  | .tested, .enter => some (s.enter c)
  | .inside guard, .use => some (s.use c guard)
  | .inside _, .leave => some (s.leave c)
  | .outside, .call => some (s.put c .requesting)
  | .requesting, .request => some (s.request c)
  | .closing, .close => some (s.close c)
  | .nulling, .null => some (s.null c)
  | _, _ => none

/-- What any number of calls come to. -/
inductive Run (fine : Closing C → Move → Prop) : Closing C → Prop where
  | start : Run fine {}
  | step {s next : Closing C} (run : Run fine s) (c : C) (move : Move)
      (good : fine s move) (steps : s.step c move = some next) : Run fine next

/-- No call tests `pipe` between a request and `pipe = nullptr`, and at the first request no
call is behind its test and not yet out of its guard. -/
def Undisturbed (s : Closing C) : Move → Prop
  | .test => s.requested = true → s.pipe = false
  | .request => s.requested = false →
      ∀ c, s.place c ≠ .tested ∧ (s.place c).isInside = false
  | _ => True

/-- The call is in `close`, behind the addition. -/
def Closes (s : Closing C) (c : C) : Prop := s.place c = .closing ∨ s.place c = .nulling

/-- What holds after any steps: the guards are counted, and only one call closes the pipe. -/
structure Sound (s : Closing C) : Prop where
  guarded : ∀ c, c ∈ s.guarded ↔ (s.place c).isInside = true
  counted : s.requested = false → s.busy = s.guarded.card
  marked : s.requested = true → s.guarded.card + 10001 ≤ s.busy
  only : ∀ c other, s.Closes c → s.Closes other → c = other
  closing : ∀ c, s.place c = .closing → s.requested = true ∧ s.closed = 0 ∧ s.pipe = true
  nulling : ∀ c, s.place c = .nulling → s.requested = true ∧ s.closed = 1 ∧ s.pipe = true
  nulled : s.pipe = false → s.requested = true ∧ s.closed = 1
  untouched : (∀ c, ¬s.Closes c) → s.pipe = true → s.closed = 0

namespace Sound

variable {s : Closing C} {c : C}

omit [DecidableEq C] in
theorem start : Sound ({} : Closing C) := by
  constructor <;> simp [Closes, Place.isInside]

/-- A step that leaves a call outside of its guard and of `close`. -/
theorem put (sound : s.Sound) {place : Place} (here : (s.place c).isInside = false)
    (apart : ¬s.Closes c) (free : place.isInside = false) (calm : place ≠ .closing)
    (mild : place ≠ .nulling) : (s.put c place).Sound := by
  rcases sound with ⟨guarded, counted, marked, only, closing, nulling, nulled, untouched⟩
  constructor <;> simp only [Closing.put, Closes, Function.update_apply] at *
  all_goals grind

theorem test (sound : s.Sound) (here : s.place c = .outside) : (s.test c).Sound := by
  rw [Closing.test]
  split
  · apply sound.put <;> grind [Closes]
  · exact sound

theorem enter (sound : s.Sound) (here : s.place c = .tested) : (s.enter c).Sound := by
  have new : c ∉ s.guarded := by
    rw [sound.guarded, here]
    exact Bool.false_ne_true
  have card : (insert c s.guarded).card = s.guarded.card + 1 := Finset.card_insert_of_notMem new
  rcases sound with ⟨guarded, counted, marked, only, closing, nulling, nulled, untouched⟩
  constructor <;>
    simp only [Closing.enter, Closing.put, Incdec.create, Closes, Function.update_apply,
      Finset.mem_insert] at *
  all_goals grind

theorem use (sound : s.Sound) (guard : Incdec) : (s.use c guard).Sound := by
  rw [Closing.use]
  split
  · exact sound
  · exact ⟨sound.guarded, sound.counted, sound.marked, sound.only, sound.closing, sound.nulling,
      sound.nulled, sound.untouched⟩

theorem leave (sound : s.Sound) {guard : Incdec} (here : s.place c = .inside guard) :
    (s.leave c).Sound := by
  have member : c ∈ s.guarded := by
    rw [sound.guarded, here]
    rfl
  have card : (s.guarded.erase c).card + 1 = s.guarded.card := Finset.card_erase_add_one member
  rcases sound with ⟨guarded, counted, marked, only, closing, nulling, nulled, untouched⟩
  constructor <;>
    simp only [Closing.leave, Closing.put, Closes, Function.update_apply, Finset.mem_erase] at *
  all_goals grind

theorem request (sound : s.Sound) (here : s.place c = .requesting) : (s.request c).Sound := by
  have free : s.requested = true → 0 < s.busy := by
    intro requested
    have marked := sound.marked requested
    omega
  rcases sound with ⟨guarded, counted, marked, only, closing, nulling, nulled, untouched⟩
  have none : s.requested = false → ∀ other, ¬s.Closes other := by
    intro requested other closes
    rcases closes with there | there
    · have asked := (closing other there).1
      rw [requested] at asked
      cases asked
    · have asked := (nulling other there).1
      rw [requested] at asked
      cases asked
  constructor <;> simp only [Closing.request, Closing.put, Closes, Function.update_apply] at *
  all_goals grind

theorem close (sound : s.Sound) (here : s.place c = .closing) : (s.close c).Sound := by
  rcases sound with ⟨guarded, counted, marked, only, closing, nulling, nulled, untouched⟩
  constructor <;> simp only [Closing.close, Closing.put, Closes, Function.update_apply] at *
  all_goals grind

theorem null (sound : s.Sound) (here : s.place c = .nulling) : (s.null c).Sound := by
  rcases sound with ⟨guarded, counted, marked, only, closing, nulling, nulled, untouched⟩
  constructor <;> simp only [Closing.null, Closing.put, Closes, Function.update_apply] at *
  all_goals grind

theorem step (sound : s.Sound) {next : Closing C} {move : Move}
    (steps : s.step c move = some next) : next.Sound := by
  unfold Closing.step at steps
  split at steps <;> cases steps
  · exact sound.test ‹_›
  · exact sound.enter ‹_›
  · exact sound.use _
  · exact sound.leave ‹_›
  · apply sound.put <;> grind [Closes]
  · exact sound.request ‹_›
  · exact sound.close ‹_›
  · exact sound.null ‹_›

end Sound

/-- What holds after undisturbed steps. -/
structure Quiet (s : Closing C) : Prop where
  sound : s.Sound
  alone : s.requested = true → ∀ c, s.place c ≠ .tested ∧ (s.place c).isInside = false
  finished : s.requested = true → (∀ c, ¬s.Closes c) → s.pipe = false
  first : s.late = ∅
  usedLate : s.usedLate = false

namespace Quiet

variable {s : Closing C}

omit [DecidableEq C] in
theorem start : Quiet ({} : Closing C) := by
  refine ⟨.start, ?_, ?_, rfl, rfl⟩ <;> simp

omit [DecidableEq C] in
/-- With no call behind its test, the first request finds `busy` at 0. -/
theorem busy_eq_zero (sound : s.Sound) (before : s.requested = false)
    (alone : ∀ c, s.place c ≠ .tested ∧ (s.place c).isInside = false) : s.busy = 0 := by
  have none : s.guarded = ∅ := by
    apply Finset.eq_empty_of_forall_notMem
    intro c member
    rw [sound.guarded, (alone c).2] at member
    cases member
  rw [sound.counted before, none, Finset.card_empty]
  rfl

/-- `pipe` is only tested while nobody has asked for a close, or after it is null. -/
theorem test (quiet : s.Quiet) {c : C} (here : s.place c = .outside)
    (undisturbed : s.Undisturbed .test) : (s.test c).Quiet := by
  have sound := quiet.sound.test here
  rcases quiet with ⟨-, alone, finished, first, usedLate⟩
  simp only [Undisturbed] at undisturbed
  refine ⟨sound, ?_, ?_, ?_, ?_⟩ <;> grind [Closing.test, Closing.put, Closes]

/-- Behind its test, a call knows that nobody has asked for a close. -/
theorem enter (quiet : s.Quiet) {c : C} (here : s.place c = .tested) : (s.enter c).Quiet := by
  have sound := quiet.sound.enter here
  have before : s.requested = false := by
    apply Bool.eq_false_iff.mpr
    intro requested
    exact (quiet.alone requested c).1 here
  refine ⟨sound, ?_, ?_, ?_, quiet.usedLate⟩
  · intro requested
    cases before.symm.trans requested
  · intro requested
    cases before.symm.trans requested
  · simpa [Closing.enter, before] using quiet.first

theorem use (quiet : s.Quiet) {c : C} {guard : Incdec} : (s.use c guard).Quiet := by
  have sound : (s.use c guard).Sound := quiet.sound.use guard
  by_cases refuses : guard.refuses = true
  · simpa [Closing.use, refuses] using quiet
  · simp only [Closing.use, refuses] at sound ⊢
    refine ⟨sound, quiet.alone, quiet.finished, quiet.first, ?_⟩
    simp [quiet.first, quiet.usedLate]

theorem leave (quiet : s.Quiet) {c : C} {guard : Incdec} (here : s.place c = .inside guard) :
    (s.leave c).Quiet := by
  have sound := quiet.sound.leave here
  have before : s.requested = false := by
    apply Bool.eq_false_iff.mpr
    intro requested
    have apart := (quiet.alone requested c).2
    rw [here] at apart
    cases apart
  refine ⟨sound, ?_, ?_, ?_, quiet.usedLate⟩
  · intro requested
    cases before.symm.trans requested
  · intro requested
    cases before.symm.trans requested
  · simp [Closing.leave, quiet.first]

/-- The first request goes on to close the pipe, and every other one ends at once. -/
theorem request (quiet : s.Quiet) {c : C} (here : s.place c = .requesting)
    (undisturbed : s.Undisturbed .request) : (s.request c).Quiet := by
  have sound := quiet.sound.request here
  have zero := busy_eq_zero quiet.sound
  have marked := quiet.sound.marked
  have alone : ∀ other, s.place other ≠ .tested ∧ (s.place other).isInside = false := by
    cases requested : s.requested with
    | false => exact undisturbed requested
    | true => exact quiet.alone requested
  rcases quiet with ⟨-, -, finished, first, usedLate⟩
  refine ⟨sound, ?_, ?_, first, usedLate⟩
  · simp only [Closing.request, Closing.put, Function.update_apply]
    grind
  · simp only [Closing.request, Closing.put, Closes, Function.update_apply] at *
    grind

theorem close (quiet : s.Quiet) {c : C} (here : s.place c = .closing) : (s.close c).Quiet := by
  have sound := quiet.sound.close here
  refine ⟨sound, ?_, ?_, quiet.first, quiet.usedLate⟩
  · intro requested other
    have alone := quiet.alone requested other
    simp only [Closing.close, Closing.put, Function.update_apply]
    grind
  · intro requested none
    exact absurd (Or.inr (Function.update_self c _ s.place)) (none c)

theorem null (quiet : s.Quiet) {c : C} (here : s.place c = .nulling) : (s.null c).Quiet := by
  have sound := quiet.sound.null here
  refine ⟨sound, ?_, ?_, quiet.first, quiet.usedLate⟩
  · intro requested other
    have alone := quiet.alone requested other
    simp only [Closing.null, Closing.put, Function.update_apply]
    grind
  · intro requested none
    rfl

theorem call (quiet : s.Quiet) {c : C} (here : s.place c = .outside) :
    (s.put c .requesting).Quiet := by
  have sound : (s.put c .requesting).Sound := by
    apply quiet.sound.put <;> grind [Closes]
  rcases quiet with ⟨-, alone, finished, first, usedLate⟩
  refine ⟨sound, ?_, ?_, first, usedLate⟩
  · simp only [Closing.put, Function.update_apply]
    grind
  · simp only [Closing.put, Closes, Function.update_apply] at *
    grind

theorem step (quiet : s.Quiet) {next : Closing C} {c : C} {move : Move}
    (undisturbed : s.Undisturbed move) (steps : s.step c move = some next) : next.Quiet := by
  unfold Closing.step at steps
  split at steps <;> cases steps
  · exact quiet.test ‹_› undisturbed
  · exact quiet.enter ‹_›
  · exact quiet.use
  · exact quiet.leave ‹_›
  · exact quiet.call ‹_›
  · exact quiet.request ‹_› undisturbed
  · exact quiet.close ‹_›
  · exact quiet.null ‹_›

theorem run (run : Run Undisturbed s) : s.Quiet := by
  induction run with
  | start => exact start
  | step run c move undisturbed steps ih => exact ih.step undisturbed steps

end Quiet

/-- What a first request that finds a call counted leaves behind. -/
structure Stuck (s : Closing C) : Prop where
  sound : s.Sound
  requested : s.requested = true
  nobody : ∀ c, ¬s.Closes c
  closed : s.closed = 0

namespace Stuck

variable {s : Closing C} {c : C}

theorem of_request (sound : s.Sound) (here : s.place c = .requesting)
    (before : s.requested = false) (counted : 0 < s.busy) : (s.request c).Stuck := by
  have none : ∀ other, ¬s.Closes other := by
    intro other closes
    rcases closes with there | there
    · cases before.symm.trans (sound.closing other there).1
    · cases before.symm.trans (sound.nulling other there).1
  have pipe : s.pipe = true := by
    cases pipe : s.pipe with
    | false => cases before.symm.trans (sound.nulled pipe).1
    | true => rfl
  refine ⟨sound.request here, rfl, ?_, sound.untouched none pipe⟩
  intro other
  have apart := none other
  simp only [Closing.request, Closing.put, Closes, Function.update_apply] at *
  grind

/-- A call that goes to a place outside of `close` leaves nobody there. -/
theorem goesOn (stuck : s.Stuck) {next : Closing C} {place : Place}
    (moved : next.place = Function.update s.place c place) (calm : place ≠ .closing)
    (mild : place ≠ .nulling) (other : C) : ¬next.Closes other := by
  have apart := stuck.nobody other
  simp only [Closes, moved, Function.update_apply] at *
  grind

/-- `busy` stays positive, so that nobody goes on to close the pipe. -/
theorem step (stuck : s.Stuck) {next : Closing C} {move : Move}
    (steps : s.step c move = some next) : next.Stuck := by
  have sound := stuck.sound.step steps
  have counted : 0 < s.busy := by
    have marked := stuck.sound.marked stuck.requested
    omega
  unfold Closing.step at steps
  split at steps <;> cases steps
  · by_cases pipe : s.pipe = true
    · simp only [Closing.test, pipe, if_true] at sound ⊢
      exact ⟨sound, stuck.requested, stuck.goesOn rfl (by simp) (by simp), stuck.closed⟩
    · simpa [Closing.test, pipe] using stuck
  · exact ⟨sound, stuck.requested, stuck.goesOn rfl (by simp) (by simp), stuck.closed⟩
  · rename_i guard there
    by_cases refuses : guard.refuses = true
    · simpa [Closing.use, refuses] using stuck
    · simp only [Closing.use, refuses] at sound ⊢
      exact ⟨sound, stuck.requested, stuck.nobody, stuck.closed⟩
  · exact ⟨sound, stuck.requested, stuck.goesOn rfl (by split <;> simp) (by split <;> simp),
      stuck.closed⟩
  · exact ⟨sound, stuck.requested, stuck.goesOn rfl (by simp) (by simp), stuck.closed⟩
  · exact ⟨sound, rfl, stuck.goesOn rfl (by simp [counted]) (by simp [counted]), stuck.closed⟩
  · exact absurd (Or.inl ‹_›) (stuck.nobody c)
  · exact absurd (Or.inr ‹_›) (stuck.nobody c)

theorem forever (stuck : s.Stuck) {next : Closing C}
    (later : Relation.ReflTransGen (fun s next => ∃ c move, s.step c move = some next) s next) :
    next.closed = 0 ∧ next.pipe = true := by
  have stuck : next.Stuck := by
    induction later with
    | refl => exact stuck
    | tail _ steps ih =>
        rcases steps with ⟨c, move, steps⟩
        exact ih.step steps
  refine ⟨stuck.closed, ?_⟩
  cases pipe : next.pipe with
  | false =>
      have closed := (stuck.sound.nulled pipe).2
      rw [stuck.closed] at closed
      cases closed
  | true => rfl

end Stuck

end Closing

/-- The close protocol, in every run whose first request comes while no call is behind its test
of `pipe` and not yet out of its guard, and in which no call tests `pipe` between a request and
`pipe = nullptr`: no call that has entered after the request has used the pipe below, and once
those in flight and the call of `close` itself are through, the pipe has been closed once. -/
theorem closed_of_run {C : Type} [DecidableEq C] {s : Closing C}
    (run : Closing.Run Closing.Undisturbed s) :
    s.usedLate = false ∧
      (s.requested = true → s.inFlight = ∅ → (∀ c, ¬s.Closes c) →
        s.closed = 1 ∧ s.pipe = false) := by
  have quiet := Closing.Quiet.run run
  refine ⟨quiet.usedLate, ?_⟩
  intro requested _ through
  have null := quiet.finished requested through
  exact ⟨(quiet.sound.nulled null).2, null⟩

namespace Closing

/-- Some steps. -/
def steps {C : Type} [DecidableEq C] (s : Closing C) : List (C × Move) → Option (Closing C)
  | [] => some s
  | (c, move) :: rest => (s.step c move).bind fun next => next.steps rest

theorem Run.steps {C : Type} [DecidableEq C] {s next : Closing C}
    (run : Run (fun _ _ => True) s) {moves : List (C × Move)}
    (done : s.steps moves = some next) : Run (fun _ _ => True) next := by
  induction moves generalizing s with
  | nil =>
      cases done
      exact run
  | cons first rest ih =>
      rcases Option.bind_eq_some_iff.mp done with ⟨between, step, done⟩
      exact ih (run.step first.1 first.2 trivial step) done

end Closing

/-- A close while nobody uses the pipe. -/
theorem closed_of_run_idle : ∃ s : Closing Bool, s.requested = true ∧ s.closed = 1 := by
  have called : Closing.Run Closing.Undisturbed _ :=
    .step .start true .call trivial rfl
  have requested := Closing.Run.step called true .request (by
    intro _ c
    cases c <;> decide) rfl
  have closed := Closing.Run.step requested true .close trivial rfl
  have through := Closing.Run.step closed true .null trivial rfl
  refine ⟨_, rfl, ((closed_of_run through).2 rfl rfl ?_).1⟩
  intro c
  cases c <;> simp [Closing.Closes, Closing.null, Closing.put, Closing.close, Closing.request]

/-- A request that finds a call in flight leaves the pipe open for good, and a call that tests
`pipe` behind a request is not refused. -/
theorem left_open :
    (∃ s : Closing Bool, Closing.Run (fun _ _ => True) s ∧ s.requested = true ∧ s.inFlight = ∅ ∧
      (∀ c, s.place c = .outside) ∧ s.closed = 0 ∧ s.pipe = true) ∧
    ∃ s : Closing Bool, Closing.Run (fun _ _ => True) s ∧ s.usedLate = true := by
  constructor
  · refine ⟨(Closing.steps {} [(false, .test), (false, .enter), (true, .call), (true, .request),
      (false, .use), (false, .leave), (false, .request)]).get (by decide +kernel),
      Closing.Run.steps .start (Option.some_get _).symm, ?_⟩
    decide +kernel
  · refine ⟨(Closing.steps {} [(true, .call), (true, .request), (false, .test), (false, .enter),
      (false, .use)]).get (by decide +kernel),
      Closing.Run.steps .start (Option.some_get _).symm, ?_⟩
    decide +kernel

end Imconee.Shadowsocks
