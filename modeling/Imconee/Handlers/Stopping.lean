import Imconee.Handlers.Filled

/-!
# Stopping a handler

`handler::stop` closes the threads of the list while each of them is somewhere in its loop. A
tick is in three phases, of which the first and the last have the lock of the slots: the
slots are registered, they are processed, and the gaps are closed. What a tick has found in
one phase may be out of date in the next one.
-/

set_option autoImplicit false

namespace Imconee.Handlers

open Imconee.Netkit

variable {T P : Type}

/-- `close` -/
def ProcessingThread.close (self : ProcessingThread P) : ProcessingThread P where
  numslots := 0
  slots i := if i < self.numslots then (self.slots i).movedFrom else self.slots i

/-- Where a thread is in the loop of `bridge`, with the variables of `tick` after the pass. -/
inductive Point (P : Type) where
  | top
  | ticking
  | waiting
  | processed (pass : Pass P)
  | returned (r : ℤ)
  | ended

/-- `handler`: its threads, the list of them and `need_stop`. -/
structure Stopping (T P : Type) where
  thread : T → ProcessingThread P := fun _ => {}
  point : T → Point P := fun _ => .top
  next : T → Option T := fun _ => none
  needStop : Bool := false

/-- A thread that is closed here keeps nothing that is out of date: no dead slot but the first
one, and no index that it goes on to forward. -/
def Point.Closable (next : Option T) : Point P → Prop
  | .processed pass => ∀ first, pass.wasDel = some first → first = 0
  | .returned r => 0 ≤ r → r < maximumSlots → next = none
  | _ => True

/-- What is known of a thread at each point of its loop. -/
def Point.Fits (needStop : Bool) (next : Option T) (thread : ProcessingThread P) : Point P → Prop
  | .ticking => thread.Filled ∧ (needStop = true → thread.numslots ≤ 0)
  | .waiting => thread.Filled ∧ (needStop = true → thread.numslots ≤ 0) ∧
      (needStop = false → 0 < thread.numslots)
  | .processed pass => (needStop = false → thread.Gapped pass) ∧
      (needStop = true → thread.numslots ≤ 0 ∧ ∀ first, pass.wasDel = some first → first = 0)
  | .returned r => thread.Filled ∧ (needStop = true → thread.numslots ≤ 0) ∧
      (0 ≤ r → r < maximumSlots → r < thread.numslots ∨ next = none)
  | _ => thread.Filled

namespace Stopping

/-- What a thread does next in its loop. -/
inductive LoopStep where
  | enter
  | register
  | mark (i : ℕ) (first : Bool) (w : Waitable)
  | process (masks : Mask)
  | compact
  | forward
  | resume
  | leave

/-- A thread goes on, a bridge is added to one, the list changes, or the handler is stopped. -/
inductive Action (T P : Type) where
  | loop (t : T) (step : LoopStep)
  | add (t : T) (pipe1 pipe2 : P)
  | relink (next : T → Option T)
  | stop

variable [DecidableEq T]

def put (s : Stopping T P) (t : T) (thread : ProcessingThread P) (point : Point P) :
    Stopping T P :=
  { s with thread := Function.update s.thread t thread, point := Function.update s.point t point }

def mark (impl : PipeImpl P) (s : Stopping T P) (t : T) (i : ℕ) (first : Bool) (w : Waitable) :
    Stopping T P :=
  let slot := (s.thread t).slots i
  let marked := if first
    then { slot with pipe1 := slot.pipe1.map fun pipe => impl.setWaitable pipe w }
    else { slot with pipe2 := slot.pipe2.map fun pipe => impl.setWaitable pipe w }
  s.put t { s.thread t with slots := Function.update (s.thread t).slots i marked } .waiting

/-- `wait` returns, and unless its mask is empty the slots that are there are processed. -/
def process (impl : PipeImpl P) (s : Stopping T P) (t : T) (masks : Mask) :
    Option (Stopping T P) :=
  if masks.isEmpty then some (s.put t (s.thread t) (.returned 0))
  else
    (ProcessingThread.pass impl (s.thread t).slots (s.thread t).numslots.toNat masks).map
      fun last => s.put t { s.thread t with slots := last.slots } (.processed last)

def compact (s : Stopping T P) (t : T) (pass : Pass P) : Stopping T P :=
  let finished := ProcessingThread.compact (s.thread t).numslots
    { pass with slots := (s.thread t).slots }
  s.put t finished.thread (.returned finished.rv)

def forward (s : Stopping T P) (t next : T) (slot : ℕ) : Stopping T P :=
  let forwarded := (s.thread t).forward slot (s.thread next)
  { s with
    thread := Function.update (Function.update s.thread t forwarded.2.1) next forwarded.2.2
    point := Function.update s.point t (if forwarded.1 then .ended else .top) }

/-- The loop of `bridge(processing_thread*)`, which may also be left when the engine stops. -/
def loop (impl : PipeImpl P) (s : Stopping T P) (t : T) (step : LoopStep) :
    Option (Stopping T P) :=
  match s.point t, step with
  | .top, .enter => some (s.put t (s.thread t) (if s.needStop then .ended else .ticking))
  | .ticking, .register =>
      let registered := (s.thread t).register impl
      some (s.put t registered.2 (if registered.1 then .waiting else .ended))
  | .waiting, .mark i first w => some (s.mark impl t i first w)
  | .waiting, .process masks => s.process impl t masks
  | .processed pass, .compact => some (s.compact t pass)
  | .returned r, .forward =>
      if 0 ≤ r ∧ r < maximumSlots then (s.next t).map fun next => s.forward t next r.toNat
      else none
  | .returned r, .resume =>
      if 0 ≤ r ∧ (maximumSlots ≤ r ∨ s.next t = none) then some (s.put t (s.thread t) .top)
      else none
  | .returned _, .leave => some (s.put t (s.thread t) .ended)
  | _, _ => none

/-- `try_add_bridge` -/
def add (s : Stopping T P) (t : T) (pipe1 pipe2 : P) : Stopping T P :=
  let added := (s.thread t).tryAddBridge (some pipe1) (some pipe2)
  { s with thread := Function.update s.thread t added.2 }

/-- `stop`, up to where it waits for the threads to end -/
def stop (s : Stopping T P) : Stopping T P :=
  if s.needStop then s
  else
    { s with
      thread := fun t => (s.thread t).close
      needStop := true }

def step (impl : PipeImpl P) (s : Stopping T P) : Action T P → Option (Stopping T P)
  | .loop t step => s.loop impl t step
  | .add t pipe1 pipe2 => some (s.add t pipe1 pipe2)
  | .relink next => some { s with next }
  | .stop => some s.stop

/-- What the threads of a handler come to. -/
inductive Run (impl : PipeImpl P) (fine : Stopping T P → Action T P → Prop) :
    Stopping T P → Prop where
  | start : Run impl fine {}
  | step {s next : Stopping T P} (run : Run impl fine s) (action : Action T P)
      (good : fine s action) (steps : s.step impl action = some next) : Run impl fine next

/-- The steps after which `stop` is final. It comes while no thread holds what it puts out of
date, a wait that it interrupts does not end in a call of `forward`, and a bridge that comes
later is not added in the middle of a tick. -/
def Timely (s : Stopping T P) : Action T P → Prop
  | .stop => s.needStop = false → ∀ t, (s.point t).Closable (s.next t)
  | .loop t (.process masks) =>
      masks.isEmpty = true → 0 < (s.thread t).numslots ∨ s.next t = none
  | .loop t .compact => ∀ pass, s.point t = .processed pass → s.needStop = false →
      (s.thread t).Survives pass ∨ s.next t = none
  | .add t _ _ => s.needStop = true → s.point t = .top ∨ s.point t = .ended
  | .relink next => ∀ t r, s.point t = .returned r → 0 ≤ r → r < maximumSlots →
      r < (s.thread t).numslots ∨ next t = none
  | _ => True

/-- Every thread is as its place in the loop has it. -/
def Sound (s : Stopping T P) : Prop :=
  ∀ t, (s.point t).Fits s.needStop (s.next t) (s.thread t)

namespace Sound

variable {impl : PipeImpl P} {s : Stopping T P} {t : T}

omit [DecidableEq T] in
theorem start : Sound ({} : Stopping T P) := by
  intro t
  constructor
  · simp [maximumSlots]
  · exact Full.zero _

theorem put (sound : s.Sound) {thread : ProcessingThread P} {point : Point P}
    (fits : point.Fits s.needStop (s.next t) thread) : (s.put t thread point).Sound := by
  intro other
  simp only [Stopping.put, Function.update_apply]
  split
  · rename_i same
    subst same
    exact fits
  · exact sound other

omit [DecidableEq T] in
theorem filled (sound : s.Sound) (between : ∀ pass, s.point t ≠ .processed pass) :
    (s.thread t).Filled := by
  have fits := sound t
  cases point : s.point t with
  | processed pass => exact absurd point (between pass)
  | top =>
      rw [point] at fits
      exact fits
  | ended =>
      rw [point] at fits
      exact fits
  | ticking =>
      rw [point] at fits
      exact fits.1
  | waiting =>
      rw [point] at fits
      exact fits.1
  | returned r =>
      rw [point] at fits
      exact fits.1

theorem register (sound : s.Sound) (here : s.point t = .ticking) :
    (s.put t ((s.thread t).register impl).2
      (if ((s.thread t).register impl).1 then .waiting else .ended)).Sound := by
  have fits := sound t
  rw [here] at fits
  rcases fits with ⟨filled, closed⟩
  apply sound.put
  rcases filled.register impl with ⟨rest, waits⟩
  split
  · rename_i goesOn
    refine ⟨rest, ?_, fun _ => waits goesOn⟩
    intro stopped
    rw [ProcessingThread.register_of_nonpos impl (closed stopped)] at goesOn
    cases goesOn
  · exact rest

theorem mark (sound : s.Sound) (here : s.point t = .waiting) (i : ℕ) (first : Bool)
    (w : Waitable) : (s.mark impl t i first w).Sound := by
  have fits := sound t
  rw [here] at fits
  rcases fits with ⟨filled, closed, used⟩
  apply sound.put
  refine ⟨⟨filled.bound, ?_⟩, closed, used⟩
  apply filled.full.update
  cases first with
  | true => exact Bridged.isEmpty_mark1 impl _ w
  | false => exact Bridged.isEmpty_mark2 impl _ w

theorem process (sound : s.Sound) (here : s.point t = .waiting) {masks : Mask}
    (timely : s.Timely (.loop t (.process masks))) {next : Stopping T P}
    (steps : s.process impl t masks = some next) : next.Sound := by
  have fits := sound t
  rw [here] at fits
  rcases fits with ⟨filled, closed, used⟩
  rw [Stopping.process] at steps
  split at steps
  · rename_i empty
    cases steps
    apply sound.put
    exact ⟨filled, closed, fun _ _ => timely empty⟩
  · rcases Option.map_eq_some_iff.mp steps with ⟨last, passed, rfl⟩
    apply sound.put
    refine ⟨fun _ => filled.pass passed, ?_⟩
    intro stopped
    refine ⟨closed stopped, ?_⟩
    rw [Int.toNat_of_nonpos (closed stopped)] at passed
    rw [ProcessingThread.pass_zero _ passed]
    intro first set
    cases set

theorem compact (sound : s.Sound) {pass : Pass P} (here : s.point t = .processed pass)
    (timely : s.Timely (.loop t .compact)) : (s.compact t pass).Sound := by
  have fits := sound t
  rw [here] at fits
  rcases fits with ⟨gapped, closed⟩
  apply sound.put
  cases needStop : s.needStop with
  | true =>
      rcases closed needStop with ⟨none, first⟩
      rcases @ProcessingThread.compact_of_nonpos _ (s.thread t)
        { pass with slots := (s.thread t).slots } none first with ⟨rv, numslots⟩
      refine ⟨⟨?_, ?_⟩, ?_, ?_⟩
      · rw [numslots]
        simp [maximumSlots]
      · rw [numslots]
        exact Full.zero _
      · intro _
        omega
      · intro nonneg
        omega
  | false =>
      rcases (gapped needStop).compact with ⟨filled, inside⟩
      refine ⟨filled, ?_, ?_⟩
      · intro stopped
        cases stopped
      · intro nonneg small
        rcases timely pass here needStop with survives | last
        · exact Or.inl (inside survives nonneg small)
        · exact Or.inr last

omit [DecidableEq T] in
theorem added (fits : (s.point t).Fits s.needStop (s.next t) (s.thread t))
    (outside : s.needStop = true → s.point t = .top ∨ s.point t = .ended) (pipe1 pipe2 : P) :
    (s.point t).Fits s.needStop (s.next t)
      ((s.thread t).tryAddBridge (some pipe1) (some pipe2)).2 := by
  have more := @ProcessingThread.numslots_le_add _ (s.thread t) pipe1 pipe2
  cases needStop : s.needStop with
  | true =>
      rcases outside needStop with top | ended
      · rw [top] at fits ⊢
        exact ProcessingThread.Filled.add fits pipe1 pipe2
      · rw [ended] at fits ⊢
        exact ProcessingThread.Filled.add fits pipe1 pipe2
  | false =>
      rw [needStop] at fits
      cases point : s.point t with
      | top =>
          rw [point] at fits
          exact ProcessingThread.Filled.add fits pipe1 pipe2
      | ended =>
          rw [point] at fits
          exact ProcessingThread.Filled.add fits pipe1 pipe2
      | ticking =>
          rw [point] at fits
          exact ⟨fits.1.add pipe1 pipe2, by simp⟩
      | waiting =>
          rw [point] at fits
          exact ⟨fits.1.add pipe1 pipe2, by simp, fun _ => Int.lt_of_lt_of_le (fits.2.2 rfl) more⟩
      | processed pass =>
          rw [point] at fits
          exact ⟨fun _ => (fits.1 rfl).add pipe1 pipe2, by simp⟩
      | returned r =>
          rw [point] at fits
          refine ⟨fits.1.add pipe1 pipe2, by simp, ?_⟩
          intro nonneg small
          exact (fits.2.2 nonneg small).imp (fun inside => Int.lt_of_lt_of_le inside more) id

theorem add (sound : s.Sound) {pipe1 pipe2 : P} (timely : s.Timely (.add t pipe1 pipe2)) :
    (s.add t pipe1 pipe2).Sound := by
  intro other
  simp only [Stopping.add, Function.update_apply]
  split
  · rename_i same
    subst same
    exact added (sound other) timely pipe1 pipe2
  · exact sound other

omit [DecidableEq T] in
/-- A thread that has a next one forwards a slot in use. -/
theorem inside (sound : s.Sound) {r : ℤ} (here : s.point t = .returned r) (nonneg : 0 ≤ r)
    (small : r < maximumSlots) {next : T} (following : s.next t = some next) :
    r < (s.thread t).numslots := by
  have fits := sound t
  rw [here] at fits
  rcases fits.2.2 nonneg small with inside | last
  · exact inside
  · rw [following] at last
    cases last

theorem forward (sound : s.Sound) {r : ℤ} (here : s.point t = .returned r) (nonneg : 0 ≤ r)
    (small : r < maximumSlots) {next : T} (following : s.next t = some next) :
    (s.forward t next r.toNat).Sound := by
  have inside := sound.inside here nonneg small following
  have fits := sound t
  rw [here] at fits
  rcases fits with ⟨filled, closed, -⟩
  have going : s.needStop = false := by
    by_contra stopped
    have := closed (by simpa using stopped)
    omega
  rcases filled.forward (show (r.toNat : ℤ) < (s.thread t).numslots by omega) (s.thread next) with
    ⟨rest, pipe1, pipe2, taken⟩
  have between : ∀ (ends : Bool) {thread : ProcessingThread P}, thread.Filled →
      (if ends then Point.ended else Point.top).Fits s.needStop (s.next t) thread := by
    intro ends thread filled
    cases ends with
    | true => exact filled
    | false => exact filled
  intro other
  simp only [Stopping.forward, Function.update_apply]
  by_cases same : other = t
  · subst same
    simp only [if_true]
    apply between
    split
    · rename_i itself
      rw [taken, ← itself]
      exact filled.add pipe1 pipe2
    · exact rest
  · simp only [if_neg same]
    split
    · rename_i target
      subst target
      rw [taken]
      exact added (sound other) (by simp [going]) pipe1 pipe2
    · exact sound other

omit [DecidableEq T] in
theorem relink (sound : s.Sound) {next : T → Option T} (timely : s.Timely (.relink next)) :
    ({ s with next } : Stopping T P).Sound := by
  intro t
  have fits := sound t
  dsimp only
  cases point : s.point t with
  | returned r =>
      rw [point] at fits
      exact ⟨fits.1, fits.2.1, timely t r point⟩
  | top =>
      rw [point] at fits
      exact fits
  | ticking =>
      rw [point] at fits
      exact fits
  | waiting =>
      rw [point] at fits
      exact fits
  | processed pass =>
      rw [point] at fits
      exact fits
  | ended =>
      rw [point] at fits
      exact fits

omit [DecidableEq T] in
theorem stop (sound : s.Sound) (timely : s.Timely .stop) : s.stop.Sound := by
  rw [Stopping.stop]
  split
  · exact sound
  · rename_i going
    intro t
    have closable := timely (by simpa using going) t
    have filled : (s.thread t).close.Filled := by
      constructor
      · simp [ProcessingThread.close, maximumSlots]
      · exact Full.zero _
    have closed : (s.thread t).close.numslots ≤ 0 := Int.le_refl 0
    dsimp only
    cases point : s.point t with
    | top => exact filled
    | ended => exact filled
    | ticking => exact ⟨filled, fun _ => closed⟩
    | waiting => exact ⟨filled, fun _ => closed, by simp⟩
    | processed pass =>
        rw [point] at closable
        exact ⟨by simp, fun _ => ⟨closed, closable⟩⟩
    | returned r =>
        rw [point] at closable
        exact ⟨filled, fun _ => closed, fun nonneg small => Or.inr (closable nonneg small)⟩

theorem loop (sound : s.Sound) {step : LoopStep} (timely : s.Timely (.loop t step))
    {next : Stopping T P} (steps : s.loop impl t step = some next) : next.Sound := by
  unfold Stopping.loop at steps
  split at steps
  · rename_i here
    cases steps
    have filled : (s.thread t).Filled := sound.filled (by simp [here])
    apply sound.put
    split
    · exact filled
    · rename_i going
      exact ⟨filled, fun stopped => absurd stopped going⟩
  · cases steps
    exact sound.register ‹_›
  · cases steps
    exact sound.mark ‹_› _ _ _
  · exact sound.process ‹_› timely steps
  · cases steps
    exact sound.compact ‹_› timely
  · rename_i here
    split at steps
    · rename_i range
      rcases Option.map_eq_some_iff.mp steps with ⟨following, there, rfl⟩
      exact sound.forward here range.1 range.2 there
    · cases steps
  · rename_i here
    split at steps
    · cases steps
      exact sound.put (sound.filled (by simp [here]))
    · cases steps
  · rename_i here
    cases steps
    exact sound.put (sound.filled (by simp [here]))
  · cases steps

theorem step (sound : s.Sound) {action : Action T P} (timely : s.Timely action)
    {next : Stopping T P} (steps : s.step impl action = some next) : next.Sound := by
  cases action with
  | loop t step => exact sound.loop timely steps
  | add t pipe1 pipe2 =>
      cases steps
      exact sound.add timely
  | relink following =>
      cases steps
      exact sound.relink timely
  | stop =>
      cases steps
      exact sound.stop timely

theorem run (run : Run impl Timely s) : s.Sound := by
  induction run with
  | start => exact start
  | step run action timely steps ih => exact ih.step timely steps

omit [DecidableEq T] in
/-- Of a handler that is stopped no thread counts an empty slot. -/
theorem full (sound : s.Sound) (stopped : s.needStop = true) (t : T) {i : ℕ}
    (counted : i < (s.thread t).numslots) : ((s.thread t).slots i).isEmpty = false := by
  by_cases inTick : ∃ pass, s.point t = .processed pass
  · rcases inTick with ⟨pass, point⟩
    have fits := sound t
    rw [point] at fits
    have := (fits.2 stopped).1
    omega
  · exact (sound.filled fun pass point => inTick ⟨pass, point⟩).full i (by omega)

end Sound

/-- Some steps. -/
def steps (impl : PipeImpl P) (s : Stopping T P) : List (Action T P) → Option (Stopping T P)
  | [] => some s
  | action :: rest => (s.step impl action).bind fun next => next.steps impl rest

theorem Run.steps {impl : PipeImpl P} {s next : Stopping T P}
    (run : Run impl (fun _ _ => True) s) {actions : List (Action T P)}
    (done : s.steps impl actions = some next) : Run impl (fun _ _ => True) next := by
  induction actions generalizing s with
  | nil =>
      cases done
      exact run
  | cons first rest ih =>
      rcases Option.bind_eq_some_iff.mp done with ⟨between, step, done⟩
      exact ih (run.step first trivial step) done

end Stopping

end Imconee.Handlers
