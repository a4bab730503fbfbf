import Imconee.Handlers.Provenance
import Imconee.Handlers.Threads

/-!
# Placing a bridge

`handler::bridge(pipe1, pipe2)` walks along the list of threads and offers the pair to one
after the other. If none takes it, the call links a new thread to the end of the list, gives
up the lock of the list, adds the pair to its thread, and runs the thread until it stops.

A step of a walk is the visit of one thread. The lock of the list is held from the start of
a walk to its end, so that between its steps only the slots of the threads change. A thread
that is deleted may lend its address to a new one.
-/

set_option autoImplicit false

namespace Imconee.Handlers

open Imconee.Netkit

variable {T C P : Type}

/-- `check` -/
def ProcessingThread.check (self : ProcessingThread P) : ℤ :=
  if self.numslots < 0 then -1 else 0

/-- Where a call of `bridge` is: it has threads behind it and ahead of it; it has linked a
thread; it runs it. -/
inductive Stage (T : Type) where
  | idle
  | walking (passed ahead : List T) (checkOnly : Bool)
  | linked (npt : T)
  | running (npt : T) (phase : Phase)
  | returned
  deriving DecidableEq

/-- The thread that a call has made. -/
@[grind]
def Stage.npt : Stage T → Option T
  | .linked npt => some npt
  | .running npt _ => some npt
  | _ => none

/-- The pair has been handed to a thread, or the thread of the call itself runs. -/
@[grind]
def Stage.placed : Stage T → Bool
  | .walking _ _ checkOnly => checkOnly
  | .running _ _ => true
  | .returned => true
  | _ => false

/-- What a call does next. -/
inductive Action (T : Type) where
  | begin
  | visit
  | giveBack
  | link (npt : T)
  | addOwn
  | register
  | mark (i : ℕ) (first : Bool) (w : Waitable)
  | wait (masks : Mask)
  | finish
  | forward
  | resume (stop : Bool)
  | remove

/-- `handler`: the list of threads, which begins at `pth`, and the calls of `bridge`. -/
structure Handler (T C P : Type) where
  chain : List T := []
  thread : T → ProcessingThread (PipePtr P) := fun _ => {}
  stage : C → Stage T := fun _ => .idle
  locked : Bool := false

theorem ProcessingThread.tryAddBridge_cases (self : ProcessingThread P) (pipe1 pipe2 : Option P) :
    (self.numslots < 0 ∧ self.tryAddBridge pipe1 pipe2 = (-1, self)) ∨
    (0 ≤ self.numslots ∧ self.numslots < maximumSlots ∧ self.tryAddBridge pipe1 pipe2 =
      (1, { numslots := self.numslots + 1
            slots := Function.update self.slots self.numslots.toNat { pipe1, pipe2 } })) ∨
    (0 ≤ self.numslots ∧ maximumSlots ≤ self.numslots ∧
      self.tryAddBridge pipe1 pipe2 = (0, self)) := by
  rw [ProcessingThread.tryAddBridge]
  split
  · rename_i negative
    exact Or.inl ⟨negative, rfl⟩
  · rename_i nonneg
    split
    · rename_i room
      exact Or.inr (Or.inl ⟨by omega, room, rfl⟩)
    · rename_i full
      exact Or.inr (Or.inr ⟨by omega, by omega, rfl⟩)

theorem ProcessingThread.numslots_tryAddBridge {self : ProcessingThread P} {pipe1 pipe2 : Option P}
    (nonneg : 0 ≤ self.numslots) : 0 ≤ (self.tryAddBridge pipe1 pipe2).2.numslots := by
  rcases self.tryAddBridge_cases pipe1 pipe2 with ⟨-, same⟩ | ⟨-, -, same⟩ | ⟨-, -, same⟩
  · rw [same]
    exact nonneg
  · rw [same]
    dsimp only
    omega
  · rw [same]
    exact nonneg

namespace Handler

variable [DecidableEq T] [DecidableEq C]

def put (s : Handler T C P) (c : C) (stage : Stage T) : Handler T C P :=
  { s with stage := Function.update s.stage c stage }

def set (s : Handler T C P) (t : T) (thread : ProcessingThread (PipePtr P)) : Handler T C P :=
  { s with thread := Function.update s.thread t thread }

def begin (s : Handler T C P) (c : C) : Handler T C P :=
  { s.put c (.walking [] s.chain false) with locked := true }

/-- One round of the walk. Behind a thread that is deleted the next one is passed over. -/
def visit (s : Handler T C P) (c : C) (pair : PipePtr P × PipePtr P) (passed : List T) (t : T)
    (ahead : List T) (checkOnly : Bool) : Handler T C P :=
  let tried := if checkOnly then ((s.thread t).check, s.thread t)
    else (s.thread t).tryAddBridge (some pair.1) (some pair.2)
  if tried.1 < 0 then
    { s.put c (.walking (passed ++ ahead.take 1) (ahead.drop 1) checkOnly) with
      chain := passed ++ ahead }
  else (s.set t tried.2).put c (.walking (passed ++ [t]) ahead (checkOnly || 0 < tried.1))

def giveBack (s : Handler T C P) (c : C) : Handler T C P :=
  { s.put c .returned with locked := false }

/-- `ptr->reset(npt); st.unlock()` -/
def link (s : Handler T C P) (c : C) (passed : List T) (npt : T) : Handler T C P :=
  { (s.set npt {}).put c (.linked npt) with
    chain := passed ++ [npt]
    locked := false }

/-- `npt->try_add_bridge(pipe1, pipe2)`, whose value is not looked at -/
def addOwn (s : Handler T C P) (c : C) (pair : PipePtr P × PipePtr P) (npt : T) : Handler T C P :=
  (s.set npt ((s.thread npt).tryAddBridge (some pair.1) (some pair.2)).2).put c
    (.running npt .running)

def register (impl : PipeImpl P) (s : Handler T C P) (c : C) (npt : T) : Handler T C P :=
  let registered := (s.thread npt).register impl.ptr
  (s.set npt registered.2).put c (.running npt (if registered.1 then .waiting else .stopped))

/-- `wait` marks one of the registered pipes. -/
def mark (impl : PipeImpl P) (s : Handler T C P) (c : C) (npt : T) (i : ℕ) (first : Bool)
    (w : Waitable) : Handler T C P :=
  let slot := (s.thread npt).slots i
  let marked := if first
    then { slot with pipe1 := slot.pipe1.map fun pipe => impl.ptr.setWaitable pipe w }
    else { slot with pipe2 := slot.pipe2.map fun pipe => impl.ptr.setWaitable pipe w }
  (s.set npt { s.thread npt with slots := Function.update (s.thread npt).slots i marked }).put c
    (.running npt .waiting)

def wait (s : Handler T C P) (c : C) (npt : T) (masks : Mask) : Handler T C P :=
  s.put c (.running npt (if masks.isEmpty then .returned 0
    else .processing (s.thread npt).numslots.toNat masks))

def finish (s : Handler T C P) (c : C) (npt : T)
    (finished : ProcessingThread.Finished (PipePtr P)) : Handler T C P :=
  (s.set npt finished.thread).put c (.running npt (.returned finished.rv))

def forward (s : Handler T C P) (c : C) (npt next : T) (slot : ℕ) : Handler T C P :=
  let forwarded := (s.thread npt).forward slot (s.thread next)
  ((s.set npt forwarded.2.1).set next forwarded.2.2).put c
    (.running npt (if forwarded.1 then .stopped else .running))

/-- The loop at the end of `bridge`, which takes the thread off the list. -/
def remove (s : Handler T C P) (c : C) (npt : T) : Handler T C P :=
  { s.put c .returned with chain := s.chain.erase npt }

/-- `get_next` -/
def next (s : Handler T C P) (npt : T) : Option T := (s.chain.dropWhile (· ≠ npt))[1]?

/-- The next step of a call. -/
def step (impl : PipeImpl P) (pair : C → PipePtr P × PipePtr P) (s : Handler T C P) (c : C)
    (action : Action T) : Option (Handler T C P) :=
  match s.stage c, action with
  | .idle, .begin => if s.locked then none else some (s.begin c)
  | .walking passed (t :: ahead) checkOnly, .visit =>
      some (s.visit c (pair c) passed t ahead checkOnly)
  | .walking _ [] true, .giveBack => some (s.giveBack c)
  | .walking passed [] false, .link npt =>
      if npt ∈ s.chain then none else some (s.link c passed npt)
  | .linked npt, .addOwn => some (s.addOwn c (pair c) npt)
  | .running npt .running, .register => some (s.register impl c npt)
  | .running npt .waiting, .mark i first w => some (s.mark impl c npt i first w)
  | .running npt .waiting, .wait masks => some (s.wait c npt masks)
  | .running npt (.processing curNumslots masks), .finish =>
      ((s.thread npt).finishTick impl.ptr curNumslots masks).map fun finished =>
        s.finish c npt finished
  | .running npt (.returned r), .forward =>
      if s.locked ∨ r < 0 ∨ maximumSlots ≤ r then none
      else (s.next npt).map fun next => s.forward c npt next r.toNat
  | .running npt (.returned r), .resume stop =>
      some (s.put c (.running npt (if r < 0 ∨ stop then .stopped else .running)))
  | .running npt .stopped, .remove => if s.locked then none else some (s.remove c npt)
  | _, _ => none

/-- What the calls of `bridge` come to. -/
inductive Run (impl : PipeImpl P) (pair : C → PipePtr P × PipePtr P)
    (fine : Handler T C P → Action T → Prop) : Handler T C P → Prop where
  | start : Run impl pair fine {}
  | step {s next : Handler T C P} (run : Run impl pair fine s) (c : C) (action : Action T)
      (good : fine s action) (steps : s.step impl pair c action = some next) :
      Run impl pair fine next

/-- A new thread does not get the address of one that some call has still to take off. -/
def Unused (s : Handler T C P) : Action T → Prop
  | .link npt => ∀ c, (s.stage c).npt ≠ some npt
  | _ => True

/-- A slot in use, of a thread in the list, that holds a pair. -/
def HeldAt (s : Handler T C P) (pair : PipePtr P × PipePtr P) (place : T × ℕ) : Prop :=
  place.1 ∈ s.chain ∧ (place.2 : ℤ) < (s.thread place.1).numslots ∧
    ((s.thread place.1).slots place.2).connection = some (pair.1.address, pair.2.address)

/-- The pipe is the first one of a pair that has been placed. -/
def Seen (pair : C → PipePtr P × PipePtr P) (s : Handler T C P) (ptr : PipePtr P) : Prop :=
  ∃ c, (s.stage c).placed = true ∧ (pair c).1.address = ptr.address

/-- What holds of the list, the walk, the new threads and the slots. -/
structure Sound (pair : C → PipePtr P × PipePtr P) (s : Handler T C P) : Prop where
  walks : ∀ c passed ahead checkOnly, s.stage c = .walking passed ahead checkOnly →
    s.locked = true ∧ s.chain = passed ++ ahead
  alone : ∀ c other passed ahead checkOnly passed' ahead' checkOnly',
    s.stage c = .walking passed ahead checkOnly →
    s.stage other = .walking passed' ahead' checkOnly' → c = other
  linked : ∀ c npt, s.stage c = .linked npt → npt ∈ s.chain ∧ 0 ≤ (s.thread npt).numslots
  apart : ∀ c other npt, s.stage c = .linked npt → (s.stage other).npt = some npt → other = c
  every : ∀ t, EverySlot (Seen pair s) (fun _ => True) (s.thread t).slots

namespace Sound

variable {impl : PipeImpl P} {pair : C → PipePtr P × PipePtr P} {s : Handler T C P} {c : C}

omit [DecidableEq T] [DecidableEq C] in
theorem start : Sound pair ({} : Handler T C P) := by
  constructor
  · simp
  · simp
  · simp
  · simp
  · intro t i
    exact Bridged.both_empty _ _

omit [DecidableEq T] in
theorem seen_put {stage : Stage T} (grows : (s.stage c).placed = true → stage.placed = true)
    {next : Handler T C P} (moved : next.stage = Function.update s.stage c stage)
    {ptr : PipePtr P} (seen : Seen pair s ptr) : Seen pair next ptr := by
  rcases seen with ⟨other, placed, address⟩
  refine ⟨other, ?_, address⟩
  rw [moved, Function.update_apply]
  grind

omit [DecidableEq T] in
theorem every_put (sound : s.Sound pair) {stage : Stage T}
    (grows : (s.stage c).placed = true → stage.placed = true) {next : Handler T C P}
    (moved : next.stage = Function.update s.stage c stage) (t : T) :
    EverySlot (Seen pair next) (fun _ => True) (s.thread t).slots :=
  (sound.every t).mono (fun _ => seen_put grows moved) fun _ => id

omit [DecidableEq T] [DecidableEq C] in
theorem keeps_seen (s : Handler T C P) :
    KeepsFitting impl.ptr (fun _ _ => True) (Seen pair s) where
  send _ _ seen := seen
  recv _ _ _ seen _ _ := seen
  getWaitable _ seen := seen
  setWaitable _ _ seen := seen

omit [DecidableEq T] in
/-- A call that does not go on to walk or to link a thread. -/
theorem calm (sound : s.Sound pair) {stage : Stage T} {next : Handler T C P}
    (moved : next.stage = Function.update s.stage c stage)
    (still : ∀ passed ahead checkOnly, stage ≠ .walking passed ahead checkOnly)
    (bound : ∀ npt, stage ≠ .linked npt)
    (own : ∀ npt, stage.npt = some npt → (s.stage c).npt = some npt)
    (list : (∃ passed ahead checkOnly, s.stage c = .walking passed ahead checkOnly) ∨
      next.locked = s.locked ∧ (next.chain = s.chain ∨ s.locked = false))
    (linked : ∀ other npt, other ≠ c → s.stage other = .linked npt →
      npt ∈ next.chain ∧ 0 ≤ (next.thread npt).numslots)
    (every : ∀ t, EverySlot (Seen pair next) (fun _ => True) (next.thread t).slots) :
    next.Sound pair := by
  have stays : ∀ other, other ≠ c → next.stage other = s.stage other := by
    intro other different
    rw [moved, Function.update_of_ne different]
  have here : next.stage c = stage := by rw [moved, Function.update_self]
  have others : ∀ other, (∀ passed ahead checkOnly,
      next.stage other = .walking passed ahead checkOnly → other ≠ c ∧
        s.stage other = .walking passed ahead checkOnly) ∧
      ∀ npt, next.stage other = .linked npt → other ≠ c ∧ s.stage other = .linked npt := by
    intro other
    grind
  refine ⟨?_, ?_, ?_, ?_, every⟩
  · intro other passed ahead checkOnly walking
    rcases (others other).1 passed ahead checkOnly walking with ⟨different, walking⟩
    rcases sound.walks other passed ahead checkOnly walking with ⟨locked, chain⟩
    rcases list with ⟨_, _, _, walks⟩ | ⟨sameLock, sameChain | free⟩
    · exact absurd (sound.alone other c _ _ _ _ _ _ walking walks) different
    · exact ⟨sameLock.trans locked, sameChain.trans chain⟩
    · rw [free] at locked
      cases locked
  · intro one other passed ahead checkOnly passed' ahead' checkOnly' walking walking'
    exact sound.alone one other _ _ _ _ _ _ ((others one).1 _ _ _ walking).2
      ((others other).1 _ _ _ walking').2
  · intro other npt there
    rcases (others other).2 npt there with ⟨different, there⟩
    exact linked other npt different there
  · intro one other npt there refers
    rcases (others one).2 npt there with ⟨different, there⟩
    have same := sound.apart one other npt there
    by_cases isC : other = c
    · subst isC
      rw [here] at refers
      exact same (own npt refers)
    · rw [stays other isC] at refers
      exact same refers

omit [DecidableEq T] in
theorem begin (sound : s.Sound pair) (here : s.stage c = .idle) (free : s.locked = false) :
    (s.begin c).Sound pair := by
  have nobody : ∀ other passed ahead checkOnly,
      s.stage other ≠ .walking passed ahead checkOnly := by
    intro other passed ahead checkOnly walking
    rw [(sound.walks other _ _ _ walking).1] at free
    cases free
  refine ⟨?_, ?_, ?_, ?_, ?_⟩
  · intro other passed ahead checkOnly walking
    simp only [Handler.begin, put, Function.update_apply] at walking ⊢
    grind
  · intro one other passed ahead checkOnly passed' ahead' checkOnly' walking walking'
    simp only [Handler.begin, put, Function.update_apply] at walking walking'
    grind
  · intro other npt there
    apply sound.linked other npt
    simp only [Handler.begin, put, Function.update_apply] at there
    grind
  · intro one other npt there refers
    apply sound.apart one other npt
    · simp only [Handler.begin, put, Function.update_apply] at there
      grind
    · simp only [Handler.begin, put, Function.update_apply] at refers
      grind
  · exact sound.every_put (by simp [here, Stage.placed]) rfl

omit [DecidableEq T] in
theorem walk (sound : s.Sound pair) {passed ahead : List T} {checkOnly : Bool}
    (here : s.stage c = .walking passed ahead checkOnly) {passed' ahead' : List T}
    {checkOnly' : Bool} {next : Handler T C P}
    (moved : next.stage = Function.update s.stage c (.walking passed' ahead' checkOnly'))
    (locked : next.locked = s.locked) (chain : next.chain = passed' ++ ahead')
    (linked : ∀ other npt, s.stage other = .linked npt →
      npt ∈ next.chain ∧ 0 ≤ (next.thread npt).numslots)
    (every : ∀ t, EverySlot (Seen pair next) (fun _ => True) (next.thread t).slots) :
    next.Sound pair := by
  have lock := (sound.walks c _ _ _ here).1
  have alone := sound.alone c
  have stays : ∀ other, other ≠ c → next.stage other = s.stage other := by
    intro other different
    rw [moved, Function.update_of_ne different]
  have walks : next.stage c = .walking passed' ahead' checkOnly' := by
    rw [moved, Function.update_self]
  have walker : ∀ other passed ahead checkOnly,
      next.stage other = .walking passed ahead checkOnly → other = c := by
    intro other passed ahead checkOnly walking
    grind
  have still : ∀ other npt, next.stage other = .linked npt → s.stage other = .linked npt := by
    intro other npt there
    grind
  refine ⟨?_, ?_, ?_, ?_, every⟩
  · intro other passed ahead checkOnly walking
    have same := walker other _ _ _ walking
    subst same
    rw [moved, Function.update_self] at walking
    cases walking
    exact ⟨locked.trans lock, chain⟩
  · intro one other passed ahead checkOnly passed' ahead' checkOnly' walking walking'
    exact (walker one _ _ _ walking).trans (walker other _ _ _ walking').symm
  · intro other npt there
    exact linked other npt (still other npt there)
  · intro one other npt there refers
    apply sound.apart one other npt (still one npt there)
    by_cases isC : other = c
    · rw [isC, walks] at refers
      cases refers
    · rwa [stays other isC] at refers

omit [DecidableEq T] in
theorem delete (sound : s.Sound pair) {passed ahead : List T} {t : T} {checkOnly : Bool}
    (here : s.stage c = .walking passed (t :: ahead) checkOnly)
    (negative : (s.thread t).numslots < 0) :
    Sound pair { s.put c (.walking (passed ++ ahead.take 1) (ahead.drop 1) checkOnly) with
      chain := passed ++ ahead } := by
  have chain := (sound.walks c _ _ _ here).2
  refine sound.walk here rfl rfl ?_ ?_ ?_
  · dsimp only
    rw [List.append_assoc, List.take_append_drop]
  · intro other npt there
    rcases sound.linked other npt there with ⟨member, nonneg⟩
    rw [chain] at member
    refine ⟨?_, nonneg⟩
    have apart : npt ≠ t := by
      rintro rfl
      omega
    simpa [apart] using member
  · exact sound.every_put (by simp [here, Stage.placed]) rfl

/-- The thread in front of the walk stays in the list. -/
theorem pass (sound : s.Sound pair) {passed ahead : List T} {t : T} {checkOnly : Bool}
    (here : s.stage c = .walking passed (t :: ahead) checkOnly)
    {thread : ProcessingThread (PipePtr P)} {checkOnly' : Bool}
    (more : checkOnly = true → checkOnly' = true)
    (nonneg : 0 ≤ (s.thread t).numslots → 0 ≤ thread.numslots)
    (every : EverySlot
      (Seen pair ((s.set t thread).put c (.walking (passed ++ [t]) ahead checkOnly')))
      (fun _ => True) thread.slots) :
    ((s.set t thread).put c (.walking (passed ++ [t]) ahead checkOnly')).Sound pair := by
  refine sound.walk here rfl rfl ?_ ?_ ?_
  · rw [List.append_assoc]
    exact (sound.walks c _ _ _ here).2
  · intro other npt there
    rcases sound.linked other npt there with ⟨member, open_⟩
    refine ⟨member, ?_⟩
    simp only [put, set, Function.update_apply]
    split
    · rename_i same
      exact nonneg (same ▸ open_)
    · exact open_
  · intro other
    simp only [put, set, Function.update_apply]
    split
    · exact every
    · exact sound.every_put (by rw [here]; exact more) rfl other

theorem visit (sound : s.Sound pair) {passed ahead : List T} {t : T} {checkOnly : Bool}
    (here : s.stage c = .walking passed (t :: ahead) checkOnly) :
    (s.visit c (pair c) passed t ahead checkOnly).Sound pair := by
  rw [Handler.visit]
  cases checkOnly with
  | true =>
      simp only [if_true, Bool.true_or, ProcessingThread.check]
      split
      · rename_i refused
        apply sound.delete here
        by_contra nonneg
        simp [nonneg] at refused
      · exact sound.pass here id id (sound.every_put (by simp [Stage.placed]) rfl t)
  | false =>
      simp only [Bool.false_eq_true, if_false, Bool.false_or]
      rcases (s.thread t).tryAddBridge_cases (some (pair c).1) (some (pair c).2) with
        ⟨negative, same⟩ | ⟨nonneg, room, same⟩ | ⟨nonneg, full, same⟩
      · simp only [same]
        exact sound.delete here negative
      · simp only [same]
        apply sound.pass here (fun _ => rfl)
        · intro _
          dsimp only
          omega
        · apply EverySlot.update
          · exact sound.every_put (by simp [Stage.placed]) rfl t
          · refine ⟨?_, fun _ _ => trivial⟩
            rintro ptr ⟨⟩
            exact ⟨c, by simp [put, Stage.placed], rfl⟩
      · simp only [same]
        exact sound.pass here id id (sound.every_put (by simp [here, Stage.placed]) rfl t)

theorem link (sound : s.Sound pair) {passed : List T} {npt : T}
    (here : s.stage c = .walking passed [] false) (new : npt ∉ s.chain)
    (unused : ∀ c, (s.stage c).npt ≠ some npt) : (s.link c passed npt).Sound pair := by
  have chain := (sound.walks c _ _ _ here).2
  have stays : ∀ other, other ≠ c → (s.link c passed npt).stage other = s.stage other := by
    intro other different
    exact Function.update_of_ne different _ _
  have links : (s.link c passed npt).stage c = .linked npt := Function.update_self _ _ _
  have nobody : ∀ other passed' ahead checkOnly,
      (s.link c passed npt).stage other ≠ .walking passed' ahead checkOnly := by
    intro other passed' ahead checkOnly walking
    by_cases isC : other = c
    · rw [isC, links] at walking
      cases walking
    · rw [stays other isC] at walking
      exact isC (sound.alone other c _ _ _ _ _ _ walking here)
  refine ⟨?_, ?_, ?_, ?_, ?_⟩
  · intro other passed' ahead checkOnly walking
    exact absurd walking (nobody other _ _ _)
  · intro one other passed' ahead checkOnly passed'' ahead' checkOnly' walking _
    exact absurd walking (nobody one _ _ _)
  · intro other t there
    by_cases isC : other = c
    · rw [isC, links] at there
      cases there
      exact ⟨by simp [Handler.link], by simp [Handler.link, put, set]⟩
    · rw [stays other isC] at there
      rcases sound.linked other t there with ⟨member, nonneg⟩
      have apart : t ≠ npt := by
        rintro rfl
        exact new member
      rw [chain, List.append_nil] at member
      exact ⟨List.mem_append_left _ member, by simpa [Handler.link, put, set, apart] using nonneg⟩
  · intro one other t there refers
    have same : t = npt → other = c := by
      rintro rfl
      by_contra isC
      rw [stays other isC] at refers
      exact unused other refers
    by_cases isC : one = c
    · subst isC
      rw [links] at there
      cases there
      exact same rfl
    · rw [stays one isC] at there
      by_cases isC' : other = c
      · subst isC'
        rw [links] at refers
        cases refers
        exact absurd (by rw [there]; rfl) (unused one)
      · rw [stays other isC'] at refers
        exact sound.apart one other t there refers
  · intro t
    simp only [Handler.link, put, set, Function.update_apply]
    split
    · intro i
      exact Bridged.both_empty _ _
    · exact sound.every_put (by simp [here, Stage.placed]) rfl t

theorem tend (sound : s.Sound pair) {npt : T} (own : (s.stage c).npt = some npt) {phase : Phase}
    {thread : ProcessingThread (PipePtr P)}
    (every : EverySlot (Seen pair ((s.set npt thread).put c (.running npt phase))) (fun _ => True)
      thread.slots) : ((s.set npt thread).put c (.running npt phase)).Sound pair := by
  apply sound.calm rfl
  · simp
  · simp
  · intro other same
    cases same
    exact own
  · exact Or.inr ⟨rfl, Or.inl rfl⟩
  · intro other t different there
    have apart : t ≠ npt := by
      rintro rfl
      exact different (sound.apart other c t there own).symm
    simpa [put, set, apart] using sound.linked other t there
  · intro t
    simp only [put, set, Function.update_apply]
    split
    · exact every
    · exact sound.every_put (by simp [Stage.placed]) rfl t

theorem forward (sound : s.Sound pair) {npt : T} {phase : Phase}
    (here : s.stage c = .running npt phase) (next : T) (slot : ℕ) :
    (s.forward c npt next slot).Sound pair := by
  have every := ProcessingThread.everySlot_forward (sound.every npt) (sound.every next) slot
  have nonneg : 0 ≤ (s.thread next).numslots →
      0 ≤ ((s.thread npt).forward slot (s.thread next)).2.2.numslots := by
    intro nonneg
    rw [ProcessingThread.forward]
    dsimp only
    split
    · split
      · exact ProcessingThread.numslots_tryAddBridge nonneg
      · exact ProcessingThread.numslots_tryAddBridge nonneg
    · exact nonneg
  refine sound.calm rfl ?_ ?_ ?_ (Or.inr ⟨rfl, Or.inl rfl⟩) ?_ ?_
  · simp
  · simp
  · intro other same
    cases same
    rw [here]
    rfl
  · intro other t different there
    have apart : t ≠ npt := by
      rintro rfl
      exact different (sound.apart other c t there (by rw [here]; rfl)).symm
    rcases sound.linked other t there with ⟨member, open_⟩
    refine ⟨member, ?_⟩
    by_cases isNext : t = next
    · subst isNext
      simpa [Handler.forward, put, set] using nonneg open_
    · simpa [Handler.forward, put, set, isNext, apart] using open_
  · intro t
    have grows : ∀ ptr, Seen pair s ptr → Seen pair (s.forward c npt next slot) ptr := by
      intro ptr
      apply seen_put _ rfl
      simp [Stage.placed]
    have thread : (s.forward c npt next slot).thread t =
        if t = next then ((s.thread npt).forward slot (s.thread next)).2.2
        else if t = npt then ((s.thread npt).forward slot (s.thread next)).2.1
        else s.thread t := by
      simp only [Handler.forward, put, set, Function.update_apply]
    rw [thread]
    split
    · exact every.2.mono grows fun _ => id
    · split
      · exact every.1.mono grows fun _ => id
      · exact (sound.every t).mono grows fun _ => id

theorem remove (sound : s.Sound pair) {npt : T} {phase : Phase}
    (here : s.stage c = .running npt phase) (free : s.locked = false) :
    (s.remove c npt).Sound pair := by
  refine sound.calm rfl ?_ ?_ ?_ (Or.inr ⟨rfl, Or.inr free⟩) ?_ ?_
  · simp
  · simp
  · simp [Stage.npt]
  · intro other t different there
    have apart : t ≠ npt := by
      rintro rfl
      exact different (sound.apart other c t there (by rw [here]; rfl)).symm
    rcases sound.linked other t there with ⟨member, nonneg⟩
    exact ⟨(List.mem_erase_of_ne apart).mpr member, nonneg⟩
  · exact sound.every_put (by simp [Stage.placed]) rfl

omit [DecidableEq T] in
theorem giveBack (sound : s.Sound pair) {passed : List T}
    (here : s.stage c = .walking passed [] true) : (s.giveBack c).Sound pair := by
  refine sound.calm rfl ?_ ?_ ?_ (Or.inl ⟨_, _, _, here⟩) ?_ ?_
  · simp
  · simp
  · simp [Stage.npt]
  · intro other t different there
    exact sound.linked other t there
  · exact sound.every_put (by simp [Stage.placed]) rfl

/-- A call that changes the slots of its own thread as `tick` does. -/
theorem change (sound : s.Sound pair) {npt : T} (own : (s.stage c).npt = some npt) {phase : Phase}
    {thread : ProcessingThread (PipePtr P)}
    (every : EverySlot (Seen pair s) (fun _ => True) thread.slots) :
    ((s.set npt thread).put c (.running npt phase)).Sound pair := by
  apply sound.tend own
  exact every.mono (fun _ => seen_put (by simp [Stage.placed]) rfl) fun _ => id

theorem goOn (sound : s.Sound pair) {npt : T} (own : (s.stage c).npt = some npt) (phase : Phase) :
    (s.put c (.running npt phase)).Sound pair := by
  have same : s.set npt (s.thread npt) = s := by
    rw [set, Function.update_eq_self]
  have changed : ((s.set npt (s.thread npt)).put c (.running npt phase)).Sound pair :=
    sound.change own (sound.every npt)
  rwa [same] at changed

theorem addOwn (sound : s.Sound pair) {npt : T} (here : s.stage c = .linked npt) :
    (s.addOwn c (pair c) npt).Sound pair := by
  apply sound.tend (by rw [here]; rfl)
  apply ProcessingThread.everySlot_tryAddBridge
  · exact sound.every_put (by simp [Stage.placed]) rfl npt
  · refine ⟨?_, fun _ _ => trivial⟩
    rintro ptr ⟨⟩
    exact ⟨c, by simp [put, Stage.placed], rfl⟩

theorem step (sound : s.Sound pair) {next : Handler T C P} {action : Action T}
    (unused : s.Unused action) (steps : s.step impl pair c action = some next) :
    next.Sound pair := by
  have keeps1 := @keeps_seen _ _ _ impl pair s
  have keeps2 : KeepsFitting impl.ptr (fun _ _ => True) fun _ => True :=
    ⟨fun _ _ => id, fun _ _ _ _ _ _ => trivial, fun _ => id, fun _ _ => id⟩
  unfold Handler.step at steps
  split at steps
  · rename_i here
    split at steps
    · cases steps
    · rename_i free
      cases steps
      exact sound.begin here (Bool.eq_false_iff.mpr free)
  · cases steps
    exact sound.visit ‹_›
  · cases steps
    exact sound.giveBack ‹_›
  · rename_i here
    split at steps
    · cases steps
    · rename_i new
      cases steps
      exact sound.link here new unused
  · cases steps
    exact sound.addOwn ‹_›
  · rename_i here
    cases steps
    exact sound.change (by rw [here]; rfl)
      (ProcessingThread.everySlot_register keeps1 keeps2 (sound.every _))
  · rename_i i first w here
    cases steps
    apply sound.change (by rw [here]; rfl)
    apply EverySlot.update (sound.every _)
    split
    · exact keeps1.mark1 (sound.every _ _) w
    · exact keeps2.mark2 (sound.every _ _) w
  · rename_i here
    cases steps
    exact sound.goOn (by rw [here]; rfl) _
  · rename_i here
    rcases Option.map_eq_some_iff.mp steps with ⟨finished, finishes, rfl⟩
    exact sound.change (by rw [here]; rfl)
      (ProcessingThread.everySlot_finishTick keeps1 keeps2 (sound.every _) finishes)
  · rename_i here
    split at steps
    · cases steps
    · rcases Option.map_eq_some_iff.mp steps with ⟨following, -, rfl⟩
      exact sound.forward here following _
  · rename_i here
    cases steps
    exact sound.goOn (by rw [here]; rfl) _
  · rename_i here
    split at steps
    · cases steps
    · rename_i free
      cases steps
      exact sound.remove here (Bool.eq_false_iff.mpr free)
  · cases steps

theorem run (run : Run impl pair Unused s) : s.Sound pair := by
  induction run with
  | start => exact start
  | step run c action unused steps ih => exact ih.step unused steps

end Sound

section

variable {impl : PipeImpl P} {pair : C → PipePtr P × PipePtr P} {s : Handler T C P} {c : C}

/-- The slots of the threads, one of which has been offered a pair. -/
def Offered (pair : PipePtr P × PipePtr P) (s next : Handler T C P) (t : T) : Prop :=
  t ∈ next.chain ∧ next.thread = Function.update s.thread t
    ((s.thread t).tryAddBridge (some pair.1) (some pair.2)).2

omit [DecidableEq T] [DecidableEq C] in
theorem not_heldAt (sound : s.Sound pair)
    (distinct : Function.Injective fun c => (pair c).1.address)
    (before : (s.stage c).placed = false) (t : T) (i : ℕ) :
    ((s.thread t).slots i).connection ≠ some ((pair c).1.address, (pair c).2.address) := by
  intro there
  have both := sound.every t i
  rw [Bridged.connection] at there
  split at there
  · rename_i pipe1 pipe2 there1 there2
    rcases both.1 pipe1 there1 with ⟨other, placed, address⟩
    simp only [Option.some.injEq, Prod.mk.injEq] at there
    have same : other = c := distinct (address.trans there.1)
    rw [same, before] at placed
    cases placed
  · cases there

omit [DecidableEq C] in
/-- A pair that is taken is in the slot behind those in use, and in no other one. -/
theorem existsUnique_place (sound : s.Sound pair)
    (distinct : Function.Injective fun c => (pair c).1.address)
    (before : (s.stage c).placed = false) {next : Handler T C P} {t : T}
    (offered : Offered (pair c) s next t) (nonneg : 0 ≤ (s.thread t).numslots)
    (room : (s.thread t).numslots < maximumSlots) : ∃! place, next.HeldAt (pair c) place := by
  rcases offered with ⟨member, threads⟩
  rcases (s.thread t).tryAddBridge_cases (some (pair c).1) (some (pair c).2) with
    ⟨negative, -⟩ | ⟨-, -, taken⟩ | ⟨-, full, -⟩
  · omega
  · rw [taken] at threads
    have absent := not_heldAt sound distinct before
    refine ⟨(t, (s.thread t).numslots.toNat), ⟨member, ?_, ?_⟩, ?_⟩
    · rw [threads, Function.update_self]
      dsimp only
      omega
    · rw [threads, Function.update_self]
      dsimp only
      rw [Function.update_self]
      rfl
    · rintro ⟨other, i⟩ ⟨-, inside, there⟩
      dsimp only at inside there
      rw [threads] at there
      by_cases same : other = t
      · subst same
        rw [Function.update_self] at there
        dsimp only at there
        by_cases slot : i = (s.thread other).numslots.toNat
        · rw [slot]
        · rw [Function.update_of_ne slot] at there
          exact absurd there (absent other i)
      · rw [Function.update_of_ne same] at there
        exact absurd there (absent other i)
  · omega

omit [DecidableEq C] in
theorem not_place (sound : s.Sound pair)
    (distinct : Function.Injective fun c => (pair c).1.address)
    (before : (s.stage c).placed = false) {next : Handler T C P} {t : T}
    (offered : Offered (pair c) s next t) (full : maximumSlots ≤ (s.thread t).numslots)
    (place : T × ℕ) : ¬next.HeldAt (pair c) place := by
  rcases (s.thread t).tryAddBridge_cases (some (pair c).1) (some (pair c).2) with
    ⟨negative, -⟩ | ⟨-, room, -⟩ | ⟨-, -, refused⟩
  · rw [maximumSlots] at full
    omega
  · omega
  · have same := offered.2
    rw [refused, Function.update_eq_self] at same
    rintro ⟨-, -, there⟩
    rw [same] at there
    exact not_heldAt sound distinct before place.1 place.2 there

/-- A step that places a pair offers it to a thread, which takes it unless it is the thread of
the call itself and full. -/
theorem offered_of_step (sound : s.Sound pair) {action : Action T} {next : Handler T C P}
    (steps : s.step impl pair c action = some next) (before : (s.stage c).placed = false)
    (after : (next.stage c).placed = true) :
    ∃ t, Offered (pair c) s next t ∧ 0 ≤ (s.thread t).numslots ∧
      (s.stage c = .linked t ∨ (s.thread t).numslots < maximumSlots ∧
        ∀ npt, s.stage c ≠ .linked npt) := by
  unfold Handler.step at steps
  split at steps
  · split at steps
    · cases steps
    · cases steps
      simp [begin, put, Stage.placed] at after
  · rename_i passed t ahead checkOnly here
    cases steps
    have chain := (sound.walks c _ _ _ here).2
    rw [here] at before
    simp only [Stage.placed] at before
    subst before
    refine ⟨t, ?_⟩
    rcases (s.thread t).tryAddBridge_cases (some (pair c).1) (some (pair c).2) with
      ⟨negative, same⟩ | ⟨nonneg, room, same⟩ | ⟨nonneg, full, same⟩
    · simp [visit, same, put, Stage.placed] at after
    · refine ⟨⟨?_, ?_⟩, nonneg, Or.inr ⟨room, by simp [here]⟩⟩
      · simp [visit, same, put, set, chain]
      · simp [visit, same, put, set]
    · simp [visit, same, put, Stage.placed] at after
  · rename_i here
    simp [here, Stage.placed] at before
  · split at steps
    · cases steps
    · cases steps
      simp [link, put, Stage.placed] at after
  · rename_i npt here
    cases steps
    rcases sound.linked c npt here with ⟨member, nonneg⟩
    exact ⟨npt, ⟨member, rfl⟩, nonneg, Or.inl here⟩
  case h_13 => cases steps
  all_goals
    rename_i here
    simp [here, Stage.placed] at before

end

/-- Some steps. -/
def steps (impl : PipeImpl P) (pair : C → PipePtr P × PipePtr P) (s : Handler T C P) :
    List (C × Action T) → Option (Handler T C P)
  | [] => some s
  | (c, action) :: rest => (s.step impl pair c action).bind fun next => next.steps impl pair rest

theorem Run.steps {impl : PipeImpl P} {pair : C → PipePtr P × PipePtr P} {s next : Handler T C P}
    (run : Run impl pair (fun _ _ => True) s) {moves : List (C × Action T)}
    (done : s.steps impl pair moves = some next) : Run impl pair (fun _ _ => True) next := by
  induction moves generalizing s with
  | nil =>
      cases done
      exact run
  | cons first rest ih =>
      rcases Option.bind_eq_some_iff.mp done with ⟨between, step, done⟩
      exact ih (run.step first.1 first.2 trivial step) done

end Handler

/-- A pair is placed: it is handed to a thread of the list, or the thread of its own call
starts to run. It is then in exactly one slot of exactly one thread, if and only if its own
thread, where it is that one, has room for it; others may have filled it since it was linked. -/
theorem placed_iff [DecidableEq T] [DecidableEq C] {impl : PipeImpl P}
    {pair : C → PipePtr P × PipePtr P} (distinct : Function.Injective fun c => (pair c).1.address)
    {s next : Handler T C P} (run : Handler.Run impl pair Handler.Unused s) {c : C}
    {action : Action T} (steps : s.step impl pair c action = some next)
    (before : (s.stage c).placed = false) (after : (next.stage c).placed = true) :
    (∃! place, next.HeldAt (pair c) place) ↔
      ∀ npt, s.stage c = .linked npt → (s.thread npt).numslots < maximumSlots := by
  have sound := Handler.Sound.run run
  rcases Handler.offered_of_step sound steps before after with
    ⟨t, offered, nonneg, linked | ⟨room, existing⟩⟩
  · constructor
    · intro held npt here
      by_contra full
      rw [linked] at here
      cases here
      rcases held with ⟨place, held, -⟩
      exact Handler.not_place sound distinct before offered (by omega) place held
    · intro room
      exact Handler.existsUnique_place sound distinct before offered nonneg (room t linked)
  · constructor
    · intro _ npt here
      exact absurd here (existing npt)
    · intro _
      exact Handler.existsUnique_place sound distinct before offered nonneg room

/-- The pairs of calls that are known by numbers. -/
def numberedPair (c : ℕ) : PipePtr MemoryPipe × PipePtr MemoryPipe :=
  (⟨2 * c, {}⟩, ⟨2 * c + 1, {}⟩)

theorem numberedPair_injective : Function.Injective fun c => (numberedPair c).1.address := by
  intro one other same
  simp only [numberedPair] at same
  omega

theorem placed_iff_alone :
    ∃! place : Unit × ℕ, ((((({} : Handler Unit ℕ MemoryPipe).begin 0).link 0 [] ()).addOwn 0
      (numberedPair 0) ()).HeldAt (numberedPair 0) place) := by
  have begun : Handler.Run memoryPipe numberedPair Handler.Unused _ :=
    .step .start 0 (.begin : Action Unit) trivial rfl
  have linked := Handler.Run.step begun 0 (.link ()) (by
    intro c
    by_cases first : c = 0 <;> simp [Handler.begin, Handler.put, Stage.npt, first]) rfl
  have added : (((({} : Handler Unit ℕ MemoryPipe).begin 0).link 0 [] ()).step memoryPipe
      numberedPair 0 .addOwn) = some _ := rfl
  apply (placed_iff numberedPair_injective linked added rfl rfl).mpr
  intro npt _
  simp [Handler.link, Handler.put, Handler.set, maximumSlots]

/-- The first call links a thread, and thirty others hand their pairs to it. -/
def crowd : List (ℕ × Action Unit) :=
  (0, .begin) :: (0, .link ()) :: (List.range 30).flatMap fun c =>
    [(c + 1, .begin), (c + 1, .visit), (c + 1, .giveBack)]

def crowded : Handler Unit ℕ MemoryPipe :=
  (Handler.steps memoryPipe numberedPair {} crowd).get (by decide +kernel)

/-- Then its own pair is in no slot when its thread starts to run. -/
theorem unplaced_pair :
    Handler.Run memoryPipe numberedPair (fun _ _ => True) crowded ∧
      ∃ next, crowded.step memoryPipe numberedPair 0 .addOwn = some next ∧
        (crowded.stage 0).placed = false ∧ (next.stage 0).placed = true ∧
        ∀ place, ¬next.HeldAt (numberedPair 0) place := by
  have stage : crowded.stage 0 = .linked () := by decide +kernel
  have numslots : ∀ t, ((crowded.addOwn 0 (numberedPair 0) ()).thread t).numslots = 30 := by
    rintro ⟨⟩
    decide +kernel
  have slots : ∀ t, ∀ i < 30,
      (((crowded.addOwn 0 (numberedPair 0) ()).thread t).slots i).connection ≠
        some ((numberedPair 0).1.address, (numberedPair 0).2.address) := by
    rintro ⟨⟩
    decide +kernel
  refine ⟨Handler.Run.steps .start (Option.some_get _).symm,
    crowded.addOwn 0 (numberedPair 0) (), ?_, ?_, ?_, ?_⟩
  · simp only [Handler.step, stage]
  · rw [stage]
    rfl
  · simp [Handler.addOwn, Handler.put, Stage.placed]
  · rintro ⟨t, i⟩ ⟨-, inside, there⟩
    dsimp only at inside there
    rw [numslots] at inside
    exact slots t i (by omega) there

/-- Both ends of the first pair are closed, so that its thread locks itself. The second call
deletes that thread before the first one comes to it, and the one it makes has the same
address. -/
def reuse : List (ℕ × Action Unit) :=
  [(0, .begin), (0, .link ()), (0, .addOwn), (0, .register), (0, .wait { closem := bit 0 }),
    (0, .finish), (0, .resume false), (1, .begin), (1, .visit), (1, .link ()), (0, .remove)]

def reused : Handler Unit ℕ MemoryPipe :=
  (Handler.steps memoryPipe numberedPair {} reuse).get (by decide +kernel)

/-- The first call has then taken the thread of the second one off the list: its pair goes to
a thread that has room and that is not there any more. -/
theorem unplaced_reused :
    Handler.Run memoryPipe numberedPair (fun _ _ => True) reused ∧
      ∃ next, reused.step memoryPipe numberedPair 1 .addOwn = some next ∧
        (reused.stage 1).placed = false ∧ (next.stage 1).placed = true ∧
        (∀ npt, reused.stage 1 = .linked npt → (reused.thread npt).numslots < maximumSlots) ∧
        ∀ place, ¬next.HeldAt (numberedPair 1) place := by
  have stage : reused.stage 1 = .linked () := by decide +kernel
  have chain : (reused.addOwn 1 (numberedPair 1) ()).chain = [] := by decide +kernel
  have room : ∀ npt, (reused.thread npt).numslots < maximumSlots := by
    rintro ⟨⟩
    decide +kernel
  refine ⟨Handler.Run.steps .start (Option.some_get _).symm,
    reused.addOwn 1 (numberedPair 1) (), ?_, ?_, ?_, fun npt _ => room npt, ?_⟩
  · simp only [Handler.step, stage]
  · rw [stage]
    rfl
  · simp [Handler.addOwn, Handler.put, Stage.placed]
  · rintro ⟨t, i⟩ ⟨member, -, -⟩
    rw [chain] at member
    cases member

end Imconee.Handlers
