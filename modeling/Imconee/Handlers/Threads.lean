import Imconee.Handlers.Tick
import Imconee.Lib.Custody

/-!
# Threads

Threads that each run the loop of `handler::bridge(processing_thread*)`, and bridges that are
added to them at any time. A step is what one thread does under its lock. Connections are in
the custody of the threads: `try_add_bridge` takes one in, `forward` passes one on, and a
tick gives up those of which `process` has returned `SLOT_DEAD`.
-/

set_option autoImplicit false

namespace Imconee.Handlers

open Imconee.Netkit Imconee.Lib

variable {T P : Type}

/-- Where a thread is in the loop of `bridge`. -/
inductive Phase where
  | running
  | waiting
  | processing (curNumslots : ℕ) (masks : Mask)
  | returned (r : ℤ)
  | stopped
  deriving DecidableEq

/-- What is known of a thread at each point of the loop. -/
def Phase.Fits (numslots : ℤ) : Phase → Prop
  | .waiting => 0 < numslots
  | .processing curNumslots _ => curNumslots ≤ numslots
  | .returned r => r = -1 ∨ 0 ≤ r ∧ 0 < numslots ∧ (r < maximumSlots → r < numslots)
  | _ => True

theorem Phase.Fits.mono {numslots more : ℤ} {phase : Phase} (fits : phase.Fits numslots)
    (le : numslots ≤ more) : phase.Fits more := by
  cases phase with
  | running => trivial
  | waiting => exact Int.lt_of_lt_of_le fits le
  | processing curNumslots masks => exact Int.le_trans fits le
  | returned r =>
      rcases fits with negative | ⟨nonneg, slots, index⟩
      · exact Or.inl negative
      · exact Or.inr ⟨nonneg, by omega, by omega⟩
  | stopped => trivial

/-- The threads, the connections that have been added to them, and those that have ended. -/
structure Threads (T P : Type) where
  thread : T → ProcessingThread (PipePtr P) := fun _ => {}
  phase : T → Phase := fun _ => .running
  added : List (ℕ × ℕ) := []
  dead : List (ℕ × ℕ) := []

namespace Threads

variable [DecidableEq T]

def put (s : Threads T P) (t : T) (thread : ProcessingThread (PipePtr P)) (phase : Phase) :
    Threads T P :=
  { s with thread := Function.update s.thread t thread, phase := Function.update s.phase t phase }

/-- `try_add_bridge`, from outside -/
def add (s : Threads T P) (t : T) (pipe1 pipe2 : PipePtr P) : Threads T P :=
  let tried := (s.thread t).tryAddBridge (some pipe1) (some pipe2)
  { s with
    thread := Function.update s.thread t tried.2
    added := if 0 < tried.1 then s.added ++ [(pipe1.address, pipe2.address)] else s.added }

def register (impl : PipeImpl P) (s : Threads T P) (t : T) : Threads T P :=
  let registered := (s.thread t).register impl.ptr
  s.put t registered.2 (if registered.1 then .waiting else .stopped)

/-- `wait` marks one of the registered pipes. -/
def mark (impl : PipeImpl P) (s : Threads T P) (t : T) (i : ℕ) (first : Bool) (w : Waitable) :
    Threads T P :=
  let slot := (s.thread t).slots i
  let marked := if first
    then { slot with pipe1 := slot.pipe1.map fun pipe => impl.ptr.setWaitable pipe w }
    else { slot with pipe2 := slot.pipe2.map fun pipe => impl.ptr.setWaitable pipe w }
  s.put t { s.thread t with slots := Function.update (s.thread t).slots i marked } (s.phase t)

/-- `wait` returns. -/
def wait (s : Threads T P) (t : T) (masks : Mask) : Threads T P :=
  s.put t (s.thread t)
    (if masks.isEmpty then .returned 0 else .processing (s.thread t).numslots.toNat masks)

def finish (s : Threads T P) (t : T) (finished : ProcessingThread.Finished (PipePtr P)) :
    Threads T P :=
  { s.put t finished.thread (.returned finished.rv) with
    dead := s.dead ++ finished.dead.flatMap fun slot => slot.connection.toList }

def forward (s : Threads T P) (t next : T) (slot : ℕ) : Threads T P :=
  let forwarded := (s.thread t).forward slot (s.thread next)
  { s with
    thread := Function.update (Function.update s.thread t forwarded.2.1) next forwarded.2.2
    phase := Function.update s.phase t (if forwarded.1 then .stopped else .running) }

/-- The loop goes on without a next thread, or ends. -/
def resume (s : Threads T P) (t : T) (r : ℤ) : Threads T P :=
  s.put t (s.thread t) (if r < 0 then .stopped else .running)

/-- One step. The bridges that are added are new, and a tick ends if its slots are fine. -/
inductive Step (impl : PipeImpl P) (live : P → Prop)
    (fine : ProcessingThread (PipePtr P) → ℕ → Mask → Prop) (s : Threads T P) :
    Threads T P → Prop where
  | add (t : T) (pipe1 pipe2 : PipePtr P) (live1 : live pipe1.pipe) (live2 : live pipe2.pipe)
      (fresh : (pipe1.address, pipe2.address) ∉ s.added) :
      Step impl live fine s (s.add t pipe1 pipe2)
  | register (t : T) (here : s.phase t = .running) : Step impl live fine s (s.register impl t)
  | mark (t : T) (i : ℕ) (first : Bool) (w : Waitable) (here : s.phase t = .waiting) :
      Step impl live fine s (s.mark impl t i first w)
  | wait (t : T) (masks : Mask) (here : s.phase t = .waiting) :
      Step impl live fine s (s.wait t masks)
  | finish (t : T) (curNumslots : ℕ) (masks : Mask)
      (finished : ProcessingThread.Finished (PipePtr P))
      (here : s.phase t = .processing curNumslots masks)
      (good : fine (s.thread t) curNumslots masks)
      (finishes : (s.thread t).finishTick impl.ptr curNumslots masks = some finished) :
      Step impl live fine s (s.finish t finished)
  | forward (t next : T) (r : ℕ) (here : s.phase t = .returned r) (slot : r < maximumSlots)
      (different : next ≠ t) : Step impl live fine s (s.forward t next r)
  | resume (t : T) (r : ℤ) (here : s.phase t = .returned r) :
      Step impl live fine s (s.resume t r)

/-- What threads that begin without any bridge come to. -/
inductive Run (impl : PipeImpl P) (live : P → Prop)
    (fine : ProcessingThread (PipePtr P) → ℕ → Mask → Prop) : Threads T P → Prop where
  | start : Run impl live fine {}
  | step {s next : Threads T P} (run : Run impl live fine s)
      (step : Step impl live fine s next) : Run impl live fine next

variable {impl : PipeImpl P} {live : P → Prop} {s : Threads T P}

/-- The tables are in order, and every connection is in one place. -/
structure Sound (live : P → Prop) (s : Threads T P) : Prop where
  tables : ∀ t, (s.thread t).Table live
  fits : ∀ t, (s.phase t).Fits (s.thread t).numslots
  custody : ∃ custody : Custody T (ℕ × ℕ), custody.held = (fun t => (s.thread t).connections) ∧
    custody.taken = s.added ∧ custody.ended = s.dead

namespace Sound

omit [DecidableEq T] in
theorem start : Sound live ({} : Threads T P) :=
  ⟨fun _ => .new, fun _ => trivial, .empty, rfl, rfl, rfl⟩

/-- Looking at one component of a thread that has been replaced. -/
theorem connections_update (thread : T → ProcessingThread (PipePtr P)) (t : T)
    (next : ProcessingThread (PipePtr P)) :
    (fun other => (Function.update thread t next other).connections) =
      Function.update (fun other => (thread other).connections) t next.connections :=
  funext fun other => Function.apply_update (fun _ thread => thread.connections) thread t next other

theorem tables_update {thread : T → ProcessingThread (PipePtr P)}
    (tables : ∀ t, (thread t).Table live) {t : T} {next : ProcessingThread (PipePtr P)}
    (table : next.Table live) (other : T) : (Function.update thread t next other).Table live := by
  rw [Function.update_apply]
  split
  · exact table
  · exact tables other

omit [DecidableEq T] in
theorem fits_update [DecidableEq T] (sound : s.Sound live) {t : T} {phase : Phase}
    (free : ∀ numslots, phase.Fits numslots) (other : T) :
    (Function.update s.phase t phase other).Fits (s.thread other).numslots := by
  rw [Function.update_apply]
  split
  · exact free _
  · exact sound.fits other

theorem put (sound : s.Sound live) {t : T} {thread : ProcessingThread (PipePtr P)}
    {phase : Phase} (table : thread.Table live) (fits : phase.Fits thread.numslots)
    (same : thread.connections = (s.thread t).connections) :
    (s.put t thread phase).Sound live := by
  refine ⟨tables_update sound.tables table, fun other => ?_, ?_⟩
  · simp only [Threads.put, Function.update_apply]
    split
    · exact fits
    · exact sound.fits other
  · rcases sound.custody with ⟨custody, held, taken, ended⟩
    refine ⟨custody, ?_, taken, ended⟩
    rw [Threads.put, connections_update, same, held, Function.update_eq_self]

theorem add (sound : s.Sound live) {t : T} {pipe1 pipe2 : PipePtr P} (live1 : live pipe1.pipe)
    (live2 : live pipe2.pipe) (fresh : (pipe1.address, pipe2.address) ∉ s.added) :
    (s.add t pipe1 pipe2).Sound live := by
  rcases sound.custody with ⟨custody, held, taken, ended⟩
  rcases (sound.tables t).tryAddBridge live1 live2 with
    ⟨refused, same⟩ | ⟨added, -, count, table, connections⟩
  · rw [Threads.add, if_neg (by omega), same, Function.update_eq_self]
    exact sound
  · rw [Threads.add, if_pos added]
    refine ⟨tables_update sound.tables table, fun other => ?_, ?_⟩
    · simp only [Function.update_apply]
      split
      · rename_i here
        rcases here with rfl
        exact (sound.fits other).mono (by omega)
      · exact sound.fits other
    · refine ⟨custody.take t (pipe1.address, pipe2.address) (taken ▸ fresh), ?_, ?_, ended⟩
      · rw [connections_update, connections, ← held]
        simp only [Custody.take, held]
      · simp only [Custody.take, taken]

theorem register (lasting : impl.Lasting live) (sound : s.Sound live) (t : T) :
    (s.register impl t).Sound live := by
  rcases (sound.tables t).register lasting with ⟨table, connections, waits⟩
  refine sound.put table ?_ connections
  split
  · rename_i goesOn
    rcases waits goesOn with ⟨same, some⟩
    exact same ▸ some
  · trivial

theorem mark (lasting : impl.Lasting live) (sound : s.Sound live) (t : T) (i : ℕ) (first : Bool)
    (w : Waitable) : (s.mark impl t i first w).Sound live := by
  have slot : ∀ marked : Bridged (PipePtr P),
      (∀ connection, ((s.thread t).slots i).Holds live connection →
        marked.Holds live connection) →
      (((s.thread t).slots i).Vacant → marked.Vacant) →
      (s.put t { s.thread t with slots := Function.update (s.thread t).slots i marked }
        (s.phase t)).Sound live := by
    intro marked kept vacant
    rcases (sound.tables t).congr
      (fun j connection holds => show (Function.update (s.thread t).slots i marked j).Holds live
          connection by
        rw [Function.update_apply]
        split
        · rename_i same
          exact kept connection (same ▸ holds)
        · exact holds)
      (fun j free => by
        rw [Function.update_apply]
        split
        · rename_i same
          exact vacant (same ▸ free)
        · exact free) with ⟨table, connections⟩
    exact sound.put table (sound.fits t) connections
  cases first with
  | true =>
      exact slot _ (fun _ holds => holds.mark1 lasting w)
        fun free => ⟨by simp [free.1], free.2⟩
  | false =>
      exact slot _ (fun _ holds => holds.mark2 lasting w)
        fun free => ⟨free.1, by simp [free.2]⟩

theorem wait (sound : s.Sound live) {t : T} (here : s.phase t = .waiting) (masks : Mask) :
    (s.wait t masks).Sound live := by
  refine sound.put (sound.tables t) ?_ rfl
  have some : 0 < (s.thread t).numslots := by
    have fits := sound.fits t
    rwa [here] at fits
  split
  · exact Or.inr ⟨Int.le_refl 0, some, fun _ => some⟩
  · exact Int.le_of_eq (Int.toNat_of_nonneg (Int.le_of_lt some))

theorem finish (lasting : impl.Lasting live) (sound : s.Sound live) {t : T} {curNumslots : ℕ}
    {masks : Mask} (here : s.phase t = .processing curNumslots masks)
    {finished : ProcessingThread.Finished (PipePtr P)}
    (finishes : (s.thread t).finishTick impl.ptr curNumslots masks = some finished)
    (good : ¬(s.thread t).TakesDown impl.ptr curNumslots masks) :
    (s.finish t finished).Sound live := by
  have inside : (curNumslots : ℤ) ≤ (s.thread t).numslots := by
    have fits := sound.fits t
    rwa [here] at fits
  have tick := (sound.tables t).finishTick lasting inside finishes
  rcases sound.custody with ⟨custody, held, taken, ended⟩
  refine ⟨tables_update sound.tables tick.table, fun other => ?_, ?_⟩
  · simp only [Threads.finish, Threads.put, Function.update_apply]
    split
    · rcases tick.index with ⟨stops, -⟩ | ⟨some, nonneg, index⟩
      · exact Or.inl stops
      · exact Or.inr ⟨nonneg, some, fun small => (index small).resolve_right good⟩
    · exact sound.fits other
  · refine ⟨custody.release t _ _ (by rw [held]; exact tick.connections), ?_, taken, ?_⟩
    · simp only [Threads.finish, Threads.put, connections_update, Custody.release, held]
    · simp only [Threads.finish, Custody.release, ended]

theorem forward (sound : s.Sound live) {t next : T} {r : ℕ} (here : s.phase t = .returned r)
    (slot : r < maximumSlots) (different : next ≠ t) : (s.forward t next r).Sound live := by
  have inside : (r : ℤ) < (s.thread t).numslots := by
    have fits := sound.fits t
    rw [here] at fits
    rcases fits with negative | ⟨-, -, index⟩
    · omega
    · exact index (by omega)
  rcases sound.custody with ⟨custody, held, taken, ended⟩
  rcases (sound.tables t).forward (sound.tables next) inside with
    refused | ⟨connection, table, nextTable, parts, connections, -, count⟩
  · rw [Threads.forward, refused]
    have kept : Function.update (Function.update s.thread t (s.thread t)) next (s.thread next) =
        s.thread := by rw [Function.update_eq_self, Function.update_eq_self]
    dsimp only
    rw [kept]
    exact ⟨sound.tables, sound.fits_update fun _ => trivial, custody, held, taken, ended⟩
  · refine ⟨tables_update (tables_update sound.tables table) nextTable, fun other => ?_,
      custody.pass t next different _ connection (by rw [held]; exact parts), ?_, taken, ended⟩
    · by_cases same : other = t
      · subst same
        simp only [Threads.forward, Function.update_self]
        split <;> trivial
      · simp only [Threads.forward]
        rw [Function.update_of_ne same, Function.update_apply]
        split
        · rename_i here
          subst here
          rw [count]
          exact (sound.fits other).mono (by omega)
        · rw [Function.update_of_ne same]
          exact sound.fits other
    · simp only [Threads.forward, connections_update, Custody.pass, held, connections]

theorem resume (sound : s.Sound live) (t : T) (r : ℤ) : (s.resume t r).Sound live := by
  refine sound.put (sound.tables t) ?_ rfl
  split <;> trivial

theorem step (lasting : impl.Lasting live) {next : Threads T P} (sound : s.Sound live)
    (step : Step impl live (fun thread curNumslots masks =>
      ¬thread.TakesDown impl.ptr curNumslots masks) s next) : next.Sound live := by
  cases step with
  | add t pipe1 pipe2 live1 live2 fresh => exact sound.add live1 live2 fresh
  | register t here => exact sound.register lasting t
  | mark t i first w here => exact sound.mark lasting t i first w
  | wait t masks here => exact sound.wait here masks
  | finish t curNumslots masks finished here good finishes =>
      exact sound.finish lasting here finishes good
  | forward t next r here slot different => exact sound.forward here slot different
  | resume t r here => exact sound.resume t r

theorem run (lasting : impl.Lasting live) (run : Run impl live (fun thread curNumslots masks =>
    ¬thread.TakesDown impl.ptr curNumslots masks) s) : s.Sound live := by
  induction run with
  | start => exact .start
  | step run step ih => exact ih.step lasting step

end Sound

/-- A slot in use that holds a connection. -/
def HeldAt (s : Threads T P) (connection : ℕ × ℕ) (place : T × ℕ) : Prop :=
  (place.2 : ℤ) < (s.thread place.1).numslots ∧
    ((s.thread place.1).slots place.2).connection = some connection

omit [DecidableEq T] in
/-- A connection that is kept is in one slot of one thread. -/
theorem Sound.existsUnique_place (sound : s.Sound live) {connection : ℕ × ℕ}
    (added : connection ∈ s.added) (going : connection ∉ s.dead) :
    ∃! place, s.HeldAt connection place := by
  rcases sound.custody with ⟨custody, held, taken, ended⟩
  rcases custody.existsUnique_holder (taken ▸ added) (ended ▸ going) with ⟨t, here, only⟩
  have nodup := custody.nodup
  simp only [held] at here only nodup
  rcases mem_connectionsOf.mp here with ⟨i, inside, there⟩
  refine ⟨(t, i), ⟨by dsimp only; omega, there⟩, ?_⟩
  rintro ⟨other, j⟩ ⟨inside', there'⟩
  dsimp only at inside' there'
  rcases only other (mem_connectionsOf.mpr ⟨j, by omega, there'⟩) with rfl
  rw [index_unique (nodup other) (by omega) inside there' there]

end Threads

/-- The slot table of every thread, in every run whose ticks leave a slot behind a dead one
that is not the first, or no bits: an index below `MAXIMUM_SLOTS` that `tick` returns is one
of a slot in use, the slots in use are the first ones, and a connection is in one slot of one
thread until `process` has returned `SLOT_DEAD` for it. -/
theorem slots_of_run [DecidableEq T] {impl : PipeImpl P} {live : P → Prop}
    (lasting : impl.Lasting live) {s : Threads T P}
    (run : Threads.Run impl live (fun thread curNumslots masks =>
      ¬thread.TakesDown impl.ptr curNumslots masks) s) :
    (∀ t (r : ℕ), s.phase t = .returned r → r < maximumSlots →
      r < (s.thread t).numslots ∧ ((s.thread t).slots r).isEmpty = false) ∧
    (∀ t (i : ℕ), ((i : ℤ) < (s.thread t).numslots → ((s.thread t).slots i).isEmpty = false) ∧
      ((s.thread t).numslots ≤ i → ((s.thread t).slots i).Vacant)) ∧
    ∀ connection ∈ s.added, connection ∉ s.dead → ∃! place, s.HeldAt connection place := by
  have sound := Threads.Sound.run lasting run
  refine ⟨fun t r here small => ?_, fun t i => ⟨((sound.tables t).isEmpty_iff i).mpr,
    (sound.tables t).vacant i⟩, fun connection added going => sound.existsUnique_place added going⟩
  have fits := sound.fits t
  rw [here] at fits
  have inside : (r : ℤ) < (s.thread t).numslots := by
    rcases fits with negative | ⟨-, -, index⟩
    · omega
    · exact index (by omega)
  exact ⟨inside, ((sound.tables t).isEmpty_iff r).mpr inside⟩

theorem lasting_memoryPipe : memoryPipe.Lasting fun _ => True where
  keeps := ⟨fun _ _ _ => trivial, fun _ _ _ _ _ _ => trivial, fun _ _ => trivial,
    fun _ _ _ => trivial⟩
  waits _ _ := rfl

/-- Two bridges in one thread: the pipe at 0 has data, and the one at 2 has data and is
closed. -/
def twoBridges : Threads Bool MemoryPipe :=
  (((({} : Threads Bool MemoryPipe).add false ⟨0, { incoming := [[1]] }⟩ ⟨1, {}⟩).add false
    ⟨2, { incoming := [[2]] }⟩ ⟨3, {}⟩).register memoryPipe false).wait false
      { readm := bit 0 ||| bit 2, closem := bit 2 }

theorem run_twoBridges (fine : ProcessingThread (PipePtr MemoryPipe) → ℕ → Mask → Prop) :
    Threads.Run memoryPipe (fun _ => True) fine twoBridges :=
  .step (.step (.step (.step .start (.add _ _ _ trivial trivial (by decide)))
    (.add _ _ _ trivial trivial (by decide))) (.register _ rfl)) (.wait _ _ (by decide +kernel))

theorem slots_of_run_twoBridges :
    ∃! place, twoBridges.HeldAt (0, 1) place :=
  (slots_of_run lasting_memoryPipe (run_twoBridges _)).2.2 (0, 1) (by decide +kernel)
    (by decide +kernel)

/-- How the tick ends for them: the first has been relayed, the second has died. -/
def endOfTick : ProcessingThread.Finished (PipePtr MemoryPipe) :=
  ((twoBridges.thread false).finishTick memoryPipe.ptr 2
    { readm := bit 0 ||| bit 2, closem := bit 2 }).get (by decide +kernel)

def oneBridge : Threads Bool MemoryPipe := twoBridges.finish false endOfTick

theorem run_oneBridge :
    Threads.Run memoryPipe (fun _ => True) (fun _ _ _ => True) oneBridge :=
  .step (run_twoBridges _) (.finish false 2 { readm := bit 0 ||| bit 2, closem := bit 2 } endOfTick
    (by decide +kernel) trivial (Option.some_get _).symm)

/-- The tick returns the index of the slot it has cleared, and `forward` passes two null
pipes on and drops the bridge that was alive. -/
theorem lost_connection :
    Threads.Run memoryPipe (fun _ => True) (fun _ _ _ => True) oneBridge ∧
      oneBridge.phase false = .returned 1 ∧ (oneBridge.thread false).numslots = 1 ∧
      Threads.Run memoryPipe (fun _ => True) (fun _ _ _ => True)
        (oneBridge.forward false true 1) ∧
      (0, 1) ∈ (oneBridge.forward false true 1).added ∧
      (0, 1) ∉ (oneBridge.forward false true 1).dead ∧
      (∀ place, ¬(oneBridge.forward false true 1).HeldAt (0, 1) place) ∧
      ((oneBridge.forward false true 1).thread true).numslots = 1 ∧
      (((oneBridge.forward false true 1).thread true).slots 0).isEmpty = true := by
  have here : oneBridge.phase false = .returned 1 := by decide +kernel
  refine ⟨run_oneBridge, here, by decide +kernel,
    .step run_oneBridge (.forward false true 1 here (by decide) (by decide)), by decide +kernel,
    by decide +kernel, ?_, by decide +kernel, by decide +kernel⟩
  rintro ⟨t, i⟩ ⟨inside, there⟩
  dsimp only at inside there
  cases t with
  | false =>
      have numslots : ((oneBridge.forward false true 1).thread false).numslots = -1 := by
        decide +kernel
      omega
  | true =>
      have numslots : ((oneBridge.forward false true 1).thread true).numslots = 1 := by
        decide +kernel
      obtain rfl : i = 0 := by omega
      revert there
      decide +kernel

end Imconee.Handlers
