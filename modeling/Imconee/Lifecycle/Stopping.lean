import Imconee.Lifecycle.Service
import Mathlib.Algebra.BigOperators.Group.Finset.Basic
import Mathlib.Algebra.Order.BigOperators.Group.Finset
import Mathlib.Tactic.Linarith

/-!
# How the service ends

`numlisteners` counts the acceptors that are on their way, so the engine only finds no
listener left after every acceptor has taken itself off the count. What is not safe in that
case is the end of the scope: the acceptor still holds the lock of its listener then, and gives
it back while the engine may be gone.

A listener that has been stopped has no acceptor any more. But on Linux none is ever stopped:
`stop` keeps the lock for reading while it waits for an acceptor that needs it for writing.
-/

set_option autoImplicit false

namespace Imconee.Lifecycle

/-! ### Where the engine is -/

namespace Engine

/-- The thread of the listener has been started. -/
@[grind]
def started (count : ℕ) : Engine → ℕ → Prop
  | .opening j | .counting j | .spawning j => fun i => i < j
  | _ => fun i => i < count

/-- `open` is behind its section, and has not started the thread. -/
@[grind]
def marks : Engine → ℕ → Prop
  | .counting j | .spawning j => fun i => i = j
  | _ => fun _ => False

/-- `stop` has set `need_stop` and not yet taken it back. -/
@[grind]
def demands : Engine → ℕ → Prop
  | .handling j | .waking j | .closing j | .awaiting j | .resetting j | .releasing j =>
      fun i => i = j
  | _ => fun _ => False

/-- `stop` is behind the section that takes `st`. -/
@[grind]
def holds : Engine → ℕ → Prop
  | .closing j | .awaiting j | .resetting j | .releasing j => fun i => i = j
  | _ => fun _ => False

/-- `stop` has found the acceptor at its end. -/
@[grind]
def finds : Engine → ℕ → Prop
  | .resetting j | .releasing j => fun i => i = j
  | _ => fun _ => False

/-- `stop` has returned. -/
@[grind]
def passed : Engine → ℕ → Prop
  | .testing j | .demanding j | .handling j | .waking j | .closing j | .awaiting j
  | .resetting j | .releasing j => fun i => i < j
  | .returned stopped | .destroyed stopped => fun _ => stopped = true
  | _ => fun _ => False

/-- The engine has read `exit`. -/
@[grind]
def stops : Engine → Prop
  | .testing _ | .demanding _ | .handling _ | .waking _ | .closing _ | .awaiting _
  | .resetting _ | .releasing _ => True
  | .returned stopped | .destroyed stopped => stopped = true
  | _ => False

/-- The engine has found no listener left. -/
@[grind]
def misses : Engine → Prop
  | .returned stopped | .destroyed stopped => stopped = false
  | _ => False

end Engine

/-- The acceptor has been counted in `numlisteners`. -/
@[grind]
def Acceptor.counted : Acceptor → Bool
  | .absent | .unlocking | .ended => false
  | _ => true

/-- The acceptor has the lock for writing, or has barred it. -/
@[grind]
def Acceptor.writes : Acceptor → Bool
  | .entering | .exiting | .decrementing | .unlocking => true
  | _ => false

/-- The stage is idle again. -/
@[grind]
def Acceptor.idles : Acceptor → Bool
  | .decrementing | .unlocking | .ended => true
  | _ => false

variable {nix : Bool} {count : ℕ}

/-- What is true of a listener while the engine is there. -/
structure Fits (nix : Bool) (count : ℕ) (exit : Bool) (engine : Engine) (i : ℕ) (l : Listener) :
    Prop where
  absent : l.acceptor = .absent ↔ ¬engine.started count i
  stage : l.stage = .idle ↔
    l.acceptor.idles = true ∨ l.acceptor = .absent ∧ ¬engine.marks i
  acceptorLock : l.writer = some .acceptor ↔ l.acceptor.writes = true
  engineLock : l.writer = some .engine ↔ engine = .releasing i
  reader : l.reader = true ↔ nix = true ∧ engine.holds i
  needStop : l.needStop = true ↔ engine.demands i
  finds : engine.finds i → l.acceptor = .ended
  passed : engine.passed i → l.acceptor = .ended
  misses : engine.misses → l.acceptor.counted = false
  late : l.late + (if l.acceptor = .handing then 1 else 0) ≤ 1
  early : exit = false → l.late = 0

/-- The engine is at most at its last listener. -/
@[grind]
def Engine.Inside (count : ℕ) : Engine → Prop
  | .opening j | .testing j => j ≤ count
  | .counting j | .spawning j | .demanding j | .handling j | .waking j | .closing j | .awaiting j
  | .resetting j | .releasing j => j < count
  | _ => True

/-- `open` has counted a thread that it has not started. -/
@[grind]
def Engine.pending : Engine → ℤ
  | .spawning _ => 1
  | _ => 0

@[grind]
def Acceptor.weight (acceptor : Acceptor) : ℤ := if acceptor.counted then 1 else 0

/-- What `numlisteners` counts -/
def Service.counted (count : ℕ) (s : Service) : ℤ :=
  (∑ i ∈ Finset.range count, (s.listeners i).acceptor.weight) + s.engine.pending

/-- What is true in every state. -/
structure Sound (nix : Bool) (count : ℕ) (s : Service) : Prop where
  fits : ∀ i, i < count → Fits nix count s.exit s.engine i (s.listeners i)
  beyond : ∀ i, count ≤ i → (s.listeners i).acceptor = .absent
  inside : s.engine.Inside count
  exit : s.engine.stops → s.exit = true
  numlisteners : s.numlisteners = s.counted count

section Acceptor

variable {exit success : Bool} {l next : Listener}

/-- An acceptor steps only between its start and its end. -/
theorem acceptor_present (steps : l.acceptorStep nix exit success = some next) :
    l.acceptor ≠ .absent ∧ l.acceptor ≠ .ended ∧ next.acceptor ≠ .absent := by
  unfold Listener.acceptorStep at steps
  split at steps <;> repeat' split at steps
  all_goals cases steps
  all_goals simp_all

/-- It leaves to the engine what the engine sets. -/
theorem acceptor_leaves (steps : l.acceptorStep nix exit success = some next) :
    next.needStop = l.needStop ∧ next.reader = l.reader := by
  unfold Listener.acceptorStep at steps
  split at steps <;> repeat' split at steps
  all_goals cases steps
  all_goals exact ⟨rfl, rfl⟩

theorem acceptor_writer (lock : l.writer = some .acceptor ↔ l.acceptor.writes = true)
    (steps : l.acceptorStep nix exit success = some next) :
    (next.writer = some .acceptor ↔ next.acceptor.writes = true) ∧
      (next.writer = some .engine ↔ l.writer = some .engine) := by
  unfold Listener.acceptorStep at steps
  split at steps <;> repeat' split at steps
  all_goals cases steps
  all_goals simp_all [Acceptor.writes, Listener.readable]

theorem acceptor_stage (stage : l.stage = .idle ↔ l.acceptor.idles = true)
    (steps : l.acceptorStep nix exit success = some next) :
    next.stage = .idle ↔ next.acceptor.idles = true := by
  unfold Listener.acceptorStep at steps
  split at steps <;> repeat' split at steps
  all_goals cases steps
  all_goals simp_all [Acceptor.idles]

theorem acceptor_counted (uncounted : l.acceptor.counted = false)
    (steps : l.acceptorStep nix exit success = some next) : next.acceptor.counted = false := by
  unfold Listener.acceptorStep at steps
  split at steps <;> repeat' split at steps
  all_goals cases steps
  all_goals simp_all [Acceptor.counted]

theorem acceptor_late (late : l.late + (if l.acceptor = .handing then 1 else 0) ≤ 1)
    (early : exit = false → l.late = 0)
    (steps : l.acceptorStep nix exit success = some next) :
    next.late + (if next.acceptor = .handing then 1 else 0) ≤ 1 ∧
      (exit = false → next.late = 0) := by
  unfold Listener.acceptorStep at steps
  split at steps <;> repeat' split at steps
  all_goals cases steps
  all_goals simp_all

end Acceptor

/-- The bridging threads have nothing but their list. -/
theorem bridge_leaves {joins : Bool} {l next : Listener} (steps : l.bridge joins = some next) :
    { l with bridging := next.bridging } = next := by
  unfold Listener.bridge at steps
  repeat' split at steps
  all_goals cases steps
  all_goals rfl

/-- A client adds to the backlog. -/
theorem arrive_adds {l next : Listener} (steps : l.arrive = some next) :
    { l with backlog := l.backlog + 1 } = next := by
  unfold Listener.arrive at steps
  split at steps <;> cases steps
  rfl

section Engine

variable {exit : Bool} {numlisteners : ℤ} {engine following : Engine} {l next : Listener}

/-- The engine starts the acceptors one after another. -/
theorem engine_place (absent : l.acceptor = .absent ↔ ¬engine.started count engine.index)
    (stage : l.stage = .idle ↔
      l.acceptor.idles = true ∨ l.acceptor = .absent ∧ ¬engine.marks engine.index)
    (inside : engine.index < count)
    (steps : engine.step nix count exit numlisteners l = some (following, next)) :
    (next.acceptor = .absent ↔ ¬following.started count engine.index) ∧
      (next.stage = .idle ↔
        next.acceptor.idles = true ∨ next.acceptor = .absent ∧ ¬following.marks engine.index) := by
  unfold Engine.step at steps
  split at steps <;> repeat' split at steps
  all_goals cases steps
  all_goals simp only [Engine.started, Engine.marks, Engine.index] at absent stage inside ⊢
  all_goals first | omega | simp_all [Acceptor.idles]

/-- It is the writer only where it gives `need_stop` back, and keeps the lock for reading only on
Linux. -/
theorem engine_lock (acceptorLock : l.writer = some .acceptor ↔ l.acceptor.writes = true)
    (engineLock : l.writer = some .engine ↔ engine = .releasing engine.index)
    (present : engine = .spawning engine.index → l.acceptor = .absent)
    (steps : engine.step nix count exit numlisteners l = some (following, next)) :
    (next.writer = some .acceptor ↔ next.acceptor.writes = true) ∧
      (next.writer = some .engine ↔ following = .releasing engine.index) := by
  unfold Engine.step at steps
  split at steps <;> repeat' split at steps
  all_goals cases steps
  all_goals simp only [Engine.index] at engineLock present ⊢
  all_goals simp_all [Listener.readable, Listener.writable, Acceptor.writes]

theorem engine_told (reader : l.reader = true ↔ nix = true ∧ engine.holds engine.index)
    (needStop : l.needStop = true ↔ engine.demands engine.index)
    (steps : engine.step nix count exit numlisteners l = some (following, next)) :
    (next.reader = true ↔ nix = true ∧ following.holds engine.index) ∧
      (next.needStop = true ↔ following.demands engine.index) := by
  unfold Engine.step at steps
  split at steps <;> repeat' split at steps
  all_goals cases steps
  all_goals simp only [Engine.holds, Engine.demands, Engine.index] at reader needStop ⊢
  all_goals simp_all

/-- It goes on to the next listener only behind the end of the acceptor. -/
theorem engine_finds (inside : engine.index < count)
    (ends : l.readable = true → l.stage = .idle → engine.started count engine.index →
      l.acceptor = .ended)
    (finds : engine.finds engine.index → l.acceptor = .ended)
    (passed : engine.passed engine.index → l.acceptor = .ended)
    (steps : engine.step nix count exit numlisteners l = some (following, next)) :
    (following.finds engine.index → next.acceptor = .ended) ∧
      (following.passed engine.index → next.acceptor = .ended) := by
  unfold Engine.step at steps
  split at steps <;> repeat' split at steps
  all_goals cases steps
  all_goals simp only [Engine.started, Engine.index] at ends inside
  all_goals simp only [Engine.finds, Engine.passed, Engine.index] at finds passed ⊢
  all_goals simp_all
  all_goals omega

/-- It finds no listener left where it asks for them. -/
theorem engine_asks (before : ¬engine.misses) (misses : following.misses)
    (steps : engine.step nix count exit numlisteners l = some (following, next)) :
    engine = .asking ∧ numlisteners ≤ 0 := by
  unfold Engine.step at steps
  split at steps <;> repeat' split at steps
  all_goals cases steps
  all_goals simp_all [Engine.misses]

theorem engine_counted (uncounted : l.acceptor.counted = false) (misses : following.misses)
    (steps : engine.step nix count exit numlisteners l = some (following, next)) :
    next.acceptor.counted = false := by
  unfold Engine.step at steps
  split at steps <;> repeat' split at steps
  all_goals cases steps
  all_goals simp_all [Engine.misses]

theorem engine_late (present : engine = .spawning engine.index → l.acceptor = .absent)
    (steps : engine.step nix count exit numlisteners l = some (following, next)) :
    next.late = l.late ∧ (next.acceptor = .handing ↔ l.acceptor = .handing) := by
  unfold Engine.step at steps
  split at steps <;> repeat' split at steps
  all_goals cases steps
  all_goals simp_all [Engine.index]

/-- What the engine does with one listener is nothing to the others. -/
theorem engine_others {i : ℕ} (inside : i < count) (apart : i ≠ engine.index)
    (within : engine.Inside count)
    (steps : engine.step nix count exit numlisteners l = some (following, next)) :
    (following.started count i ↔ engine.started count i) ∧
      (following.marks i ↔ engine.marks i) ∧ (following = .releasing i ↔ engine = .releasing i) ∧
      (following.holds i ↔ engine.holds i) ∧ (following.demands i ↔ engine.demands i) ∧
      (following.finds i ↔ engine.finds i) ∧ (following.passed i ↔ engine.passed i) := by
  unfold Engine.step at steps
  split at steps <;> repeat' split at steps
  all_goals cases steps
  all_goals
    simp only [Engine.started, Engine.marks, Engine.holds, Engine.demands, Engine.finds,
      Engine.passed, Engine.index, Engine.Inside] at apart within ⊢
  all_goals simp_all
  all_goals omega

end Engine

namespace Fits

variable {exit : Bool} {engine : Engine} {i : ℕ} {l next : Listener}

/-- A step of the acceptor -/
theorem acceptorStep (fits : Fits nix count exit engine i l) {success : Bool}
    (steps : l.acceptorStep nix exit success = some next) : Fits nix count exit engine i next := by
  rcases acceptor_present steps with ⟨present, busy, still⟩
  rcases acceptor_leaves steps with ⟨needStop, reader⟩
  rcases acceptor_writer fits.acceptorLock steps with ⟨acceptorLock, engineLock⟩
  have stage := acceptor_stage (by simpa [present] using fits.stage) steps
  rcases acceptor_late fits.late fits.early steps with ⟨late, early⟩
  refine ⟨?_, ?_, acceptorLock, engineLock.trans fits.engineLock, ?_, ?_, ?_, ?_, ?_, late, early⟩
  · simpa [present, still] using fits.absent
  · simpa [still] using stage
  · rw [reader]
    exact fits.reader
  · rw [needStop]
    exact fits.needStop
  · intro finds
    exact absurd (fits.finds finds) busy
  · intro passed
    exact absurd (fits.passed passed) busy
  · intro misses
    exact acceptor_counted (fits.misses misses) steps

theorem acceptError (fits : Fits nix count exit engine i l)
    (steps : l.acceptError = some next) : Fits nix count exit engine i next := by
  unfold Listener.acceptError at steps
  split at steps <;> cases steps
  rename_i waiting
  rcases fits with ⟨absent, stage, acceptorLock, engineLock, reader, needStop, finds, passed,
    misses, late, early⟩
  simp only [waiting, Acceptor.idles, Acceptor.writes] at absent stage acceptorLock
  simp only [waiting, Acceptor.counted] at finds passed misses late
  constructor <;> simp_all [Acceptor.idles, Acceptor.writes, Acceptor.counted]

theorem arrive (fits : Fits nix count exit engine i l)
    (steps : l.arrive = some next) : Fits nix count exit engine i next := by
  have same := arrive_adds steps
  exact same ▸ ⟨fits.absent, fits.stage, fits.acceptorLock, fits.engineLock, fits.reader,
    fits.needStop, fits.finds, fits.passed, fits.misses, fits.late, fits.early⟩

theorem bridge (fits : Fits nix count exit engine i l) {joins : Bool}
    (steps : l.bridge joins = some next) : Fits nix count exit engine i next := by
  have same := bridge_leaves steps
  exact same ▸ ⟨fits.absent, fits.stage, fits.acceptorLock, fits.engineLock, fits.reader,
    fits.needStop, fits.finds, fits.passed, fits.misses, fits.late, fits.early⟩

theorem signal (fits : Fits nix count exit engine i l) : Fits nix count true engine i l :=
  ⟨fits.absent, fits.stage, fits.acceptorLock, fits.engineLock, fits.reader, fits.needStop,
    fits.finds, fits.passed, fits.misses, fits.late, fun never => by cases never⟩

/-- Whoever reads that the stage is idle again, reads it behind the last step of the acceptor. -/
theorem ended (fits : Fits nix count exit engine i l) (readable : l.readable = true)
    (idle : l.stage = .idle) (started : engine.started count i) : l.acceptor = .ended := by
  have present : l.acceptor ≠ .absent := fun absent => fits.absent.mp absent started
  have unlocked : l.acceptor.writes = false := by
    apply Bool.eq_false_iff.mpr
    intro writes
    have locked := fits.acceptorLock.mpr writes
    simp [Listener.readable, locked] at readable
  rcases fits.stage.mp idle with idles | absent
  · cases place : l.acceptor <;> simp [place, Acceptor.idles, Acceptor.writes] at idles unlocked ⊢
  · exact absurd absent.1 present

variable {numlisteners : ℤ} {following : Engine}

/-- The engine misses only acceptors that are off the count. -/
theorem missing (fits : Fits nix count exit engine i l)
    (missed : engine = .asking → numlisteners ≤ 0 → l.acceptor.counted = false)
    {other : Listener} (misses : following.misses)
    (steps : engine.step nix count exit numlisteners other = some (following, next)) :
    l.acceptor.counted = false := by
  by_cases before : engine.misses
  · exact fits.misses before
  · rcases engine_asks before misses steps with ⟨asking, none⟩
    exact missed asking none

/-- A step of the engine, for the listener that it is with -/
theorem engineOwn (fits : Fits nix count exit engine engine.index l)
    (inside : engine.index < count)
    (missed : engine = .asking → numlisteners ≤ 0 → l.acceptor.counted = false)
    (steps : engine.step nix count exit numlisteners l = some (following, next)) :
    Fits nix count exit following engine.index next := by
  have present : engine = .spawning engine.index → l.acceptor = .absent := by
    intro spawning
    apply fits.absent.mpr
    rw [spawning]
    exact Nat.lt_irrefl _
  rcases engine_place fits.absent fits.stage inside steps with ⟨absent, stage⟩
  rcases engine_lock fits.acceptorLock fits.engineLock present steps with
    ⟨acceptorLock, engineLock⟩
  rcases engine_told fits.reader fits.needStop steps with ⟨reader, needStop⟩
  rcases engine_finds inside fits.ended fits.finds fits.passed steps with ⟨finds, passed⟩
  rcases engine_late present steps with ⟨same, handing⟩
  refine ⟨absent, stage, acceptorLock, engineLock, reader, needStop, finds, passed, ?_, ?_, ?_⟩
  · intro misses
    exact engine_counted (fits.missing missed misses steps) misses steps
  · simpa only [same, handing] using fits.late
  · rw [same]
    exact fits.early

/-- A step of the engine, for the other listeners -/
theorem engineOther (fits : Fits nix count exit engine i l) (inside : i < count)
    (apart : i ≠ engine.index) (within : engine.Inside count) {other : Listener}
    (missed : engine = .asking → numlisteners ≤ 0 → l.acceptor.counted = false)
    (steps : engine.step nix count exit numlisteners other = some (following, next)) :
    Fits nix count exit following i l := by
  rcases engine_others inside apart within steps with
    ⟨started, marks, releasing, holds, demands, finds, passed⟩
  have misses : following.misses → l.acceptor.counted = false :=
    fun misses => fits.missing missed misses steps
  refine ⟨?_, ?_, fits.acceptorLock, fits.engineLock.trans releasing.symm, ?_, ?_, ?_, ?_, misses,
    fits.late, fits.early⟩
  · rw [started]
    exact fits.absent
  · rw [marks]
    exact fits.stage
  · rw [holds]
    exact fits.reader
  · rw [demands]
    exact fits.needStop
  · rw [finds]
    exact fits.finds
  · rw [passed]
    exact fits.passed

end Fits

namespace Sound

/-- A listener in the place of another one changes the sum by their difference. -/
theorem sum_update (listeners : ℕ → Listener) {i : ℕ} (inside : i < count) (l : Listener) :
    ∑ j ∈ Finset.range count, (Function.update listeners i l j).acceptor.weight =
      (∑ j ∈ Finset.range count, (listeners j).acceptor.weight) - (listeners i).acceptor.weight +
        l.acceptor.weight := by
  have member : i ∈ Finset.range count := Finset.mem_range.mpr inside
  have others : ∑ j ∈ (Finset.range count).erase i,
      (Function.update listeners i l j).acceptor.weight =
        ∑ j ∈ (Finset.range count).erase i, (listeners j).acceptor.weight := by
    apply Finset.sum_congr rfl
    intro j mem
    rw [Function.update_of_ne (Finset.ne_of_mem_erase mem)]
  rw [← Finset.add_sum_erase _ _ member, others, Function.update_self,
    ← Finset.add_sum_erase (Finset.range count) (fun j => (listeners j).acceptor.weight) member]
  linarith

/-- The sum when the place of a listener is out of range -/
theorem sum_update_beyond (listeners : ℕ → Listener) {i : ℕ} (beyond : count ≤ i)
    (l : Listener) :
    ∑ j ∈ Finset.range count, (Function.update listeners i l j).acceptor.weight =
      ∑ j ∈ Finset.range count, (listeners j).acceptor.weight := by
  apply Finset.sum_congr rfl
  intro j mem
  have inside := Finset.mem_range.mp mem
  rw [Function.update_of_ne (by omega)]

variable {s next : Service}

theorem start : Sound nix count {} := by
  constructor
  · intro i inside
    constructor <;> simp [Engine.started, Engine.marks, Engine.demands, Engine.holds,
      Engine.finds, Engine.passed, Engine.misses, Acceptor.writes, Acceptor.idles]
  · intro i beyond
    rfl
  · exact Nat.zero_le count
  · intro never
    cases never
  · simp [Service.counted, Acceptor.weight, Acceptor.counted, Engine.pending]

/-- With `numlisteners` at 0, every acceptor has taken itself off the count. -/
theorem missed (sound : Sound nix count s) (asking : s.engine = .asking)
    (none : s.numlisteners ≤ 0) (i : ℕ) (inside : i < count) :
    (s.listeners i).acceptor.counted = false := by
  have positive : ∀ j ∈ Finset.range count, 0 ≤ (s.listeners j).acceptor.weight := by
    intro j _
    rw [Acceptor.weight]
    split <;> norm_num
  have total := sound.numlisteners
  have calm : Engine.asking.pending = 0 := rfl
  rw [Service.counted, asking, calm, add_zero] at total
  have least := Finset.single_le_sum positive (Finset.mem_range.mpr inside)
  apply Bool.eq_false_iff.mpr
  intro counted
  rw [Acceptor.weight, if_pos counted] at least
  linarith

/-- What a step of the engine does to the count -/
theorem engine_weight {exit : Bool} {numlisteners : ℤ} {engine following : Engine}
    {l other : Listener}
    (absent : engine = .spawning engine.index → l.acceptor = .absent)
    (steps : engine.step nix count exit numlisteners l = some (following, other)) :
    other.acceptor.weight + following.pending =
      l.acceptor.weight + engine.pending +
        if engine = .counting engine.index then 1 else 0 := by
  unfold Engine.step at steps
  split at steps <;> repeat' split at steps
  all_goals cases steps
  all_goals grind [Engine.index]

/-- What a step of an acceptor does to the count -/
theorem acceptor_weight {exit success : Bool} {l other : Listener}
    (steps : l.acceptorStep nix exit success = some other) :
    other.acceptor.weight =
      l.acceptor.weight - if l.acceptor = .decrementing then 1 else 0 := by
  unfold Listener.acceptorStep at steps
  split at steps <;> repeat' split at steps
  all_goals cases steps
  all_goals grind

/-- The engine stays within its listeners, and only a signal makes it stop them. -/
theorem engine_inside {exit : Bool} {numlisteners : ℤ} {engine following : Engine}
    {l other : Listener} (inside : engine.Inside count) (exits : engine.stops → exit = true)
    (steps : engine.step nix count exit numlisteners l = some (following, other)) :
    following.Inside count ∧ (following.stops → exit = true) := by
  unfold Engine.step at steps
  split at steps <;> repeat' split at steps
  all_goals cases steps
  all_goals constructor <;> first | assumption | grind

/-- Behind its last listener the engine changes none. -/
theorem engine_beyond {exit : Bool} {numlisteners : ℤ} {engine following : Engine}
    {l other : Listener} (inside : engine.Inside count) (beyond : count ≤ engine.index)
    (steps : engine.step nix count exit numlisteners l = some (following, other)) :
    other = l := by
  unfold Engine.step at steps
  split at steps <;> repeat' split at steps
  all_goals cases steps
  all_goals grind [Engine.index]

theorem engineStep (sound : Sound nix count s) (steps : s.engineStep nix count = some next) :
    Sound nix count next := by
  rw [Service.engineStep, Option.map_eq_some_iff] at steps
  rcases steps with ⟨⟨following, l⟩, stepped, rfl⟩
  rcases engine_inside sound.inside sound.exit stepped with ⟨following_inside, following_exit⟩
  refine ⟨?_, ?_, following_inside, following_exit, ?_⟩
  · intro j inside
    have missed : s.engine = .asking → s.numlisteners ≤ 0 →
        (s.listeners j).acceptor.counted = false :=
      fun asking none => sound.missed asking none j inside
    rcases eq_or_ne j s.engine.index with rfl | apart
    · simpa [Service.put] using (sound.fits _ inside).engineOwn inside missed stepped
    · simpa [Service.put, Function.update_of_ne apart] using
        (sound.fits j inside).engineOther inside apart sound.inside missed stepped
  · intro j beyond
    rcases eq_or_ne j s.engine.index with rfl | apart
    · simpa [Service.put, engine_beyond sound.inside beyond stepped] using sound.beyond _ beyond
    · simpa [Service.put, Function.update_of_ne apart] using sound.beyond j beyond
  · have total := sound.numlisteners
    simp only [Service.counted, Service.put] at total ⊢
    by_cases inside : s.engine.index < count
    · have absent : s.engine = .spawning s.engine.index →
          (s.listeners s.engine.index).acceptor = .absent := by
        intro spawning
        have fits := sound.fits _ inside
        apply fits.absent.mpr
        rw [spawning]
        exact Nat.lt_irrefl _
      have weight := engine_weight absent stepped
      rw [sum_update _ inside, total]
      split at weight <;> rename_i counting
      · rw [if_pos counting]
        linarith
      · rw [if_neg counting]
        linarith
    · have same := engine_beyond sound.inside (by omega) stepped
      have weight := engine_weight (fun spawning => by
        have beyond := sound.inside
        rw [spawning] at beyond
        exact absurd beyond inside) stepped
      rw [same] at weight
      rw [sum_update_beyond _ (by omega), total]
      split at weight <;> rename_i counting
      · rw [if_pos counting]
        linarith
      · rw [if_neg counting]
        linarith

theorem acceptorStep (sound : Sound nix count s) {i : ℕ} {success : Bool}
    (steps : s.acceptorStep nix i success = some next) : Sound nix count next := by
  rw [Service.acceptorStep, Option.map_eq_some_iff] at steps
  rcases steps with ⟨l, stepped, rfl⟩
  have inside : i < count := by
    by_contra beyond
    have absent := sound.beyond i (by omega)
    simp [Listener.acceptorStep, absent] at stepped
  refine ⟨?_, ?_, sound.inside, sound.exit, ?_⟩
  · intro j within
    rcases eq_or_ne j i with rfl | apart
    · simpa [Service.put] using (sound.fits j within).acceptorStep stepped
    · simpa [Service.put, Function.update_of_ne apart] using sound.fits j within
  · intro j beyond
    have apart : j ≠ i := by omega
    simpa [Service.put, Function.update_of_ne apart] using sound.beyond j beyond
  · have weight := acceptor_weight stepped
    have total := sound.numlisteners
    simp only [Service.counted, Service.put] at total ⊢
    rw [sum_update _ inside, weight, total]
    split <;> linarith

/-- What happens to one listener without being counted -/
theorem put (sound : Sound nix count s) {i : ℕ} {l : Listener}
    (fits : i < count → Fits nix count s.exit s.engine i l)
    (same : l.acceptor.weight = (s.listeners i).acceptor.weight)
    (beyond : count ≤ i → l.acceptor = .absent) : Sound nix count (s.put i l) := by
  refine ⟨?_, ?_, sound.inside, sound.exit, ?_⟩
  · intro j inside
    rcases eq_or_ne j i with rfl | apart
    · simpa [Service.put] using fits inside
    · simpa [Service.put, Function.update_of_ne apart] using sound.fits j inside
  · intro j outside
    rcases eq_or_ne j i with rfl | apart
    · simpa [Service.put] using beyond outside
    · simpa [Service.put, Function.update_of_ne apart] using sound.beyond j outside
  · have total := sound.numlisteners
    simp only [Service.counted, Service.put] at total ⊢
    by_cases inside : i < count
    · rw [sum_update _ inside, total, same]
      linarith
    · rw [sum_update_beyond _ (by omega), total]

theorem step (sound : Sound nix count s) {move : Service.Move}
    (steps : s.step nix count move = some next) : Sound nix count next := by
  cases move with
  | signal =>
      rcases Option.some.inj steps with rfl
      exact ⟨fun i inside => (sound.fits i inside).signal, sound.beyond, sound.inside,
        fun _ => rfl, sound.numlisteners⟩
  | engine => exact sound.engineStep steps
  | acceptor i success => exact sound.acceptorStep steps
  | acceptError i =>
      rw [Service.step, Option.map_eq_some_iff] at steps
      rcases steps with ⟨l, errs, rfl⟩
      have waiting : (s.listeners i).acceptor = .waiting ∧ l.acceptor = .testing := by
        unfold Listener.acceptError at errs
        split at errs <;> cases errs
        exact ⟨‹_›, rfl⟩
      refine sound.put (fun inside => (sound.fits i inside).acceptError errs) ?_ ?_
      · rw [waiting.1, waiting.2]
        rfl
      · intro beyond
        cases waiting.1.symm.trans (sound.beyond i beyond)
  | arrive i =>
      rw [Service.step, Option.map_eq_some_iff] at steps
      rcases steps with ⟨l, arrives, rfl⟩
      have same : l.acceptor = (s.listeners i).acceptor := by
        rw [← arrive_adds arrives]
      refine sound.put (fun inside => (sound.fits i inside).arrive arrives) ?_ ?_
      · rw [same]
      · intro beyond
        rw [same, sound.beyond i beyond]
  | bridge i joins =>
      rw [Service.step, Option.map_eq_some_iff] at steps
      rcases steps with ⟨l, bridges, rfl⟩
      have same : l.acceptor = (s.listeners i).acceptor := by
        rw [← bridge_leaves bridges]
      refine sound.put (fun inside => (sound.fits i inside).bridge bridges) ?_ ?_
      · rw [same]
      · intro beyond
        rw [same, sound.beyond i beyond]

theorem run (runs : Service.Run nix count s) : Sound nix count s := by
  induction runs with
  | start => exact start
  | step _ move steps ih => exact ih.step steps

/-- Whoever has been started and is off the count has only to unlock, if anything. -/
theorem off (sound : Sound nix count s) {i : ℕ} (inside : i < count)
    (started : s.engine.started count i) (uncounted : (s.listeners i).acceptor.counted = false) :
    (s.listeners i).acceptor = .unlocking ∨ (s.listeners i).acceptor = .ended := by
  have present : (s.listeners i).acceptor ≠ .absent :=
    fun absent => (sound.fits i inside).absent.mp absent started
  cases place : (s.listeners i).acceptor <;>
    simp [place, Acceptor.counted] at present uncounted ⊢

/-- What the engine leaves behind -/
theorem destroyed (sound : Sound nix count s) {stopped : Bool}
    (gone : s.engine = .destroyed stopped) {i : ℕ} (inside : i < count) :
    (s.listeners i).acceptor = .ended ∨
      stopped = false ∧ (s.listeners i).acceptor = .unlocking := by
  have fits := sound.fits i inside
  rw [gone] at fits
  cases stopped with
  | true => exact .inl (fits.passed rfl)
  | false =>
      have started : s.engine.started count i := by
        rw [gone]
        exact inside
      rcases sound.off inside started (fits.misses rfl) with unlocking | ended
      · exact .inr ⟨rfl, unlocking⟩
      · exact .inl ended

end Sound

/-! ### The count and the end -/

/-- In every run `numlisteners` counts the acceptors on their way. So the engine misses its
listeners only when all have taken themselves off the count, a listener that `stop` has
returned from has no acceptor left, and after `exit` each gives at most one more pipe to its
handler. When the engine is gone, a stopped service has no acceptor left, and one without
listeners at most such as have still to unlock their listener, which is gone as well. -/
theorem ends_of_run {s : Service} (run : Service.Run nix count s) :
    s.numlisteners = s.counted count ∧
      (s.engine = .asking → s.numlisteners ≤ 0 → ∀ i, i < count →
        (s.listeners i).acceptor = .unlocking ∨ (s.listeners i).acceptor = .ended) ∧
      (∀ i, i < count → s.engine.passed i → (s.listeners i).acceptor = .ended) ∧
      (∀ i, i < count → (s.listeners i).late ≤ 1) ∧
      ∀ stopped, s.engine = .destroyed stopped → ∀ i, i < count →
        (s.listeners i).acceptor = .ended ∨
          stopped = false ∧ (s.listeners i).acceptor = .unlocking := by
  have sound := Sound.run run
  refine ⟨sound.numlisteners, ?_, ?_, ?_, ?_⟩
  · intro asking none i inside
    have started : s.engine.started count i := by
      rw [asking]
      exact inside
    exact sound.off inside started (sound.missed asking none i inside)
  · intro i inside passed
    exact (sound.fits i inside).passed passed
  · intro i inside
    have late := (sound.fits i inside).late
    omega
  · intro stopped gone i inside
    exact sound.destroyed gone inside

/-- A listener that cannot listen: the engine has gone before its acceptor unlocks. -/
def unlockedLate : List Service.Move :=
  List.replicate 4 Service.Move.engine ++ List.replicate 3 (Service.Move.acceptor 0 true) ++
    [Service.Move.acceptor 0 false] ++ List.replicate 3 (Service.Move.acceptor 0 true) ++
    List.replicate 3 Service.Move.engine

theorem ends_of_run_unlocking :
    ∃ s : Service, Service.Run true 1 s ∧ s.engine = .destroyed false ∧
      (s.listeners 0).acceptor = .unlocking ∧ s.numlisteners = s.counted 1 := by
  have taken : ∃ s, Service.steps true 1 {} unlockedLate = some s ∧
      s.engine = .destroyed false ∧ (s.listeners 0).acceptor = .unlocking :=
    ⟨_, rfl, rfl, rfl⟩
  rcases taken with ⟨s, moves, destroyed, unlocking⟩
  have run : Service.Run true 1 s := Service.Run.start.steps moves
  exact ⟨s, run, destroyed, unlocking, (ends_of_run run).1⟩

end Imconee.Lifecycle
