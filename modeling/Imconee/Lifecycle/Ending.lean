import Imconee.Lib.Fairness
import Imconee.Lifecycle.Stopping

/-!
# Whether the service ends

On Linux it does not: `stop` waits for itself, since the lock for reading that it keeps bars
the writer that it is at its end, and before that bars its acceptor. On Windows, where closing
the socket wakes the acceptor and nothing is kept locked, the engine ends in every run in which
a signal comes and the threads are treated fairly, if the bridging threads for which `hand->stop`
waits leave for good.
-/

set_option autoImplicit false

namespace Imconee.Lifecycle

variable {nix : Bool} {count : ℕ}

/-! ### Linux -/

/-- `stop` is behind its first test. -/
@[grind]
def Engine.within : Engine → ℕ → Prop
  | .demanding j | .handling j | .waking j | .closing j | .awaiting j | .resetting j
  | .releasing j => fun i => i = j
  | _ => fun _ => False

theorem Engine.inside_of_within {engine : Engine} {i : ℕ} (within : engine.within i)
    (inside : engine.Inside count) : i < count := by
  cases engine <;> simp_all only [Engine.within, Engine.Inside]

theorem Engine.eq_of_within {engine : Engine} {i j : ℕ} (within : engine.within i)
    (demands : engine.demands j) : j = i := by
  cases engine <;> simp_all [Engine.within, Engine.demands]

section Stuck

variable {i : ℕ} {s next : Service}

/-- No step of the engine leaves `stop`, as its last one would have to wait for the lock that
it keeps itself. -/
theorem engine_within {exit : Bool} {numlisteners : ℤ} {engine following : Engine}
    {l other : Listener} (reader : l.reader = true ↔ engine.holds i) (within : engine.within i)
    (steps : engine.step true count exit numlisteners l = some (following, other)) :
    following.within i ∧ (engine.holds i → following.holds i) ∧
      (l.stage ≠ .idle → other.stage ≠ .idle) := by
  unfold Engine.step at steps
  split at steps <;> repeat' split at steps
  all_goals cases steps
  all_goals simp_all [Engine.within, Engine.holds]

/-- The acceptor does not end either while the lock is kept. -/
theorem acceptor_kept {exit success : Bool} {l other : Listener} (reader : l.reader = true)
    (busy : l.stage ≠ .idle) (steps : l.acceptorStep nix exit success = some other) :
    other.stage ≠ .idle := by
  unfold Listener.acceptorStep at steps
  split at steps <;> repeat' split at steps
  all_goals cases steps
  all_goals grind

theorem within_index {engine : Engine} (within : engine.within i) : engine.index = i := by
  cases engine <;> simp_all [Engine.within, Engine.index]

theorem within_step (sound : Sound true count s) (within : s.engine.within i) (inside : i < count)
    {move : Service.Move} (steps : s.step true count move = some next) :
    next.engine.within i ∧ (s.engine.holds i → next.engine.holds i) ∧
      (s.engine.holds i → (s.listeners i).stage ≠ .idle → (next.listeners i).stage ≠ .idle) := by
  have reader : (s.listeners i).reader = true ↔ s.engine.holds i := by
    simpa using (sound.fits i inside).reader
  cases move with
  | signal =>
      rcases Option.some.inj steps with rfl
      exact ⟨within, id, fun _ => id⟩
  | engine =>
      rw [Service.step, Service.engineStep, Option.map_eq_some_iff] at steps
      rcases steps with ⟨⟨following, l⟩, stepped, rfl⟩
      rw [within_index within] at stepped
      rcases engine_within reader within stepped with ⟨stays, holds, busy⟩
      refine ⟨stays, holds, fun _ => ?_⟩
      simpa [Service.put, within_index within] using busy
  | acceptor j success =>
      rw [Service.step, Service.acceptorStep, Option.map_eq_some_iff] at steps
      rcases steps with ⟨l, stepped, rfl⟩
      refine ⟨within, id, fun holds busy => ?_⟩
      rcases eq_or_ne i j with rfl | apart
      · simpa [Service.put] using acceptor_kept (reader.mpr holds) busy stepped
      · simpa [Service.put, Function.update_of_ne apart] using busy
  | acceptError j =>
      rw [Service.step, Option.map_eq_some_iff] at steps
      rcases steps with ⟨l, errs, rfl⟩
      refine ⟨within, id, fun _ busy => ?_⟩
      rcases eq_or_ne i j with rfl | apart
      · unfold Listener.acceptError at errs
        split at errs <;> cases errs
        simpa [Service.put] using busy
      · simpa [Service.put, Function.update_of_ne apart] using busy
  | bridge j joins =>
      rw [Service.step, Option.map_eq_some_iff] at steps
      rcases steps with ⟨l, bridges, rfl⟩
      refine ⟨within, id, fun _ busy => ?_⟩
      rcases eq_or_ne i j with rfl | apart
      · rw [← bridge_leaves bridges]
        simpa [Service.put] using busy
      · simpa [Service.put, Function.update_of_ne apart] using busy
  | arrive j =>
      rw [Service.step, Option.map_eq_some_iff] at steps
      rcases steps with ⟨l, arrives, rfl⟩
      refine ⟨within, id, fun _ busy => ?_⟩
      rcases eq_or_ne i j with rfl | apart
      · rw [← arrive_adds arrives]
        simpa [Service.put] using busy
      · simpa [Service.put, Function.update_of_ne apart] using busy

/-- On Linux no run leaves a `stop` that is behind its first test, so the service does not end.
The other listeners are not told to stop, and an acceptor that is at work when the lock is taken
stays so. -/
theorem never_ends (run : Service.Run true count s) (within : s.engine.within i)
    {moves : List Service.Move} (later : s.steps true count moves = some next) :
    next.engine.within i ∧ (∀ stopped, next.engine ≠ .destroyed stopped) ∧
      (∀ j, j < count → j ≠ i → (next.listeners j).needStop = false) ∧
      (s.engine.holds i → (s.listeners i).stage ≠ .idle →
        next.engine.holds i ∧ (next.listeners i).stage ≠ .idle) := by
  induction moves generalizing s with
  | nil =>
      rcases Option.some.inj later with rfl
      refine ⟨within, ?_, ?_, fun holds busy => ⟨holds, busy⟩⟩
      · intro stopped destroyed
        rw [destroyed] at within
        exact within
      · intro j inside apart
        apply Bool.eq_false_iff.mpr
        intro told
        have demands := ((Sound.run run).fits j inside).needStop.mp told
        exact apart (Engine.eq_of_within within demands)
  | cons move moves ih =>
      rw [Service.steps, Option.bind_eq_some_iff] at later
      rcases later with ⟨first, stepped, others⟩
      have sound := Sound.run run
      have inside : i < count := Engine.inside_of_within within sound.inside
      rcases within_step sound within inside stepped with ⟨stays, holds, busy⟩
      rcases ih (run.step move stepped) stays others with ⟨last, alive, calm, kept⟩
      exact ⟨last, alive, calm, fun keeps works => kept (holds keeps) (busy keeps works)⟩

/-- One listener at work, a signal, and the engine behind the first test of `stop` -/
def stopped : List Service.Move :=
  List.replicate 4 Service.Move.engine ++ List.replicate 7 (Service.Move.acceptor 0 true) ++
    [Service.Move.signal] ++ List.replicate 2 Service.Move.engine

/-- Its acceptor is woken, and bars the lock. -/
def woken : List Service.Move :=
  List.replicate 4 Service.Move.engine ++ List.replicate 4 (Service.Move.acceptor 0 true)

theorem never_ends_woken :
    ∃ s next : Service, s.steps true 1 woken = some next ∧ s.engine = .demanding 0 ∧
      (next.listeners 0).writer = some .acceptor ∧ next.engine.within 0 := by
  have taken : ∃ s, Service.steps true 1 {} stopped = some s ∧ s.engine = .demanding 0 ∧
      ∃ next, s.steps true 1 woken = some next ∧
        (next.listeners 0).writer = some .acceptor :=
    ⟨_, rfl, rfl, _, rfl, rfl⟩
  rcases taken with ⟨s, moves, demanding, next, later, barred⟩
  have run : Service.Run true 1 s := Service.Run.start.steps moves
  have within : s.engine.within 0 := by
    rw [demanding]
    rfl
  exact ⟨s, next, later, demanding, barred, (never_ends run within later).1⟩

end Stuck

/-! ### Windows -/

/-- `stop` has closed the socket. -/
@[grind]
def Engine.closed : Engine → ℕ → Prop
  | .awaiting j | .resetting j | .releasing j => fun i => i = j
  | _ => fun _ => False

/-- The acceptor may be within `accept`. -/
@[grind]
def Acceptor.calls : Acceptor → Bool
  | .calling | .waiting => true
  | _ => false

/-- Behind `close` no acceptor waits at an open socket. -/
structure Closed (count : ℕ) (s : Service) : Prop where
  sound : Sound false count s
  closed : ∀ i, i < count → s.engine.closed i → (s.listeners i).acceptor.calls = true →
    (s.listeners i).socket = false

namespace Closed

variable {s next : Service}

theorem closed_stops {engine : Engine} {i : ℕ} (past : engine.closed i) : engine.stops := by
  cases engine <;> simp_all [Engine.closed, Engine.stops]

theorem closed_index {engine : Engine} {i : ℕ} (past : engine.closed i) : engine.index = i := by
  cases engine <;> simp_all [Engine.closed, Engine.index]

theorem acceptor_calls {exit success : Bool} {l other : Listener} (exits : exit = true)
    (closed : l.acceptor.calls = true → l.socket = false)
    (steps : l.acceptorStep false exit success = some other) :
    other.acceptor.calls = true → other.socket = false := by
  unfold Listener.acceptorStep at steps
  split at steps <;> repeat' split at steps
  all_goals cases steps
  all_goals simp_all [Acceptor.calls]

theorem engine_closed {exit : Bool} {numlisteners : ℤ} {engine following : Engine}
    {l other : Listener} {i : ℕ}
    (closed : engine.closed i → l.acceptor.calls = true → l.socket = false)
    (steps : engine.step false count exit numlisteners l = some (following, other)) :
    following.closed i →
      i = engine.index ∧ (other.acceptor.calls = true → other.socket = false) := by
  unfold Engine.step at steps
  split at steps <;> repeat' split at steps
  all_goals cases steps
  all_goals simp_all [Engine.closed, Engine.index]

/-- What happens to one listener while the engine stays where it is -/
theorem put (closed : Closed count s) {i : ℕ} {l : Listener} {numlisteners : ℤ}
    (sound : Sound false count { s.put i l with numlisteners := numlisteners })
    (calls : s.exit = true →
      ((s.listeners i).acceptor.calls = true → (s.listeners i).socket = false) →
        l.acceptor.calls = true → l.socket = false) :
    Closed count { s.put i l with numlisteners := numlisteners } := by
  refine ⟨sound, ?_⟩
  intro j inside past
  have kept := closed.closed j inside past
  have exits : s.exit = true := closed.sound.exit (closed_stops past)
  rcases eq_or_ne j i with rfl | apart
  · simpa [Service.put] using calls exits kept
  · simpa [Service.put, Function.update_of_ne apart] using kept

theorem step (closed : Closed count s) {move : Service.Move}
    (steps : s.step false count move = some next) : Closed count next := by
  have sound := closed.sound.step steps
  cases move with
  | signal =>
      rcases Option.some.inj steps with rfl
      exact ⟨sound, closed.closed⟩
  | engine =>
      rw [Service.step, Service.engineStep, Option.map_eq_some_iff] at steps
      rcases steps with ⟨⟨following, l⟩, stepped, rfl⟩
      refine ⟨sound, ?_⟩
      intro i inside past
      have here : s.engine.closed i → (s.listeners s.engine.index).acceptor.calls = true →
          (s.listeners s.engine.index).socket = false := by
        intro before
        rw [closed_index before]
        exact closed.closed i inside before
      rcases engine_closed here stepped past with ⟨rfl, calls⟩
      simpa [Service.put] using calls
  | acceptor i success =>
      rw [Service.step, Service.acceptorStep, Option.map_eq_some_iff] at steps
      rcases steps with ⟨l, stepped, rfl⟩
      exact closed.put sound fun exits kept => acceptor_calls exits kept stepped
  | acceptError i =>
      rw [Service.step, Option.map_eq_some_iff] at steps
      rcases steps with ⟨l, errs, rfl⟩
      refine closed.put sound ?_
      unfold Listener.acceptError at errs
      split at errs <;> cases errs
      simp [Acceptor.calls]
  | arrive i =>
      rw [Service.step, Option.map_eq_some_iff] at steps
      rcases steps with ⟨l, arrives, rfl⟩
      refine closed.put sound ?_
      rw [← arrive_adds arrives]
      exact fun _ kept => kept
  | bridge i joins =>
      rw [Service.step, Option.map_eq_some_iff] at steps
      rcases steps with ⟨l, bridges, rfl⟩
      refine closed.put sound ?_
      rw [← bridge_leaves bridges]
      exact fun _ kept => kept

theorem start : Closed count {} := ⟨Sound.start, fun _ _ => False.elim⟩

end Closed

/-- Who takes a step -/
inductive Mover where
  | outside
  | engine
  | acceptor (i : ℕ)
  deriving DecidableEq, Repr

def Service.Move.mover : Service.Move → Mover
  | .signal | .arrive _ | .bridge _ _ => .outside
  | .engine => .engine
  | .acceptor i _ | .acceptError i => .acceptor i

/-- A step of somebody -/
def Service.Takes (nix : Bool) (count : ℕ) (mover : Mover) (s next : Service) : Prop :=
  ∃ move : Service.Move, move.mover = mover ∧ s.step nix count move = some next

/-- How far the engine is from its end, once a signal has come -/
@[grind]
def Engine.rank (count : ℕ) : Engine → ℕ
  | .opening i => 8 * count + 3 * (count - i) + 4
  | .counting i => 8 * count + 3 * (count - i - 1) + 6
  | .spawning i => 8 * count + 3 * (count - i - 1) + 5
  | .asking => 8 * count + 4
  | .working => 8 * count + 3
  | .testing i => 8 * (count - i) + 2
  | .demanding i => 8 * (count - i - 1) + 9
  | .handling i => 8 * (count - i - 1) + 8
  | .waking i => 8 * (count - i - 1) + 7
  | .closing i => 8 * (count - i - 1) + 6
  | .awaiting i => 8 * (count - i - 1) + 5
  | .resetting i => 8 * (count - i - 1) + 4
  | .releasing i => 8 * (count - i - 1) + 3
  | .returned _ => 1
  | .destroyed _ => 0

/-- How far an acceptor is from its end, once it is told to stop -/
@[grind]
def Acceptor.rank : Acceptor → ℕ
  | .absent => 15
  | .starting => 14
  | .entering => 13
  | .reading => 12
  | .listening => 11
  | .accepting => 10
  | .calling => 9
  | .waiting => 8
  | .accepted => 7
  | .handing => 6
  | .testing => 5
  | .leaving => 4
  | .exiting => 3
  | .decrementing => 2
  | .unlocking => 1
  | .ended => 0

/-- How often an acceptor can still come to the lock for writing, or leave it -/
@[grind]
def Acceptor.phase : Acceptor → ℕ
  | .absent => 7
  | .starting => 6
  | .entering => 5
  | .reading | .listening | .testing | .accepting | .calling | .waiting | .accepted | .handing
  | .leaving => 4
  | .exiting => 3
  | .decrementing => 2
  | .unlocking => 1
  | .ended => 0

@[grind]
def Engine.awaits : Engine → Bool
  | .awaiting _ => true
  | _ => false

/-- The acceptor has to move before the engine gets any further. -/
@[grind]
def Engine.blocked (engine : Engine) (acceptor : Acceptor) : Bool :=
  if engine.awaits then acceptor != .ended else acceptor.writes

/-- What the acceptor of the listener that the engine is with adds to the rank -/
@[grind]
def Engine.share (engine : Engine) (acceptor : Acceptor) : ℕ :=
  if engine.awaits then acceptor.rank else acceptor.phase

namespace Closed

variable {s next : Service}

/-- Every step of the engine leads on, but for a test of its last loop, if no bridging thread
keeps it in the loop before. -/
theorem engine_falls {numlisteners : ℤ} {engine following : Engine} {l other : Listener}
    (inside : engine.Inside count) (ended : l.acceptor = .ended → l.stage = .idle)
    (alone : engine = .handling engine.index → l.bridging = 0)
    (steps : engine.step false count true numlisteners l = some (following, other)) :
    following.rank count < engine.rank count ∨
      following = engine ∧ other = l ∧ engine.blocked l.acceptor = true := by
  unfold Engine.step at steps
  split at steps <;> repeat' split at steps
  all_goals cases steps
  all_goals simp only [Engine.index] at alone
  all_goals grind

/-- Every step of the acceptor leads on, or leaves it to the engine to. -/
theorem acceptor_falls {success : Bool} {engine : Engine} {l other : Listener}
    (told : engine.awaits → l.needStop = true)
    (calls : engine.awaits → l.acceptor.calls = true → l.socket = false)
    (steps : l.acceptorStep false true success = some other) :
    engine.share other.acceptor < engine.share l.acceptor ∨
      engine.blocked l.acceptor = false ∧ engine.blocked other.acceptor = false ∧
        engine.share other.acceptor = engine.share l.acceptor := by
  unfold Listener.acceptorStep at steps
  split at steps <;> repeat' split at steps
  all_goals cases steps
  all_goals cases waits : engine.awaits
  all_goals simp_all [Engine.share, Engine.blocked, Acceptor.rank, Acceptor.phase,
    Acceptor.writes, Acceptor.calls]

/-- Nobody has the lock of the listener, or it is the engine itself. -/
theorem unlocked {exit : Bool} {engine : Engine} {i : ℕ} {l : Listener}
    (fits : Fits false count exit engine i l) (calm : l.acceptor.writes = false) :
    (l.writer = none ∨ engine = .releasing i) ∧ l.reader = false := by
  constructor
  · cases locked : l.writer with
    | none => exact .inl rfl
    | some party =>
        cases party with
        | engine => exact .inr (fits.engineLock.mp locked)
        | acceptor =>
            have writes := fits.acceptorLock.mp locked
            rw [calm] at writes
            cases writes
  · apply Bool.eq_false_iff.mpr
    intro reader
    cases (fits.reader.mp reader).1

/-- The engine can go on unless the acceptor has to. -/
theorem engine_enabled {exit : Bool} {numlisteners : ℤ} {engine : Engine} {l : Listener}
    (fits : engine.index < count → Fits false count exit engine engine.index l)
    (inside : engine.Inside count) (free : engine.blocked l.acceptor = false)
    (going : ∀ stopped, engine ≠ .destroyed stopped) :
    ∃ stepped, engine.step false count exit numlisteners l = some stepped := by
  have calm : l.acceptor.writes = false := by
    rw [Engine.blocked] at free
    split at free
    · rw [bne_eq_false_iff_eq] at free
      rw [free]
      rfl
    · exact free
  have lock := fun inside => unlocked (fits inside) calm
  apply Option.isSome_iff_exists.mp
  cases engine <;> simp only [Engine.step, Engine.index, Engine.Inside] at lock inside going ⊢
  all_goals grind [Listener.readable, Listener.writable]

/-- An acceptor for which the engine waits can go on. -/
theorem acceptor_enabled {exit : Bool} {engine : Engine} {l : Listener}
    (fits : Fits false count exit engine engine.index l)
    (present : engine.awaits → l.acceptor ≠ .absent)
    (calls : engine.awaits → l.acceptor.calls = true → l.socket = false)
    (blocked : engine.blocked l.acceptor = true) :
    ∃ next, l.acceptorStep false exit false = some next := by
  have lock := unlocked fits
  have reader : l.reader = false := by
    apply Bool.eq_false_iff.mpr
    intro reader
    cases (fits.reader.mp reader).1
  apply Option.isSome_iff_exists.mp
  unfold Listener.acceptorStep
  split <;> rename_i place
  all_goals cases waits : engine.awaits
  all_goals simp_all [Engine.blocked, Acceptor.calls, Acceptor.writes, Listener.readable]
  -- what is left are the places in front of the lock, at which the engine does not keep it
  all_goals
    apply lock.resolve_right
    intro releasing
    rw [releasing] at waits
    cases waits

/-- The listener that the engine is with -/
def own (s : Service) : Listener := s.listeners s.engine.index

def rank (count : ℕ) (s : Service) : ℕ :=
  16 * s.engine.rank count + s.engine.share (own s).acceptor

def helper (s : Service) : Mover :=
  if s.engine.blocked (own s).acceptor then .acceptor s.engine.index else .engine

theorem share_lt (engine : Engine) (acceptor : Acceptor) : engine.share acceptor < 16 := by
  cases waits : engine.awaits <;> cases acceptor <;>
    simp [Engine.share, waits, Acceptor.rank, Acceptor.phase]

/-- `hand->stop` does not wait for a bridging thread. -/
def Alone (s : Service) : Prop := s.engine = .handling s.engine.index → (own s).bridging = 0

/-- What holds after a signal -/
structure Signalled (count : ℕ) (s : Service) : Prop where
  closed : Closed count s
  exit : s.exit = true
  alone : Alone s

theorem awaits_inside {engine : Engine} (waits : engine.awaits = true)
    (inside : engine.Inside count) :
    engine.index < count ∧ engine.closed engine.index ∧ engine.demands engine.index ∧
      engine.started count engine.index := by
  cases engine <;> simp [Engine.awaits] at waits
  exact ⟨inside, rfl, rfl, inside⟩

theorem index_of_blocked (closed : Closed count s)
    (blocked : s.engine.blocked (own s).acceptor = true) : s.engine.index < count := by
  by_contra beyond
  have absent := closed.sound.beyond s.engine.index (by omega)
  cases waits : s.engine.awaits with
  | true => exact beyond (awaits_inside waits closed.sound.inside).1
  | false => simp [Engine.blocked, waits, own, absent, Acceptor.writes] at blocked

theorem helper_enabled (signalled : Signalled count s)
    (going : ¬∃ stopped, s.engine = .destroyed stopped) :
    Lib.Enabled (Service.Takes false count) (helper s) s := by
  rcases signalled with ⟨closed, -, -⟩
  have fits := fun inside => closed.sound.fits s.engine.index inside
  cases blocked : s.engine.blocked (own s).acceptor with
  | false =>
      have able : ∃ stepped, s.engine.step false count s.exit s.numlisteners (own s) =
          some stepped :=
        engine_enabled fits closed.sound.inside blocked (not_exists.mp going)
      rcases able with ⟨stepped, steps⟩
      rw [helper, if_neg (by simp [blocked])]
      exact ⟨_, .engine, rfl, Option.map_eq_some_iff.mpr ⟨stepped, steps, rfl⟩⟩
  | true =>
      have inside := index_of_blocked closed blocked
      have present : s.engine.awaits → (own s).acceptor ≠ .absent := by
        intro waits absent
        exact (fits inside).absent.mp absent (awaits_inside waits closed.sound.inside).2.2.2
      have calls : s.engine.awaits → (own s).acceptor.calls = true →
          (own s).socket = false := by
        intro waits
        exact closed.closed _ inside (awaits_inside waits closed.sound.inside).2.1
      rcases acceptor_enabled (fits inside) present calls blocked with ⟨l, steps⟩
      rw [helper, if_pos blocked]
      exact ⟨_, .acceptor s.engine.index false, rfl,
        Option.map_eq_some_iff.mpr ⟨l, steps, rfl⟩⟩

/-- What happens to one listener while the engine stays where it is -/
theorem put_falls {i : ℕ} {l : Listener} {numlisteners : ℤ} {mover : Mover}
    (others : i ≠ s.engine.index → mover ≠ helper s)
    (falls : i = s.engine.index → s.engine.share l.acceptor < s.engine.share (own s).acceptor ∨
      mover ≠ helper s ∧ s.engine.share l.acceptor = s.engine.share (own s).acceptor ∧
        s.engine.blocked l.acceptor = s.engine.blocked (own s).acceptor) :
    rank count { s.put i l with numlisteners := numlisteners } < rank count s ∨
      mover ≠ helper s ∧ rank count { s.put i l with numlisteners := numlisteners } = rank count s ∧
        helper { s.put i l with numlisteners := numlisteners } = helper s := by
  by_cases here : i = s.engine.index
  · have owns : own { s.put i l with numlisteners := numlisteners } = l := by
      simp [own, Service.put, here]
    rcases falls here with falls | ⟨other, share, blocked⟩
    · refine .inl ?_
      rw [rank, owns, rank]
      exact Nat.add_lt_add_left falls _
    · refine .inr ⟨other, ?_, ?_⟩
      · rw [rank, owns, rank]
        exact congrArg _ share
      · rw [helper, owns, helper]
        exact congrArg (fun blocked : Bool => if blocked then _ else _) blocked
  · have owns : own { s.put i l with numlisteners := numlisteners } = own s := by
      simp [own, Service.put, Function.update_of_ne (Ne.symm here)]
    refine .inr ⟨others here, ?_, ?_⟩
    · rw [rank, owns, rank]
      rfl
    · rw [helper, owns, helper]
      rfl

theorem other_acceptor {i : ℕ} (apart : i ≠ s.engine.index) : Mover.acceptor i ≠ helper s := by
  intro same
  rw [helper] at same
  split at same <;> cases same
  exact apart rfl

theorem not_outside : Mover.outside ≠ helper s := by
  rw [helper]
  split <;> exact Mover.noConfusion

/-- Every step leads on, or leaves the same thread to help. -/
theorem step_falls (signalled : Signalled count s) {mover : Mover}
    (takes : Service.Takes false count mover s next) :
    rank count next < rank count s ∨
      mover ≠ helper s ∧ rank count next = rank count s ∧ helper next = helper s := by
  rcases signalled with ⟨closed, exit, alone⟩
  rcases takes with ⟨move, rfl, steps⟩
  cases move with
  | signal =>
      rcases Option.some.inj steps with rfl
      exact .inr ⟨not_outside, rfl, rfl⟩
  | engine =>
      rw [Service.step, Service.engineStep, Option.map_eq_some_iff] at steps
      rcases steps with ⟨⟨following, l⟩, stepped, rfl⟩
      rw [exit] at stepped
      have ended : (own s).acceptor = .ended → (own s).stage = .idle := by
        intro ended
        have inside : s.engine.index < count := by
          by_contra beyond
          cases ended.symm.trans (closed.sound.beyond s.engine.index (by omega))
        exact (closed.sound.fits _ inside).stage.mpr (.inl (congrArg Acceptor.idles ended))
      rcases engine_falls closed.sound.inside ended alone stepped with falls | ⟨rfl, rfl, blocked⟩
      · refine .inl ?_
        have bound := share_lt following
          ((s.put s.engine.index l).listeners following.index).acceptor
        simp only [rank, own]
        omega
      · refine put_falls (fun apart => absurd rfl apart) fun _ => .inr ⟨?_, rfl, rfl⟩
        rw [helper, if_pos blocked]
        exact Mover.noConfusion
  | acceptor i success =>
      rw [Service.step, Service.acceptorStep, Option.map_eq_some_iff] at steps
      rcases steps with ⟨l, stepped, rfl⟩
      refine put_falls other_acceptor ?_
      rintro rfl
      rw [exit] at stepped
      have told : s.engine.awaits → (own s).needStop = true := by
        intro waits
        have place := awaits_inside waits closed.sound.inside
        exact (closed.sound.fits _ place.1).needStop.mpr place.2.2.1
      have calls : s.engine.awaits → (own s).acceptor.calls = true →
          (own s).socket = false := by
        intro waits
        have place := awaits_inside waits closed.sound.inside
        exact closed.closed _ place.1 place.2.1
      rcases acceptor_falls told calls stepped with falls | ⟨before, after, same⟩
      · exact .inl falls
      · refine .inr ⟨?_, same, after.trans before.symm⟩
        rw [helper, if_neg (by simp [before])]
        exact Mover.noConfusion
  | acceptError i =>
      rw [Service.step, Option.map_eq_some_iff] at steps
      rcases steps with ⟨l, errs, rfl⟩
      refine put_falls other_acceptor ?_
      rintro rfl
      unfold Listener.acceptError at errs
      split at errs <;> cases errs
      rename_i waiting
      cases waits : s.engine.awaits with
      | true =>
          refine .inl ?_
          simp [own, waiting, Engine.share, waits, Acceptor.rank]
      | false =>
          have free : s.engine.blocked (own s).acceptor = false := by
            simp [own, waiting, Engine.blocked, waits, Acceptor.writes]
          refine .inr ⟨?_, ?_, ?_⟩
          · rw [helper, if_neg (by simp [free])]
            exact Mover.noConfusion
          · simp [own, waiting, Engine.share, waits, Acceptor.phase]
          · simp [own, waiting, Engine.blocked, waits, Acceptor.writes]
  | arrive i =>
      rw [Service.step, Option.map_eq_some_iff] at steps
      rcases steps with ⟨l, arrives, rfl⟩
      have same : l.acceptor = (s.listeners i).acceptor := by
        rw [← arrive_adds arrives]
      refine put_falls (fun _ => not_outside) ?_
      rintro rfl
      exact .inr ⟨not_outside, congrArg _ same, congrArg _ same⟩
  | bridge i joins =>
      rw [Service.step, Option.map_eq_some_iff] at steps
      rcases steps with ⟨l, bridges, rfl⟩
      have same : l.acceptor = (s.listeners i).acceptor := by
        rw [← bridge_leaves bridges]
      refine put_falls (fun _ => not_outside) ?_
      rintro rfl
      exact .inr ⟨not_outside, congrArg _ same, congrArg _ same⟩

/-- The way to the end of the engine -/
def way (count : ℕ) : Lib.Trace.Way (Service.Takes false count) (Signalled count)
    (fun s => ∃ stopped, s.engine = .destroyed stopped) where
  rank := rank count
  helper := helper
  enabled _ signalled going := helper_enabled signalled going
  falls _ _ _ signalled _ takes := step_falls signalled takes

theorem takes (closed : Closed count s) {mover : Mover}
    (steps : Service.Takes false count mover s next) : Closed count next := by
  rcases steps with ⟨move, _, steps⟩
  exact closed.step steps

theorem exit_takes (exit : s.exit = true) {mover : Mover}
    (steps : Service.Takes nix count mover s next) : next.exit = true := by
  rcases steps with ⟨move, _, steps⟩
  cases move with
  | signal =>
      rcases Option.some.inj steps with rfl
      rfl
  | _ =>
      simp only [Service.step, Service.engineStep, Service.acceptorStep,
        Option.map_eq_some_iff] at steps
      rcases steps with ⟨_, _, rfl⟩
      exact exit

end Closed

/-- From some time on `hand->stop` of no listener waits. -/
theorem alone_of_leave {trace : Lib.Trace (Service.Takes false count)}
    (leave : ∀ i, i < count → ∃ n, ∀ m, n ≤ m → (trace.state m).engine = .handling i →
      ((trace.state m).listeners i).bridging = 0)
    (inside : ∀ m, (trace.state m).engine.Inside count) :
    ∃ n, ∀ m, n ≤ m → Closed.Alone (trace.state m) := by
  have upto : ∀ k, k ≤ count → ∃ n, ∀ m, n ≤ m → ∀ i, i < k →
      (trace.state m).engine = .handling i → ((trace.state m).listeners i).bridging = 0 := by
    intro k within
    induction k with
    | zero => exact ⟨0, fun _ _ i below => absurd below (Nat.not_lt_zero i)⟩
    | succ k ih =>
        rcases ih (Nat.le_of_succ_le within) with ⟨first, others⟩
        rcases leave k within with ⟨second, last⟩
        refine ⟨max first second, fun m later i below => ?_⟩
        rcases Nat.lt_succ_iff_lt_or_eq.mp below with lower | rfl
        · exact others m (Nat.le_trans (Nat.le_max_left _ _) later) i lower
        · exact last m (Nat.le_trans (Nat.le_max_right _ _) later)
  rcases upto count (Nat.le_refl count) with ⟨n, all⟩
  refine ⟨n, fun m later handling => all m later _ ?_ handling⟩
  have bound := inside m
  rw [handling] at bound
  exact bound

/-- On Windows, in every run that is fair to the engine and to the acceptors, in which a signal
comes, and in which the bridging threads of a handler leave for good while its `stop` waits for
them, the engine ends. Every acceptor has ended then, or has only to unlock. -/
theorem ends_of_fair (trace : Lib.Trace (Service.Takes false count))
    (start : trace.state 0 = {}) (fair : ∀ mover, mover ≠ .outside → trace.Fair mover)
    (leave : ∀ i, i < count → ∃ n, ∀ m, n ≤ m → (trace.state m).engine = .handling i →
      ((trace.state m).listeners i).bridging = 0)
    {time : ℕ} (signal : (trace.state time).exit = true) :
    ∃ n stopped, time ≤ n ∧ (trace.state n).engine = .destroyed stopped ∧
      ∀ i, i < count → ((trace.state n).listeners i).acceptor = .ended ∨
        stopped = false ∧ ((trace.state n).listeners i).acceptor = .unlocking := by
  have closed : ∀ n, Closed count (trace.state n) := by
    intro n
    exact trace.invariant (start ▸ Closed.start) (fun _ _ _ closed steps => closed.takes steps) n
      (Nat.zero_le n)
  have exits : ∀ n, time ≤ n → (trace.state n).exit = true :=
    trace.invariant signal fun _ _ _ exit steps => Closed.exit_takes exit steps
  have helps : ∀ s, Closed.Signalled count s →
      (¬∃ stopped, s.engine = .destroyed stopped) → trace.Fair ((Closed.way count).helper s) :=
    fun s _ _ => fair _ (Closed.not_outside (s := s)).symm
  rcases alone_of_leave leave fun m => (closed m).sound.inside with ⟨left, alone⟩
  have always : ∀ n, max time left ≤ n → Closed.Signalled count (trace.state n) := by
    intro n later
    exact ⟨closed n, exits n (Nat.le_trans (Nat.le_max_left _ _) later),
      alone n (Nat.le_trans (Nat.le_max_right _ _) later)⟩
  rcases trace.reaches (Closed.way count) always helps with ⟨n, later, stopped, destroyed⟩
  exact ⟨n, stopped, Nat.le_trans (Nat.le_max_left _ _) later, destroyed, fun i inside =>
    (closed n).sound.destroyed destroyed inside⟩

/-- One listener at work, with a bridging thread, and a signal -/
def signalledRun : List Service.Move :=
  List.replicate 4 Service.Move.engine ++ List.replicate 7 (Service.Move.acceptor 0 true) ++
    [Service.Move.bridge 0 true, Service.Move.signal]

/-- What is left to do: `hand->stop` waits for the bridging thread, which leaves, and both
threads come to their end. -/
def endingRun : List Service.Move :=
  List.replicate 4 Service.Move.engine ++ [Service.Move.bridge 0 false] ++
    List.replicate 3 Service.Move.engine ++ [Service.Move.acceptor 0 false] ++
    List.replicate 5 (Service.Move.acceptor 0 true) ++ List.replicate 5 Service.Move.engine

theorem takes_of_steps {s last : Service} {moves : List Service.Move}
    (run : s.steps nix count moves = some last) :
    Relation.ReflTransGen (fun s next => ∃ mover, Service.Takes nix count mover s next) s last := by
  induction moves generalizing s with
  | nil =>
      rcases Option.some.inj run with rfl
      exact .refl
  | cons move moves ih =>
      rw [Service.steps, Option.bind_eq_some_iff] at run
      rcases run with ⟨first, stepped, others⟩
      exact .head ⟨move.mover, move, rfl, stepped⟩ (ih others)

theorem ends_of_fair_whole :
    ∃ (trace : Lib.Trace (Service.Takes false 1)) (time n : ℕ) (stopped : Bool),
      trace.state 0 = {} ∧ (trace.state time).exit = true ∧
      (trace.state time).engine = .working ∧ ((trace.state time).listeners 0).bridging = 1 ∧
      time ≤ n ∧ (trace.state n).engine = .destroyed stopped := by
  have taken : ∃ s, Service.steps false 1 {} signalledRun = some s ∧ s.exit = true ∧
      s.engine = .working ∧ (s.listeners 0).bridging = 1 ∧
      ∃ last, s.steps false 1 endingRun = some last ∧
        last.engine = .destroyed true ∧ (last.listeners 0).acceptor = .ended :=
    ⟨_, rfl, rfl, rfl, rfl, _, rfl, rfl, rfl⟩
  rcases taken with ⟨s, before, exit, working, bridging, last, after, destroyed, ended⟩
  have sound := Sound.run ((Service.Run.start.steps before).steps after)
  rcases Lib.Trace.exists_of_finite (takes_of_steps after) with ⟨rest, signal, quiet, rests⟩
  rcases Lib.Trace.exists_of_before rest (signal ▸ takes_of_steps before) with
    ⟨trace, start, time, same⟩
  have here : trace.state time = s := by
    rw [← signal]
    exact same 0
  have stays : ∀ m, time + quiet ≤ m → trace.state m = last := by
    intro m later
    rw [← Nat.add_sub_of_le (Nat.le_of_add_right_le later), same]
    exact rests _ (by omega)
  have gone : ∀ i, (last.listeners i).acceptor = .ended ∨
      (last.listeners i).acceptor = .absent := by
    intro i
    cases i with
    | zero => exact .inl ended
    | succ i => exact .inr (sound.beyond (i + 1) (by omega))
  have fair : ∀ mover, mover ≠ .outside → trace.Fair mover := by
    intro mover inner
    apply Lib.Trace.fair_of_rests stays
    rintro ⟨next, move, rfl, steps⟩
    cases move with
    | signal | arrive | bridge => exact inner rfl
    | engine => simp [Service.step, Service.engineStep, destroyed, Engine.step] at steps
    | acceptor i success =>
        rcases gone i with place | place <;>
          simp [Service.step, Service.acceptorStep, Listener.acceptorStep, place] at steps
    | acceptError i =>
        rcases gone i with place | place <;>
          simp [Service.step, Listener.acceptError, place] at steps
  have leave : ∀ i, i < 1 → ∃ n, ∀ m, n ≤ m → (trace.state m).engine = .handling i →
      ((trace.state m).listeners i).bridging = 0 := by
    refine fun i _ => ⟨time + quiet, fun m later handling => ?_⟩
    rw [stays m later, destroyed] at handling
    cases handling
  have told : (trace.state time).exit = true := here ▸ exit
  rcases ends_of_fair trace start fair leave told with ⟨n, stopped, later, gone, _⟩
  exact ⟨trace, time, n, stopped, start, told, here ▸ working, here ▸ bridging, later, gone⟩

end Imconee.Lifecycle
