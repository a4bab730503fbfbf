import Mathlib.Data.Int.Notation
import Mathlib.Logic.Function.Basic
import Mathlib.Tactic.Common

/-!
# The engine and its listeners

`engine` opens every listener, each of which starts an acceptor thread, and then asks
`working` once a second, until a signal has set `exit` or no listener is left. In the first
case it stops the listeners one after another. Both threads of a listener meet at its `state`
behind a lock for readers and writers: a writer first bars new readers, of its own thread
too, and then waits until the old ones have gone.

A step is one access to the lock or to a shared variable, one call of the system, which is
taken to come back, or one test of a loop. Sections that take the lock and give it back at once
are one step where nobody else can keep it.
`stop` keeps a lock for reading on the build for Linux, `acceptor` keeps one for writing at
its end, and these are part of the state.

The handler of a listener is there with the list of its bridging threads, for which `hand->stop`
waits until it is empty. Threads come to that list and leave it at any time.
-/

set_option autoImplicit false

namespace Imconee.Lifecycle

/-- `tcp_listener::state_stage` -/
inductive Stage where
  | idle
  | acceptorStart
  | acceptorWorks
  deriving DecidableEq, Repr

/-- Who has the lock for writing, or has barred it -/
inductive Party where
  | engine
  | acceptor
  deriving DecidableEq, Repr

/-- Where the acceptor thread is: in front of its first lock, waiting behind the bar, in front
of reading `bind`, of `tcp_listen`, of the test of `need_stop`; in `tcp_accept` in front of
the first `is_stop`, of `accept`, within it, in front of the second `is_stop`; in front of
`on_pipe`, of the last lock, waiting behind its bar, in front of the decrement of
`numlisteners` and of the end of the scope, which unlocks. -/
inductive Acceptor where
  | absent
  | starting
  | entering
  | reading
  | listening
  | testing
  | accepting
  | calling
  | waiting
  | accepted
  | handing
  | leaving
  | exiting
  | decrementing
  | unlocking
  | ended
  deriving DecidableEq, Repr

/-- A `tcp_listener` and its acceptor. -/
structure Listener where
  stage : Stage := .idle
  needStop : Bool := false
  /-- `_socket` is valid. -/
  socket : Bool := false
  /-- The connections that wait to be accepted -/
  backlog : ℕ := 0
  /-- `st`, the lock for reading that `stop` keeps -/
  reader : Bool := false
  writer : Option Party := none
  acceptor : Acceptor := .absent
  /-- How many pipes `on_pipe` has been given after `exit` had been set -/
  late : ℕ := 0
  /-- The threads in the list `pth` of the handler -/
  bridging : ℕ := 0
  deriving DecidableEq, Repr

/-- The lock can be had for reading. -/
def Listener.readable (l : Listener) : Bool := l.writer = none

/-- The lock can be had for writing without waiting. -/
def Listener.writable (l : Listener) : Bool := l.writer = none && !l.reader

/-- The next step of the acceptor; `success` is the outcome of `tcp_listen`, or tells whether
`accept` comes back with a connection. Without one it comes back where closing the socket
wakes it, which it does not on Linux. -/
def Listener.acceptorStep (nix exit success : Bool) (l : Listener) : Option Listener :=
  match l.acceptor with
  | .absent => none
  | .starting =>
      if l.readable then some { l with writer := some .acceptor, acceptor := .entering }
      else none
  | .entering =>
      if l.reader then none
      else some { l with stage := .acceptorWorks, writer := none, acceptor := .reading }
  | .reading => if l.readable then some { l with acceptor := .listening } else none
  | .listening =>
      if success then some { l with socket := true, backlog := 0, acceptor := .testing }
      else some { l with acceptor := .leaving }
  | .testing =>
      if l.readable then
        some { l with acceptor := if l.needStop then .leaving else .accepting }
      else none
  | .accepting => some { l with acceptor := if exit then .testing else .calling }
  | .calling => some { l with acceptor := if l.socket then .waiting else .testing }
  | .waiting =>
      if success then
        if 0 < l.backlog then some { l with backlog := l.backlog - 1, acceptor := .accepted }
        else none
      else if !nix && !l.socket then some { l with acceptor := .testing }
      else none
  | .accepted => some { l with acceptor := if exit then .testing else .handing }
  | .handing =>
      some { l with late := if exit then l.late + 1 else l.late, acceptor := .testing }
  | .leaving =>
      if l.readable then some { l with writer := some .acceptor, acceptor := .exiting }
      else none
  | .exiting =>
      if l.reader then none else some { l with stage := .idle, acceptor := .decrementing }
  | .decrementing => some { l with acceptor := .unlocking }
  | .unlocking => some { l with writer := none, acceptor := .ended }
  | .ended => none

/-- `accept` comes back with an error of its own. -/
def Listener.acceptError (l : Listener) : Option Listener :=
  if l.acceptor = .waiting then some { l with acceptor := .testing } else none

/-- A client connects. -/
def Listener.arrive (l : Listener) : Option Listener :=
  if l.socket || l.acceptor = .waiting then some { l with backlog := l.backlog + 1 } else none

/-- A bridging thread of the handler comes to the list or leaves it. -/
def Listener.bridge (joins : Bool) (l : Listener) : Option Listener :=
  if joins then some { l with bridging := l.bridging + 1 }
  else if 0 < l.bridging then some { l with bridging := l.bridging - 1 }
  else none

/-- Where the thread of the engine is, and with which listener: in `open` in front of its
section, of the increment, of the start of the thread; in `working` in front of `exit` and of
`numlisteners`; in `stop` in front of the first test, of `need_stop = true`, of a test of the
loop of `hand->stop`, of the connection that is to wake the acceptor, of `close`, of a test of
the last loop, of `need_stop = false`, waiting behind its bar. In the end `working` has returned
-1, with all listeners stopped or with none left, and the engine goes. -/
inductive Engine where
  | opening (i : ℕ)
  | counting (i : ℕ)
  | spawning (i : ℕ)
  | working
  | asking
  | testing (i : ℕ)
  | demanding (i : ℕ)
  | handling (i : ℕ)
  | waking (i : ℕ)
  | closing (i : ℕ)
  | awaiting (i : ℕ)
  | resetting (i : ℕ)
  | releasing (i : ℕ)
  | returned (stopped : Bool)
  | destroyed (stopped : Bool)
  deriving DecidableEq, Repr

/-- The listener that the engine is with -/
def Engine.index : Engine → ℕ
  | .opening i | .counting i | .spawning i | .testing i | .demanding i | .handling i | .waking i
  | .closing i | .awaiting i | .resetting i | .releasing i => i
  | .working | .asking | .returned _ | .destroyed _ => 0

/-- The next step of the thread of the engine, with what becomes of its listener -/
def Engine.step (nix : Bool) (count : ℕ) (exit : Bool) (numlisteners : ℤ) (l : Listener) :
    Engine → Option (Engine × Listener)
  | .opening i =>
      if count ≤ i then some (.working, l)
      else if l.writable then
        if l.stage ≠ .idle then some (.opening (i + 1), l)
        else some (.counting i, { l with stage := .acceptorStart })
      else none
  | .counting i => some (.spawning i, l)
  | .spawning i => some (.opening (i + 1), { l with acceptor := .starting })
  | .working => some (if exit then .testing 0 else .asking, l)
  | .asking => some (if numlisteners ≤ 0 then .returned false else .working, l)
  | .testing i =>
      if count ≤ i then some (.returned true, l)
      else if l.readable then
        some (if l.stage = .idle then .testing (i + 1) else .demanding i, l)
      else none
  | .demanding i =>
      if l.writable then some (.handling i, { l with needStop := true }) else none
  | .handling i => some (if l.bridging = 0 then .waking i else .handling i, l)
  | .waking i =>
      if nix then
        if l.readable then
          some (.closing i, { l with
            reader := true, backlog := if l.socket then l.backlog + 1 else l.backlog })
        else none
      else some (.closing i, l)
  | .closing i => some (.awaiting i, { l with socket := false })
  | .awaiting i =>
      if l.readable then some (if l.stage = .idle then .resetting i else .awaiting i, l)
      else none
  | .resetting i =>
      if l.readable then some (.releasing i, { l with writer := some .engine }) else none
  | .releasing i =>
      if l.reader then none
      else some (.testing (i + 1), { l with needStop := false, writer := none })
  | .returned stopped => some (.destroyed stopped, l)
  | .destroyed _ => none

structure Service where
  exit : Bool := false
  numlisteners : ℤ := 0
  listeners : ℕ → Listener := fun _ => {}
  engine : Engine := .opening 0

namespace Service

def put (s : Service) (i : ℕ) (l : Listener) : Service :=
  { s with listeners := Function.update s.listeners i l }

variable (nix : Bool) (count : ℕ)

/-- A step of the engine; that of `increment` counts. -/
def engineStep (s : Service) : Option Service :=
  let i := s.engine.index
  (s.engine.step nix count s.exit s.numlisteners (s.listeners i)).map fun stepped =>
    { s.put i stepped.2 with
      engine := stepped.1
      numlisteners :=
        if s.engine = .counting i then s.numlisteners + 1 else s.numlisteners }

/-- A step of an acceptor; that of `decrement` counts. -/
def acceptorStep (s : Service) (i : ℕ) (success : Bool) : Option Service :=
  let l := s.listeners i
  (l.acceptorStep nix s.exit success).map fun next =>
    { s.put i next with
      numlisteners :=
        if l.acceptor = .decrementing then s.numlisteners - 1 else s.numlisteners }

/-- Who does the next step; the acceptor's may be one that its listener does not decide. -/
inductive Move where
  | signal
  | engine
  | acceptor (i : ℕ) (success : Bool)
  | acceptError (i : ℕ)
  | arrive (i : ℕ)
  | bridge (i : ℕ) (joins : Bool)
  deriving DecidableEq, Repr

def step (s : Service) : Move → Option Service
  | .signal => some { s with exit := true }
  | .engine => s.engineStep nix count
  | .acceptor i success => s.acceptorStep nix i success
  | .acceptError i => (s.listeners i).acceptError.map (s.put i)
  | .arrive i => (s.listeners i).arrive.map (s.put i)
  | .bridge i joins => ((s.listeners i).bridge joins).map (s.put i)

/-- Steps one after another -/
def steps (s : Service) : List Move → Option Service
  | [] => some s
  | move :: moves => (s.step nix count move).bind fun next => next.steps moves

/-- What any steps come to, from the end of the loops of the constructor on -/
inductive Run : Service → Prop where
  | start : Run {}
  | step {s next : Service} (run : Run s) (move : Move)
      (steps : s.step nix count move = some next) : Run next

variable {nix count}

theorem Run.steps {s next : Service} (run : Run nix count s) {moves : List Move}
    (taken : s.steps nix count moves = some next) : Run nix count next := by
  induction moves generalizing s with
  | nil =>
      rcases Option.some.inj taken with rfl
      exact run
  | cons move moves ih =>
      rw [Service.steps, Option.bind_eq_some_iff] at taken
      rcases taken with ⟨first, stepped, others⟩
      exact ih (run.step move stepped) others

end Service

end Imconee.Lifecycle
