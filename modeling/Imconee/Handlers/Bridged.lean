import Imconee.Netkit.PipeWaiter

/-!
# `handler::bridged`

A slot: two pipes and the bits they wait on. `process` is a list of stages, each of which
may stop it. A slot with a null pipe has no bits, so `process` leaves it alone.
-/

set_option autoImplicit false

namespace Imconee.Handlers

open Imconee.Netkit

/-- `bridged` -/
structure Bridged (P : Type) where
  pipe1 : Option P := none
  pipe2 : Option P := none
  mask1 : BitVec 64 := 0
  mask2 : BitVec 64 := 0

/-- `process_result`; `unwound` where a pipe throws or does not return. -/
inductive ProcessResult where
  | dead
  | processes
  | skipped
  | unwound
  deriving DecidableEq

/-- Whether `process` goes no further. -/
def ProcessResult.stops : ProcessResult → Bool
  | .dead => true
  | .unwound => true
  | _ => false

/-- `MAXIMUM_SLOTS` -/
def maximumSlots : ℕ := 30

/-- `BRIDGE_BUFFER_SIZE` -/
def bridgeBufferSize : ℤ := 65536

/-- The state of `process` between its stages. -/
structure Processing (P : Type) where
  pipe1 : P
  pipe2 : P
  masks : Mask
  rv : ProcessResult := .skipped

variable {P : Type} (impl : PipeImpl P)

/-- How much `process` reads for a pipe. -/
def rcvsize (target : P) : ℤ :=
  if (impl.send target none).1 = .bufferfull then 1 else bridgeBufferSize

/-- One read and what is sent of it: the result, the two pipes and whether the target has
nothing unsent. -/
structure Relayed (P : Type) where
  rv : ProcessResult
  source : P
  target : P
  sentAll : Bool := false

def relay (source target : P) : Relayed P :=
  let asked := (impl.send target none).2
  let read := impl.recv source (rcvsize impl target)
  match read.1 with
  | .data bytes =>
      if 0 < bytes.length then
        let sent := impl.send asked (some bytes)
        match sent.1 with
        | .fail => ⟨.dead, read.2, sent.2, false⟩
        | .ok => ⟨.processes, read.2, sent.2, true⟩
        | .bufferfull => ⟨.processes, read.2, sent.2, false⟩
        | .threw _ => ⟨.unwound, read.2, sent.2, false⟩
      else ⟨.processes, read.2, asked, false⟩
  | .failed => ⟨.dead, read.2, asked, false⟩
  | .threw _ => ⟨.unwound, read.2, asked, false⟩
  | .blocked => ⟨.unwound, read.2, asked, false⟩

/-- `send(data, 0)`: just send unsent buffer -/
def flush (pipe : P) : ProcessResult × P :=
  let sent := impl.send pipe (some [])
  match sent.1 with
  | .fail => (.dead, sent.2)
  | .threw _ => (.unwound, sent.2)
  | _ => (.processes, sent.2)

namespace Processing

variable (mask1 mask2 : BitVec 64)

def checkClosed (s : Processing P) : Processing P :=
  let closed := s.masks.haveClosed (mask1 ||| mask2)
  { s with masks := closed.2, rv := if closed.1 then .dead else s.rv }

def read1 (s : Processing P) : Processing P :=
  let read := s.masks.haveRead mask1
  if read.1 then
    let relayed := relay impl s.pipe1 s.pipe2
    { pipe1 := relayed.source
      pipe2 := relayed.target
      masks := if relayed.sentAll then read.2.removeWrite mask2 else read.2
      rv := relayed.rv }
  else { s with masks := read.2 }

def read2 (s : Processing P) : Processing P :=
  let read := s.masks.haveRead mask2
  if read.1 then
    let relayed := relay impl s.pipe2 s.pipe1
    { pipe1 := relayed.target
      pipe2 := relayed.source
      masks := if relayed.sentAll then read.2.removeWrite mask1 else read.2
      rv := relayed.rv }
  else { s with masks := read.2 }

def write1 (s : Processing P) : Processing P :=
  let write := s.masks.haveWrite mask1
  if write.1 then
    let flushed := flush impl s.pipe1
    { s with pipe1 := flushed.2, masks := write.2, rv := flushed.1 }
  else { s with masks := write.2 }

def write2 (s : Processing P) : Processing P :=
  let write := s.masks.haveWrite mask2
  if write.1 then
    let flushed := flush impl s.pipe2
    { s with pipe2 := flushed.2, masks := write.2, rv := flushed.1 }
  else { s with masks := write.2 }

/-- The stages of `process`. -/
def stages : List (Processing P → Processing P) :=
  [checkClosed mask1 mask2, read1 impl mask1 mask2, read2 impl mask1 mask2, write1 impl mask1,
    write2 impl mask2]

/-- Stages one after the other, up to one that stops. -/
def run : List (Processing P → Processing P) → Processing P → Processing P
  | [], s => s
  | stage :: rest, s => if (stage s).rv.stops then stage s else run rest (stage s)

variable {impl mask1 mask2}

/-- A run that does not stop goes on behind its first stage. -/
theorem run_cons {stage : Processing P → Processing P} {stages : List (Processing P → Processing P)}
    {s : Processing P} (goesOn : (run (stage :: stages) s).rv.stops = false) :
    (stage s).rv.stops = false ∧ run (stage :: stages) s = run stages (stage s) := by
  rw [run] at goesOn ⊢
  split
  · rename_i stops
    rw [if_pos stops, stops] at goesOn
    cases goesOn
  · rename_i on
    exact ⟨by simpa using on, rfl⟩

/-- A run that stops has been stopped by one of its stages, and goes on up to it. -/
theorem run_of_stops {stages : List (Processing P → Processing P)} {s : Processing P}
    (running : s.rv.stops = false) (stops : (run stages s).rv.stops = true) :
    ∃ before stage after, stages = before ++ stage :: after ∧
      (run before s).rv.stops = false ∧ run stages s = stage (run before s) := by
  induction stages generalizing s with
  | nil =>
      rw [run, running] at stops
      cases stops
  | cons stage stages ih =>
      rw [run] at stops ⊢
      split
      · exact ⟨[], stage, stages, rfl, running, rfl⟩
      · rename_i on
        rw [if_neg on] at stops
        rcases ih (by simpa using on) stops with ⟨before, later, after, rfl, goesOn, last⟩
        refine ⟨stage :: before, later, after, rfl, ?_, ?_⟩
        · rwa [run, if_neg on]
        · rwa [run, if_neg on]

/-- What every stage keeps that does not stop holds behind a run that does not stop. -/
theorem run_invariant {inv : Processing P → Prop} {stages : List (Processing P → Processing P)}
    (keeps : ∀ stage ∈ stages, ∀ s, inv s → (stage s).rv.stops = false → inv (stage s))
    {s : Processing P} (start : inv s) (goesOn : (run stages s).rv.stops = false) :
    inv (run stages s) := by
  induction stages generalizing s with
  | nil => exact start
  | cons stage stages ih =>
      rcases run_cons goesOn with ⟨first, rest⟩
      rw [rest] at goesOn ⊢
      apply ih (fun later member => keeps later (List.mem_cons_of_mem _ member)) _ goesOn
      exact keeps stage List.mem_cons_self s start first

end Processing

namespace Bridged

def isEmpty (self : Bridged P) : Bool := self.pipe1.isNone || self.pipe2.isNone

/-- `reg(pipe)`: the bits, the waiter and the pipe. -/
def register (waiter : PipeWaiter) (pipe : Option P) : BitVec 64 × PipeWaiter × Option P :=
  match pipe with
  | none => (0, waiter, none) -- the source would follow the null pointer
  | some pipe =>
      let w := impl.getWaitable pipe
      ((waiter.reg w.1).1, (waiter.reg w.1).2, some w.2)

/-- `prepare_wait`: its value, the slot and the waiter. -/
def prepareWait (self : Bridged P) (waiter : PipeWaiter) : Bool × Bridged P × PipeWaiter :=
  let first := register impl waiter self.pipe1
  let self := { self with pipe1 := first.2.2, mask1 := first.1 }
  if first.1 = 0 then (false, self, first.2.1)
  else
    let second := register impl first.2.1 self.pipe2
    let self := { self with pipe2 := second.2.2, mask2 := second.1 }
    if second.1 = 0 then (false, self, second.2.1.unregLast) else (true, self, second.2.1)

/-- `process`: its value, the slot and what is left of the masks. -/
def process (self : Bridged P) (masks : Mask) : ProcessResult × Bridged P × Mask :=
  match self.pipe1, self.pipe2 with
  | some pipe1, some pipe2 =>
      let s := Processing.run (Processing.stages impl self.mask1 self.mask2)
        { pipe1, pipe2, masks }
      (s.rv, { self with pipe1 := some s.pipe1, pipe2 := some s.pipe2 }, s.masks)
  | _, _ => (.skipped, self, masks)

/-- What becomes of a slot: it is registered, `wait` marks its pipes, and it is processed,
as long as that is allowed. -/
inductive Run (allowed : Bridged P → Mask → Prop) (start : Bridged P) : Bridged P → Prop where
  | start : Run allowed start start
  | prepareWait {self : Bridged P} (waiter : PipeWaiter) (run : Run allowed start self) :
      Run allowed start (self.prepareWait impl waiter).2.1
  | mark1 {self : Bridged P} (w : Waitable) (run : Run allowed start self) :
      Run allowed start { self with pipe1 := self.pipe1.map fun pipe => impl.setWaitable pipe w }
  | mark2 {self : Bridged P} (w : Waitable) (run : Run allowed start self) :
      Run allowed start { self with pipe2 := self.pipe2.map fun pipe => impl.setWaitable pipe w }
  | process {self : Bridged P} {masks : Mask} (run : Run allowed start self)
      (fine : allowed self masks) (goesOn : (self.process impl masks).1.stops = false) :
      Run allowed start (self.process impl masks).2.1

end Bridged

end Imconee.Handlers
