import Imconee.Handlers.Keeping
import Mathlib.Logic.Function.Basic

/-!
# `handler::processing_thread`

The slots of a thread and what is done with them. `tick` is in two parts: `register` up to
the point where it gives up the lock and waits, and `finishTick` from there on. The pass over
the slots touches only those that were there when it began, so that it is one step with the
compaction at its end, which has the lock again.
-/

set_option autoImplicit false

namespace Imconee.Handlers

open Imconee.Netkit

variable {P : Type}

/-- `processing_thread`; `numslots` is -1 once it takes no more slots. -/
structure ProcessingThread (P : Type) where
  numslots : ℤ := 0
  slots : ℕ → Bridged P := fun _ => {}

/-- What moving a slot leaves of it. -/
def Bridged.movedFrom (self : Bridged P) : Bridged P := { self with pipe1 := none, pipe2 := none }

def moveslot (slots : ℕ → Bridged P) (dest source : ℕ) : ℕ → Bridged P :=
  let moved := if dest < source then Function.update slots dest (slots source) else slots
  Function.update moved source (slots source).movedFrom

/-- The state of the loop of `tick` that registers the slots. -/
structure Registering (P : Type) where
  ns : ℕ
  slots : ℕ → Bridged P
  waiter : PipeWaiter := {}

/-- The state of the loop of `tick` that processes the slots. Those of which `process` has
returned `SLOT_DEAD` are recorded as they were. -/
structure Pass (P : Type) where
  slots : ℕ → Bridged P
  masks : Mask
  index : ℕ := 0
  rv : ℕ := maximumSlots + 1
  wasDel : Option ℕ := none
  dead : List (Bridged P) := []

/-- The state of the loop of `tick` that closes the gaps. -/
structure Compaction (P : Type) where
  slots : ℕ → Bridged P
  rv : ℕ
  wasDel : ℕ

section

variable (impl : PipeImpl P)

/-- The slot that takes the place of one that fails is not registered: `i` goes on. -/
def registerSlots : ℕ → ℕ → Registering P → Registering P
  | 0, _, s => s
  | fuel + 1, i, s =>
      if i < s.ns then
        let prepared := (s.slots i).prepareWait impl s.waiter
        let slots := Function.update s.slots i prepared.2.1
        if prepared.1 then
          registerSlots fuel (i + 1) { s with slots, waiter := prepared.2.2 }
        else
          registerSlots fuel (i + 1)
            { ns := s.ns - 1, slots := moveslot slots i (s.ns - 1), waiter := prepared.2.2 }
      else s

/-- A dead slot is cleared, and as long as there are bits left it is processed again. There
is no value if a pipe throws or does not return. -/
def processSlots (curNumslots : ℕ) : ℕ → Pass P → Option (Pass P)
  | 0, _ => none
  | fuel + 1, s =>
      if s.index < curNumslots ∧ s.masks.isEmpty = false then
        let processed := (s.slots s.index).process impl s.masks
        match processed.1 with
        | .dead =>
            processSlots curNumslots fuel
              { s with
                slots := Function.update s.slots s.index {} -- clear
                masks := processed.2.2
                wasDel := s.wasDel <|> some s.index
                dead := s.dead ++ [s.slots s.index] }
        | .unwound => none
        | result =>
            processSlots curNumslots fuel
              { s with
                slots := Function.update s.slots s.index processed.2.1
                masks := processed.2.2
                index := s.index + 1
                rv := if maximumSlots < s.rv ∧ result = .skipped then s.index else s.rv }
      else some s

end

/-- A slot that is not empty moves to the first gap. -/
def Compaction.close (s : Compaction P) (i : ℕ) : Compaction P :=
  if (s.slots i).isEmpty then s
  else
    { slots := Function.update (Function.update s.slots s.wasDel (s.slots i)) i
        (s.slots i).movedFrom
      rv := if s.rv = i then s.wasDel else s.rv
      wasDel := s.wasDel + 1 }

/-- The slots behind the first dead one close up to it, those from `i` on. -/
def compactSlots : ℕ → ℕ → Compaction P → Compaction P
  | 0, _, s => s
  | count + 1, i, s => compactSlots count (i + 1) (s.close i)

namespace ProcessingThread

variable (impl : PipeImpl P)

/-- `try_add_bridge` -/
def tryAddBridge (self : ProcessingThread P) (pipe1 pipe2 : Option P) : ℤ × ProcessingThread P :=
  if self.numslots < 0 then (-1, self)
  else if self.numslots < maximumSlots then
    (1,
      { numslots := self.numslots + 1
        slots := Function.update self.slots self.numslots.toNat { pipe1, pipe2 } })
  else (0, self)

/-- The first part of `tick`: whether it goes on to wait. -/
def register (self : ProcessingThread P) : Bool × ProcessingThread P :=
  let registered := registerSlots impl self.numslots.toNat 0
    { ns := self.numslots.toNat, slots := self.slots }
  if registered.ns = 0 then (false, { numslots := -1, slots := registered.slots })
  else (true, { numslots := registered.ns, slots := registered.slots })

/-- What the second part of `tick` returns, leaves of the thread, and has found dead. -/
structure Finished (P : Type) where
  rv : ℤ
  thread : ProcessingThread P
  dead : List (Bridged P)

/-- Whether the thread goes on. -/
def Finished.ofSlots (ns rv : ℕ) (slots : ℕ → Bridged P) (dead : List (Bridged P)) :
    Finished P :=
  if ns = 0 then { rv := -1, thread := { numslots := -1, slots }, dead } -- lock this thread
  else { rv, thread := { numslots := ns, slots }, dead }

/-- The pass of `tick` over the slots. Every slot is processed at most twice. -/
def pass (slots : ℕ → Bridged P) (curNumslots : ℕ) (masks : Mask) : Option (Pass P) :=
  processSlots impl curNumslots (2 * curNumslots + 1) { slots, masks }

/-- What follows the pass, under the lock again. -/
def compact (numslots : ℤ) (pass : Pass P) : Finished P :=
  let ns := numslots.toNat
  match pass.wasDel with
  | none => .ofSlots ns pass.rv pass.slots pass.dead
  | some wasDel =>
      let compacted := compactSlots (ns - (wasDel + 1)) (wasDel + 1)
        { slots := pass.slots, rv := pass.rv, wasDel }
      .ofSlots compacted.wasDel compacted.rv compacted.slots pass.dead

/-- The second part of `tick`, once `wait` has returned a mask that is not empty. -/
def finishTick (self : ProcessingThread P) (curNumslots : ℕ) (masks : Mask) :
    Option (Finished P) :=
  (pass impl self.slots curNumslots masks).map (compact self.numslots)

/-- `forward`: its value, this thread and the next one. -/
def forward (self : ProcessingThread P) (slot : ℕ) (next : ProcessingThread P) :
    Bool × ProcessingThread P × ProcessingThread P :=
  let added := next.tryAddBridge (self.slots slot).pipe1 (self.slots slot).pipe2
  if 0 < added.1 then
    let ns := self.numslots - 1
    let slots := moveslot self.slots slot ns.toNat
    if ns = 0 then (true, { numslots := -1, slots }, added.2)
    else (false, { numslots := ns, slots }, added.2)
  else (false, self, next)

end ProcessingThread

end Imconee.Handlers
