import Imconee.Netkit.Pipe

/-!
# `netkit::pipe_waiter`

Pipes are registered one after the other, each for a bit of its own. `wait` does not block
if one of them is ready already; what the operating system then reports of the sockets is
its input.
-/

set_option autoImplicit false

namespace Imconee.Netkit

/-- `1ull << index` -/
def bit (index : ℕ) : BitVec 64 := 1#64 <<< index

theorem getLsbD_bit (index other : ℕ) :
    (bit index).getLsbD other = (decide (index < 64) && decide (index = other)) := by
  rw [bit, ← BitVec.twoPow_eq, BitVec.getLsbD_twoPow]

theorem bit_ne_zero {index : ℕ} (small : index < 64) : bit index ≠ 0 := by
  intro zero
  have same := congrArg (fun bits => bits.getLsbD index) zero
  simp only [getLsbD_bit, small, decide_true, Bool.and_self] at same
  exact absurd same (by simp)

theorem and_bit_ne_zero {bits : BitVec 64} {index : ℕ} (small : index < 64) :
    bits &&& bit index ≠ 0 ↔ bits.getLsbD index = true := by
  have some := bit_ne_zero small
  rw [bit, ← BitVec.twoPow_eq] at some ⊢
  rw [BitVec.and_twoPow]
  split <;> simp_all

/-- `pipe_waiter::mask` -/
structure Mask where
  readm : BitVec 64 := 0
  closem : BitVec 64 := 0
  writem : BitVec 64 := 0
  deriving DecidableEq

namespace Mask

/-- What `have_read`, `have_closed` and `have_write` share: whether any of the bits `m` is
set; they are cleared. -/
def takeBits (bits m : BitVec 64) : Bool × BitVec 64 :=
  if bits &&& m ≠ 0 then (true, bits &&& ~~~m) else (false, bits)

def haveRead (mask : Mask) (m : BitVec 64) : Bool × Mask :=
  ((takeBits mask.readm m).1, { mask with readm := (takeBits mask.readm m).2 })

def haveClosed (mask : Mask) (m : BitVec 64) : Bool × Mask :=
  ((takeBits mask.closem m).1, { mask with closem := (takeBits mask.closem m).2 })

def haveWrite (mask : Mask) (m : BitVec 64) : Bool × Mask :=
  ((takeBits mask.writem m).1, { mask with writem := (takeBits mask.writem m).2 })

def addRead (mask : Mask) (m : BitVec 64) : Mask := { mask with readm := mask.readm ||| m }

def addClose (mask : Mask) (m : BitVec 64) : Mask := { mask with closem := mask.closem ||| m }

def addWrite (mask : Mask) (m : BitVec 64) : Mask := { mask with writem := mask.writem ||| m }

def removeWrite (mask : Mask) (m : BitVec 64) : Mask :=
  { mask with writem := mask.writem &&& ~~~m }

def isEmpty (mask : Mask) : Bool := mask.readm = 0 && mask.closem = 0 && mask.writem = 0

end Mask

/-- What the operating system reports of a socket. -/
structure Events where
  closed : Bool := false
  readable : Bool := false
  writable : Bool := false

/-- `pipe_waiter` -/
structure PipeWaiter where
  numw : ℕ := 0
  readymask : BitVec 64 := 0

namespace PipeWaiter

/-- `reg`, with what `get_waitable` of the pipe returns; the value is 0 if it returns no
waitable. -/
def reg (waiter : PipeWaiter) (w : Option Waitable) : BitVec 64 × PipeWaiter :=
  match w with
  | none => (0, waiter)
  | some w => (bit waiter.numw,
      { numw := waiter.numw + 1
        readymask :=
          if w.isReady then waiter.readymask ||| bit waiter.numw else waiter.readymask })

def unregLast (waiter : PipeWaiter) : PipeWaiter :=
  { numw := waiter.numw - 1
    readymask := waiter.readymask &&& ~~~bit (waiter.numw - 1) }

/-- What the loops of `checkall` and `wait` make of the sockets, from the one at `index` on.
Whether a socket is writable is only asked if its pipe is marked `bufferfull`. -/
def addEvents : Mask → ℕ → List (Waitable × Events) → Mask
  | mask, _, [] => mask
  | mask, index, (w, events) :: sockets =>
      let mask := if events.closed then mask.addClose (bit index) else mask
      let mask := if events.readable then mask.addRead (bit index) else mask
      let mask :=
        if w.bufferfull ≠ 0 && events.writable then mask.addWrite (bit index) else mask
      addEvents mask (index + 1) sockets

/-- `wait`: whether it blocks, and the mask it returns. The sockets are those of the
registered pipes. -/
def wait (waiter : PipeWaiter) (sockets : List (Waitable × Events)) : Bool × Mask :=
  if waiter.readymask ≠ 0 then
    (false, addEvents { readm := waiter.readymask } 0 sockets) -- checkall
  else if waiter.numw = 0 then (false, {})
  else (true, addEvents {} 0 sockets)

theorem readymask_reg (waiter : PipeWaiter) (w : Waitable) {index : ℕ}
    (before : index < waiter.numw) :
    (waiter.reg (some w)).2.readymask.getLsbD index = waiter.readymask.getLsbD index := by
  rw [reg]
  dsimp only
  split
  · rw [BitVec.getLsbD_or, getLsbD_bit, decide_eq_false (by omega : ¬waiter.numw = index),
      Bool.and_false, Bool.or_false]
  · rfl

theorem readymask_reg_of_ready {waiter : PipeWaiter} {w : Waitable} (small : waiter.numw < 64)
    (ready : w.isReady = true) :
    (waiter.reg (some w)).2.readymask.getLsbD waiter.numw = true := by
  simp only [reg, ready, if_true]
  rw [BitVec.getLsbD_or, getLsbD_bit, decide_eq_true small, decide_eq_true rfl]
  simp

theorem readymask_unregLast {waiter : PipeWaiter} {index : ℕ}
    (before : index + 1 < waiter.numw) :
    waiter.unregLast.readymask.getLsbD index = waiter.readymask.getLsbD index := by
  rw [unregLast, BitVec.getLsbD_and, BitVec.getLsbD_not, getLsbD_bit,
    decide_eq_false (by omega : ¬waiter.numw - 1 = index), Bool.and_false, Bool.not_false,
    Bool.and_true]
  by_cases small : index < 64
  · simp [small]
  · rw [BitVec.getLsbD_of_ge _ _ (by omega), Bool.false_and]

theorem readm_addEvents {mask : Mask} {index bitIndex : ℕ} (sockets : List (Waitable × Events))
    (set : mask.readm.getLsbD bitIndex = true) :
    (addEvents mask index sockets).readm.getLsbD bitIndex = true := by
  induction sockets generalizing mask index with
  | nil => exact set
  | cons socket sockets ih =>
      rw [addEvents]
      refine ih ?_
      simp only [Mask.addWrite, Mask.addRead, Mask.addClose]
      split <;> split <;> split <;> simp [set]

/-- A pipe that is marked ready keeps `wait` from blocking and is reported readable. -/
theorem wait_of_ready {waiter : PipeWaiter} {index : ℕ} (small : index < 64)
    (ready : waiter.readymask.getLsbD index = true) (sockets : List (Waitable × Events)) :
    (waiter.wait sockets).1 = false ∧
      ((waiter.wait sockets).2.haveRead (bit index)).1 = true := by
  have some : waiter.readymask ≠ 0 := by
    intro zero
    rw [zero] at ready
    exact absurd ready (by simp)
  have reported : (addEvents { readm := waiter.readymask } 0 sockets).readm.getLsbD index = true :=
    readm_addEvents sockets ready
  simp only [wait, if_pos some, Mask.haveRead, Mask.takeBits]
  rw [if_pos ((and_bit_ne_zero small).mpr reported)]
  exact ⟨trivial, rfl⟩

end PipeWaiter

end Imconee.Netkit
