import Imconee.Botan.CipherMode
import Mathlib.Data.Int.Notation

/-!
# `netkit::pipe`

The interface of pipes, and what the layers above may assume of one: a source hands the
bytes of a stream over in order and in pieces of its own choice, a sink takes what is sent
to it in order.
-/

set_option autoImplicit false

namespace Imconee.Netkit

open Imconee.Botan

/-- `sendrslt`; an exception of a layer below passes through. -/
inductive SendRslt where
  | ok
  | fail
  | bufferfull
  | threw (exception : Exception)
  deriving DecidableEq

/-- What `recv` returns: the bytes read, -1, or an exception; `blocked` if it does not
return. -/
inductive RecvRslt where
  | data (bytes : List UInt8)
  | failed
  | threw (exception : Exception)
  | blocked
  deriving DecidableEq

/-- What is handed over. -/
def RecvRslt.bytes : RecvRslt → List UInt8
  | .data bytes => bytes
  | _ => []

theorem RecvRslt.bytes_eq_nil {result : RecvRslt} (other : ∀ bytes, result ≠ .data bytes) :
    result.bytes = [] := by
  cases result with
  | data bytes => exact absurd rfl (other bytes)
  | failed => rfl
  | threw exception => rfl
  | blocked => rfl

/-- `READY_SYSTEM` and `READY_PIPE` -/
def readySystem : UInt8 := 1

def readyPipe : UInt8 := 2

/-- `waitable_data` -/
structure Waitable where
  ready : UInt8 := 0
  bufferfull : UInt8 := 0
  deriving DecidableEq

namespace Waitable

def isReady (w : Waitable) : Bool := w.ready ≠ 0

def makeReady (w : Waitable) (mask : UInt8) : Waitable := { w with ready := w.ready ||| mask }

def clearReady (w : Waitable) (mask : UInt8) : Waitable := { w with ready := w.ready &&& ~~~mask }

theorem isReady_makeReady_readyPipe (w : Waitable) : (w.makeReady readyPipe).isReady = true := by
  simp only [isReady, makeReady, readyPipe, ne_eq, UInt8.or_eq_zero_iff]
  simp

end Waitable

/-- A class of pipes. `send none` is the call with a null pointer, and `setWaitable` writes
through the pointer that `get_waitable` returns. -/
structure PipeImpl (P : Type) where
  send : P → Option (List UInt8) → SendRslt × P
  recv : P → ℤ → RecvRslt × P
  getWaitable : P → Option Waitable × P
  setWaitable : P → Waitable → P

variable {P : Type}

/-- A pipe that hands over a stream. After a call that returns no data the rest of the
stream may be lost. -/
structure Source (impl : PipeImpl P) (stream : P → List UInt8) : Prop where
  recv_data : ∀ {pipe next size bytes}, impl.recv pipe size = (.data bytes, next) →
    stream pipe = bytes ++ stream next ∧ (0 ≤ size → (bytes.length : ℤ) ≤ size) ∧
      (size < 0 → (bytes.length : ℤ) = -size)
  recv_other : ∀ {pipe next size result}, impl.recv pipe size = (result, next) →
    (∀ bytes, result ≠ .data bytes) → stream next = stream pipe ∨ stream next = []
  getWaitable : ∀ pipe, stream (impl.getWaitable pipe).2 = stream pipe
  setWaitable : ∀ pipe w, stream (impl.setWaitable pipe w) = stream pipe

/-- A call that returns no data loses none either. -/
def Lossless (impl : PipeImpl P) (stream : P → List UInt8) : Prop :=
  ∀ {pipe next size result}, impl.recv pipe size = (result, next) →
    (∀ bytes, result ≠ .data bytes) → stream next = stream pipe

/-- A pipe that takes over what is sent, until a call fails. -/
structure Sink (impl : PipeImpl P) (taken : P → List UInt8) : Prop where
  send_data : ∀ {pipe next bytes result}, impl.send pipe (some bytes) = (result, next) →
    result = .ok ∨ result = .bufferfull → taken next = taken pipe ++ bytes
  send_null : ∀ pipe, taken (impl.send pipe none).2 = taken pipe

/-- Every call keeps a property of the pipes. -/
structure PipeImpl.Keeps (impl : PipeImpl P) (valid : P → Prop) : Prop where
  send : ∀ pipe data, valid pipe → valid (impl.send pipe data).2
  recv : ∀ pipe size, valid pipe → valid (impl.recv pipe size).2
  getWaitable : ∀ pipe, valid pipe → valid (impl.getWaitable pipe).2
  setWaitable : ∀ pipe w, valid pipe → valid (impl.setWaitable pipe w)

/-- The pipes that have such a property, as a class of their own. -/
def PipeImpl.restrict (impl : PipeImpl P) {valid : P → Prop} (keeps : impl.Keeps valid) :
    PipeImpl { pipe // valid pipe } where
  send pipe data :=
    ((impl.send pipe.1 data).1, ⟨(impl.send pipe.1 data).2, keeps.send _ _ pipe.2⟩)
  recv pipe size :=
    ((impl.recv pipe.1 size).1, ⟨(impl.recv pipe.1 size).2, keeps.recv _ _ pipe.2⟩)
  getWaitable pipe :=
    ((impl.getWaitable pipe.1).1, ⟨(impl.getWaitable pipe.1).2, keeps.getWaitable _ pipe.2⟩)
  setWaitable pipe w := ⟨impl.setWaitable pipe.1 w, keeps.setWaitable _ _ pipe.2⟩

/-- Two classes of pipes as one. -/
def PipeImpl.sum {Q : Type} (left : PipeImpl P) (right : PipeImpl Q) : PipeImpl (P ⊕ Q) where
  send pipe data :=
    match pipe with
    | .inl pipe => ((left.send pipe data).1, .inl (left.send pipe data).2)
    | .inr pipe => ((right.send pipe data).1, .inr (right.send pipe data).2)
  recv pipe size :=
    match pipe with
    | .inl pipe => ((left.recv pipe size).1, .inl (left.recv pipe size).2)
    | .inr pipe => ((right.recv pipe size).1, .inr (right.recv pipe size).2)
  getWaitable pipe :=
    match pipe with
    | .inl pipe => ((left.getWaitable pipe).1, .inl (left.getWaitable pipe).2)
    | .inr pipe => ((right.getWaitable pipe).1, .inr (right.getWaitable pipe).2)
  setWaitable pipe w :=
    match pipe with
    | .inl pipe => .inl (left.setWaitable pipe w)
    | .inr pipe => .inr (right.setWaitable pipe w)

/-- `pipe_ptr` -/
structure PipePtr (P : Type) where
  address : ℕ
  pipe : P

/-- The calls through a pointer. -/
def PipeImpl.ptr (impl : PipeImpl P) : PipeImpl (PipePtr P) where
  send ptr data := ((impl.send ptr.pipe data).1, { ptr with pipe := (impl.send ptr.pipe data).2 })
  recv ptr size := ((impl.recv ptr.pipe size).1, { ptr with pipe := (impl.recv ptr.pipe size).2 })
  getWaitable ptr :=
    ((impl.getWaitable ptr.pipe).1, { ptr with pipe := (impl.getWaitable ptr.pipe).2 })
  setWaitable ptr w := { ptr with pipe := impl.setWaitable ptr.pipe w }

/-- A pipe held in memory, to run the model with: the segments still to be received, and what
has been sent. -/
structure MemoryPipe where
  incoming : List (List UInt8) := []
  outgoing : List UInt8 := []
  waitable : Waitable := {}

namespace MemoryPipe

/-- What a read of at most `size` bytes leaves of the segments. -/
def dropFirst (size : ℕ) : List (List UInt8) → List (List UInt8)
  | [] => []
  | segment :: rest => if segment.length ≤ size then rest else segment.drop size :: rest

def stream (pipe : MemoryPipe) : List UInt8 := pipe.incoming.flatten

theorem flatten_dropFirst (size : ℕ) (incoming : List (List UInt8)) :
    (incoming.headD []).take size ++ (dropFirst size incoming).flatten = incoming.flatten := by
  cases incoming with
  | nil => simp [dropFirst]
  | cons segment rest =>
      simp only [dropFirst, List.headD_cons, List.flatten_cons]
      split
      · rename_i whole
        rw [List.take_of_length_le whole]
      · rw [List.flatten_cons, ← List.append_assoc, List.take_append_drop]

end MemoryPipe

def memoryPipe : PipeImpl MemoryPipe where
  send pipe data := (.ok, { pipe with outgoing := pipe.outgoing ++ data.getD [] })
  recv pipe size :=
    if 0 ≤ size then
      (.data ((pipe.incoming.headD []).take size.toNat),
        { pipe with incoming := MemoryPipe.dropFirst size.toNat pipe.incoming })
    else if -size ≤ pipe.stream.length then
      (.data (pipe.stream.take (-size).toNat),
        { pipe with incoming := [pipe.stream.drop (-size).toNat] })
    else (.failed, pipe)
  getWaitable pipe := (some pipe.waitable, pipe)
  setWaitable pipe w := { pipe with waitable := w }

theorem source_memoryPipe : Source memoryPipe MemoryPipe.stream where
  recv_data {pipe next size bytes} received := by
    simp only [memoryPipe] at received
    split at received
    · simp only [Prod.mk.injEq, RecvRslt.data.injEq] at received
      rcases received with ⟨rfl, rfl⟩
      refine ⟨(MemoryPipe.flatten_dropFirst _ _).symm, fun _ => ?_, by omega⟩
      rw [List.length_take]
      omega
    · split at received
      · simp only [Prod.mk.injEq, RecvRslt.data.injEq] at received
        rcases received with ⟨rfl, rfl⟩
        refine ⟨by simp [MemoryPipe.stream], by omega, fun _ => ?_⟩
        rw [List.length_take]
        omega
      · cases received
  recv_other {pipe next size result} received other := by
    simp only [memoryPipe] at received
    split at received
    · cases received
      exact absurd rfl (other _)
    · split at received
      · cases received
        exact absurd rfl (other _)
      · cases received
        exact Or.inl rfl
  getWaitable _ := rfl
  setWaitable _ _ := rfl

theorem sink_memoryPipe : Sink memoryPipe MemoryPipe.outgoing where
  send_data {pipe next bytes result} sent _ := by
    simp only [memoryPipe, Prod.mk.injEq] at sent
    rcases sent with ⟨-, rfl⟩
    rfl
  send_null pipe := by simp [memoryPipe]

theorem quiet_memoryPipe (pipe : MemoryPipe) (size : ℤ) (exception : Exception) :
    (memoryPipe.recv pipe size).1 ≠ .threw exception := by
  simp only [memoryPipe]
  repeat' split
  all_goals simp

end Imconee.Netkit
