import Imconee.Handlers.Keeping
import Imconee.Handlers.ProcessingThread

/-!
# Connections

A connection is a pair of pipes, known by their addresses. As long as a slot holds one, it
goes on holding the same one, until `process` returns `SLOT_DEAD` or `prepare_wait` fails.
The latter does not happen if the pipes are live.
-/

set_option autoImplicit false

namespace Imconee.Netkit

variable {P : Type}

/-- Pipes that stay registrable: every call keeps them so, as far as it has a result with
which `process` goes on. -/
structure PipeImpl.Lasting (impl : PipeImpl P) (live : P → Prop) : Prop where
  keeps : Handlers.KeepsFitting impl (fun _ _ => True) live
  waits : ∀ pipe, live pipe → (impl.getWaitable pipe).1.isSome

/-- The live pipe at an address. -/
def PipePtr.At (live : P → Prop) (address : ℕ) (ptr : PipePtr P) : Prop :=
  ptr.address = address ∧ live ptr.pipe

theorem PipeImpl.Lasting.keeps_at {impl : PipeImpl P} {live : P → Prop}
    (lasting : impl.Lasting live) (address : ℕ) :
    Handlers.KeepsFitting impl.ptr (fun _ _ => True) (PipePtr.At live address) where
  send _ _ at_ := ⟨at_.1, lasting.keeps.send _ _ at_.2⟩
  recv _ _ _ at_ _ returned := ⟨at_.1, lasting.keeps.recv _ _ _ at_.2 trivial returned⟩
  getWaitable _ at_ := ⟨at_.1, lasting.keeps.getWaitable _ at_.2⟩
  setWaitable _ _ at_ := ⟨at_.1, lasting.keeps.setWaitable _ _ at_.2⟩

end Imconee.Netkit

namespace Imconee.Handlers

open Imconee.Netkit

variable {P : Type} {impl : PipeImpl P} {live : P → Prop}

namespace Bridged

/-- Both pipes are null. -/
def Vacant (self : Bridged P) : Prop := self.pipe1 = none ∧ self.pipe2 = none

theorem vacant_movedFrom (self : Bridged P) : self.movedFrom.Vacant := ⟨rfl, rfl⟩

theorem Vacant.isEmpty {self : Bridged P} (vacant : self.Vacant) : self.isEmpty = true := by
  simp [Bridged.isEmpty, vacant.1]

/-- The addresses of the two pipes. -/
def connection (self : Bridged (PipePtr P)) : Option (ℕ × ℕ) :=
  match self.pipe1, self.pipe2 with
  | some pipe1, some pipe2 => some (pipe1.address, pipe2.address)
  | _, _ => none

theorem Vacant.connection {self : Bridged (PipePtr P)} (vacant : self.Vacant) :
    self.connection = none := by
  simp [Bridged.connection, vacant.1]

variable (live) in
/-- A slot that holds a connection between live pipes. -/
def Holds (self : Bridged (PipePtr P)) (connection : ℕ × ℕ) : Prop :=
  self.isEmpty = false ∧ self.Both (PipePtr.At live connection.1) (PipePtr.At live connection.2)

namespace Holds

variable {self : Bridged (PipePtr P)} {connection : ℕ × ℕ}

theorem pipes (holds : self.Holds live connection) :
    ∃ pipe1 pipe2, self.pipe1 = some pipe1 ∧ self.pipe2 = some pipe2 ∧
      PipePtr.At live connection.1 pipe1 ∧ PipePtr.At live connection.2 pipe2 := by
  rcases holds with ⟨full, both1, both2⟩
  cases there1 : self.pipe1 with
  | none => simp [Bridged.isEmpty, there1] at full
  | some pipe1 =>
      cases there2 : self.pipe2 with
      | none => simp [Bridged.isEmpty, there2] at full
      | some pipe2 =>
          exact ⟨pipe1, pipe2, rfl, rfl, both1 pipe1 there1, both2 pipe2 there2⟩

theorem connection_eq (holds : self.Holds live connection) :
    self.connection = some connection := by
  rcases holds.pipes with ⟨pipe1, pipe2, there1, there2, at1, at2⟩
  simp [Bridged.connection, there1, there2, at1.1, at2.1]

theorem unique (holds : self.Holds live connection) {other : ℕ × ℕ}
    (holds' : self.Holds live other) : connection = other :=
  Option.some.inj (holds.connection_eq.symm.trans holds'.connection_eq)

theorem not_vacant (holds : self.Holds live connection) : ¬self.Vacant := fun vacant => by
  have full := holds.1
  rw [Vacant.isEmpty vacant] at full
  cases full

theorem process (lasting : impl.Lasting live) (holds : self.Holds live connection) {masks : Mask}
    (goesOn : (self.process impl.ptr masks).1.stops = false) :
    (self.process impl.ptr masks).2.1.Holds live connection := by
  refine ⟨?_, (lasting.keeps_at _).process (lasting.keeps_at _) holds.2
    (fun _ _ _ _ => ⟨fun _ => trivial, fun _ => trivial⟩) goesOn⟩
  rcases holds.pipes with ⟨pipe1, pipe2, there1, there2, -⟩
  simp [Bridged.process, Bridged.isEmpty, there1, there2]

theorem prepareWait (lasting : impl.Lasting live) (holds : self.Holds live connection)
    {waiter : PipeWaiter} (small : waiter.numw + 2 ≤ 64) :
    (self.prepareWait impl.ptr waiter).1 = true ∧
      (self.prepareWait impl.ptr waiter).2.1.Holds live connection ∧
      (self.prepareWait impl.ptr waiter).2.2.numw = waiter.numw + 2 := by
  have both := (lasting.keeps_at _).prepareWait (lasting.keeps_at _) holds.2 waiter
  rcases holds.pipes with ⟨pipe1, pipe2, there1, there2, at1, at2⟩
  rcases Option.isSome_iff_exists.mp (lasting.waits _ at1.2) with ⟨w1, waits1⟩
  rcases Option.isSome_iff_exists.mp (lasting.waits _ at2.2) with ⟨w2, waits2⟩
  have bits1 : (PipeWaiter.reg waiter (some w1)).1 ≠ 0 := bit_ne_zero (by omega)
  have bits2 : (PipeWaiter.reg (PipeWaiter.reg waiter (some w1)).2 (some w2)).1 ≠ 0 :=
    bit_ne_zero (show waiter.numw + 1 < 64 by omega)
  have registered : self.prepareWait impl.ptr waiter =
      (true,
        { pipe1 := some (impl.ptr.getWaitable pipe1).2
          pipe2 := some (impl.ptr.getWaitable pipe2).2
          mask1 := (PipeWaiter.reg waiter (some w1)).1
          mask2 := (PipeWaiter.reg (PipeWaiter.reg waiter (some w1)).2 (some w2)).1 },
        (PipeWaiter.reg (PipeWaiter.reg waiter (some w1)).2 (some w2)).2) := by
    simp only [Bridged.prepareWait, register, there1, there2, PipeImpl.ptr, waits1, waits2, bits1,
      bits2, if_false]
  rw [registered] at both ⊢
  exact ⟨rfl, ⟨rfl, both⟩, rfl⟩

theorem mark1 (lasting : impl.Lasting live) (holds : self.Holds live connection) (w : Waitable) :
    ({ self with pipe1 := self.pipe1.map fun pipe => impl.ptr.setWaitable pipe w } :
      Bridged (PipePtr P)).Holds live connection := by
  refine ⟨?_, (lasting.keeps_at _).mark1 holds.2 w⟩
  simpa [Bridged.isEmpty] using holds.1

theorem mark2 (lasting : impl.Lasting live) (holds : self.Holds live connection) (w : Waitable) :
    ({ self with pipe2 := self.pipe2.map fun pipe => impl.ptr.setWaitable pipe w } :
      Bridged (PipePtr P)).Holds live connection := by
  refine ⟨?_, (lasting.keeps_at _).mark2 holds.2 w⟩
  simpa [Bridged.isEmpty] using holds.1

end Holds

end Bridged

end Imconee.Handlers
