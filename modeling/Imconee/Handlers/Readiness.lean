import Imconee.Handlers.Keeping
import Imconee.Shadowsocks.OverTcp

/-!
# Readiness

A pipe that holds bytes which `recv` would return without the operating system must keep
`wait` from blocking. A `crypto_pipe` marks itself for what it has decrypted. A `tcp_pipe`
has nothing to mark itself with: it must not leave anything in `rcvbuf`, and it does not as
long as every read asks for as much as it gets.
-/

set_option autoImplicit false

namespace Imconee.Handlers

open Imconee.Netkit Imconee.Shadowsocks Imconee.Tools

section

variable {P : Type} {impl : PipeImpl P}

namespace Bridged

/-- Registering slots one after the other. -/
def registerAll (impl : PipeImpl P) (waiter : PipeWaiter) (slots : List (Bridged P)) : PipeWaiter :=
  slots.foldl (fun waiter slot => (slot.prepareWait impl waiter).2.2) waiter

/-- Registering a slot leaves the bits before it alone. -/
theorem readymask_prepareWait (impl : PipeImpl P) (self : Bridged P) {waiter : PipeWaiter}
    (small : waiter.numw + 2 ≤ 64) :
    waiter.numw ≤ (self.prepareWait impl waiter).2.2.numw ∧
      (self.prepareWait impl waiter).2.2.numw ≤ waiter.numw + 2 ∧
      ∀ index < waiter.numw, (self.prepareWait impl waiter).2.2.readymask.getLsbD index =
        waiter.readymask.getLsbD index := by
  rcases prepareWait_cases impl self small with
    ⟨-, same | ⟨w, next⟩⟩ | ⟨pipe1, pipe2, w1, w2, -, -, -, -, -, -, next⟩
  · rw [same]
    exact ⟨by omega, by omega, fun _ _ => rfl⟩
  · rw [next]
    refine ⟨Nat.le_refl _, Nat.le_add_right _ _, fun index before => ?_⟩
    rw [PipeWaiter.readymask_unregLast (Nat.succ_lt_succ before),
      PipeWaiter.readymask_reg waiter w before]
  · rw [next]
    refine ⟨Nat.le_add_right _ 2, Nat.le_refl _, fun index before => ?_⟩
    rw [PipeWaiter.readymask_reg _ _ (Nat.lt_succ_of_lt before),
      PipeWaiter.readymask_reg waiter w1 before]

theorem readymask_registerAll (impl : PipeImpl P) (slots : List (Bridged P))
    {waiter : PipeWaiter} (small : waiter.numw + 2 * slots.length ≤ 64) :
    waiter.numw ≤ (registerAll impl waiter slots).numw ∧
      (registerAll impl waiter slots).numw ≤ waiter.numw + 2 * slots.length ∧
      ∀ index < waiter.numw, (registerAll impl waiter slots).readymask.getLsbD index =
        waiter.readymask.getLsbD index := by
  induction slots generalizing waiter with
  | nil => exact ⟨Nat.le_refl _, Nat.le_refl _, fun _ _ => rfl⟩
  | cons slot slots ih =>
      rw [List.length_cons] at small
      rcases readymask_prepareWait impl slot
        (show waiter.numw + 2 ≤ 64 by omega) with ⟨more, atMost, same⟩
      rcases @ih (slot.prepareWait impl waiter).2.2 (by omega) with ⟨more', atMost', same'⟩
      rw [registerAll, List.foldl_cons, ← registerAll, List.length_cons]
      refine ⟨by omega, by omega, fun index before => ?_⟩
      rw [same' index (by omega), same index before]

end Bridged

/-- A pipe registered under some bits is marked ready: `wait` does not block and reports it
readable. -/
def Reported (waiting : PipeWaiter) (mask : BitVec 64) : Prop :=
  waiting.readymask &&& mask ≠ 0 ∧ ∀ sockets,
    (waiting.wait sockets).1 = false ∧ ((waiting.wait sockets).2.haveRead mask).1 = true

theorem reported_of_ready {waiting : PipeWaiter} {index : ℕ} (small : index < 64)
    (ready : waiting.readymask.getLsbD index = true) : Reported waiting (bit index) :=
  ⟨(and_bit_ne_zero small).mpr ready, PipeWaiter.wait_of_ready small ready⟩

namespace Bridged

/-- The pipes of a slot that is registered, if they are ready as far as they must be,
whichever other slots are registered before and behind it. -/
theorem reported_of_both {good stocked : P → Prop} {self : Bridged P} (both : self.Both good good)
    (ready : ∀ pipe w, good pipe → stocked pipe → (impl.getWaitable pipe).1 = some w →
      w.isReady = true)
    (before after : List (Bridged P)) (slots : before.length + after.length < maximumSlots)
    (registered : (self.prepareWait impl (registerAll impl {} before)).1 = true) :
    let prepared := self.prepareWait impl (registerAll impl {} before)
    let waiting := registerAll impl prepared.2.2 after
    (∀ pipe, self.pipe1 = some pipe → stocked pipe → Reported waiting prepared.2.1.mask1) ∧
      ∀ pipe, self.pipe2 = some pipe → stocked pipe → Reported waiting prepared.2.1.mask2 := by
  rw [maximumSlots] at slots
  rcases readymask_registerAll impl before
    (show ({} : PipeWaiter).numw + 2 * before.length ≤ 64 by dsimp only; omega) with ⟨-, early, -⟩
  generalize registerAll impl {} before = waiter at *
  rw [Nat.zero_add] at early
  rcases prepareWait_cases impl self (show waiter.numw + 2 ≤ 64 by omega) with
    ⟨failed, -⟩ | ⟨pipe1, pipe2, w1, w2, there1, there2, waits1, waits2, mask1, mask2, next⟩
  · rw [failed] at registered
    cases registered
  · have numw : ((waiter.reg (some w1)).2.reg (some w2)).2.numw = waiter.numw + 2 := rfl
    rcases readymask_registerAll impl after
      (show ((waiter.reg (some w1)).2.reg (some w2)).2.numw + 2 * after.length ≤ 64 by omega) with
      ⟨-, -, same⟩
    simp only [next, mask1, mask2]
    rw [numw] at same
    refine ⟨fun pipe there held => ?_, fun pipe there held => ?_⟩
    · obtain rfl : pipe1 = pipe := Option.some.inj (there1.symm.trans there)
      refine reported_of_ready (by omega) ?_
      rw [same waiter.numw (by omega), PipeWaiter.readymask_reg _ w2 (Nat.lt_succ_self _)]
      exact PipeWaiter.readymask_reg_of_ready (by omega)
        (ready pipe1 w1 (both.1 pipe1 there1) held waits1)
    · obtain rfl : pipe2 = pipe := Option.some.inj (there2.symm.trans there)
      refine reported_of_ready (by omega) ?_
      rw [same (waiter.numw + 1) (by omega)]
      exact PipeWaiter.readymask_reg_of_ready (show waiter.numw + 1 < 64 by omega)
        (ready pipe2 w2 (both.2 pipe2 there2) held waits2)

end Bridged

end

variable {K C : Type} {kernel : Kernel K} {incoming accepted : K → List UInt8}
  {cryptor : Cryptor C} {deriveAeadSubkey : List UInt8 → List UInt8 → List UInt8}
  {fuel loopFuel : ℕ}

variable (K C) in
/-- The pipes of a bridge. -/
abbrev AnyPipe := TcpPipe K ⊕ CryptoPipe (TcpPipe K) C

variable (kernel cryptor deriveAeadSubkey fuel loopFuel) in
def anyPipe : PipeImpl (AnyPipe K C) :=
  (tcpPipe kernel fuel).sum
    (CryptoPipe.pipeImpl (tcpPipe kernel fuel) cryptor deriveAeadSubkey loopFuel)

namespace AnyPipe

/-- A pipe holds bytes that `recv` would return without the operating system. -/
def Stocked : AnyPipe K C → Prop
  | .inl pipe => pipe.rcvbuf.content ≠ []
  | .inr pipe => pipe.decryptedData.isEmpty = false ∨ ¬pipe.Drained

instance (pipe : AnyPipe K C) : Decidable pipe.Stocked :=
  match pipe with
  | .inl pipe => inferInstanceAs (Decidable (pipe.rcvbuf.content ≠ []))
  | .inr pipe => inferInstanceAs (Decidable (pipe.decryptedData.isEmpty = false ∨ ¬pipe.Drained))

variable (kernel incoming fuel) in
/-- A read asks for as much as it gets; that of a `crypto_pipe` always does. -/
def Fits : AnyPipe K C → ℤ → Prop
  | .inl pipe, size => pipe.Fits kernel incoming fuel size
  | .inr _, _ => True

variable (cryptor) in
/-- What holds between the calls. -/
def Settled : AnyPipe K C → Prop
  | .inl pipe => pipe.WellFormed ∧ pipe.rcvbuf.content = []
  | .inr pipe => pipe.Settled cryptor

theorem Settled.recv (stream : kernel.Stream incoming accepted) {pipe : AnyPipe K C} {size : ℤ}
    (settled : Settled cryptor pipe) (fits : Fits kernel incoming fuel pipe size)
    (returns : ((anyPipe kernel cryptor deriveAeadSubkey fuel loopFuel).recv pipe size).1 ≠
      .blocked) :
    Settled cryptor ((anyPipe kernel cryptor deriveAeadSubkey fuel loopFuel).recv pipe size).2 := by
  cases pipe with
  | inl pipe =>
      have receives := TcpPipe.recv_receives stream fuel settled.1.rcvbuf size
      exact ⟨receives.wellFormed settled.1,
        TcpPipe.drained_of_receives receives returns fun _ _ => fits⟩
  | inr pipe => exact CryptoPipe.Settled.recv stream settled loopFuel size returns

theorem keeps_settled (stream : kernel.Stream incoming accepted) :
    KeepsFitting (anyPipe kernel cryptor deriveAeadSubkey fuel loopFuel)
      (Fits kernel incoming fuel) (Settled cryptor) where
  send pipe data settled := by
    cases pipe with
    | inl pipe =>
        have sends := TcpPipe.send_sends stream settled.1.outbuf data
        refine ⟨⟨sends.rcvbuf ▸ settled.1.rcvbuf, sends.outbuf⟩, ?_⟩
        rw [show ((tcpPipe kernel fuel).send pipe data).2.rcvbuf = pipe.rcvbuf from sends.rcvbuf]
        exact settled.2
    | inr pipe => exact CryptoPipe.Settled.send stream settled data
  recv pipe size bytes settled fits returned := settled.recv stream fits (by simp [returned])
  getWaitable pipe settled := by
    cases pipe with
    | inl pipe => exact settled
    | inr pipe =>
        have marked := CryptoPipe.Settled.marked settled fun w =>
          if pipe.decryptedData.isEmpty then w.clearReady readyPipe else w.makeReady readyPipe
        rwa [← CryptoPipe.getWaitable_eq kernel fuel] at marked
  setWaitable pipe w settled := by
    cases pipe with
    | inl pipe => exact ⟨⟨settled.1.rcvbuf, settled.1.outbuf⟩, settled.2⟩
    | inr pipe => exact CryptoPipe.Settled.marked settled fun _ => w

theorem ready_of_stocked {pipe : AnyPipe K C} (settled : Settled cryptor pipe)
    (stocked : Stocked pipe) {w : Waitable}
    (waits :
      ((anyPipe kernel cryptor deriveAeadSubkey fuel loopFuel).getWaitable pipe).1 = some w) :
    w.isReady = true := by
  cases pipe with
  | inl pipe => exact absurd settled.2 stocked
  | inr pipe =>
      have decrypted : pipe.decryptedData.isEmpty = false := by
        rcases stocked with decrypted | held
        · exact decrypted
        · exact absurd (CryptoPipe.Settled.drained settled) held
      rcases pipe with ⟨below, crypto, encryptedData, decryptedData, masterKey, keySize⟩
      cases below with
      | none => cases waits
      | some below =>
          rcases Option.some.inj waits with rfl
          simp only [show decryptedData.isEmpty = false from decrypted, Bool.false_eq_true,
            if_false]
          exact below.waitable.isReady_makeReady_readyPipe

variable (kernel cryptor deriveAeadSubkey fuel loopFuel) in
/-- The pipes that a handshake hands to a bridge, if its reads fit: new ones, whatever is sent
and received through them, and a `crypto_pipe` over one of them. -/
inductive Handshaken (fits : AnyPipe K C → ℤ → Prop) : AnyPipe K C → Prop where
  | tcp (socket : K) : Handshaken fits (.inl { socket })
  | crypto {pipe : TcpPipe K} (masterKey salt : List UInt8)
      (lasting : cryptor.Lasting ∨ salt = []) (below : Handshaken fits (.inl pipe)) :
      Handshaken fits (.inr (.create cryptor pipe deriveAeadSubkey masterKey salt))
  | send {pipe : AnyPipe K C} (data : Option (List UInt8)) (before : Handshaken fits pipe) :
      Handshaken fits
        ((anyPipe kernel cryptor deriveAeadSubkey fuel loopFuel).send pipe data).2
  | recv {pipe : AnyPipe K C} {size : ℤ} (before : Handshaken fits pipe) (fine : fits pipe size)
      (returns : ((anyPipe kernel cryptor deriveAeadSubkey fuel loopFuel).recv pipe size).1 ≠
        .blocked) :
      Handshaken fits
        ((anyPipe kernel cryptor deriveAeadSubkey fuel loopFuel).recv pipe size).2

theorem Handshaken.settled (stream : kernel.Stream incoming accepted) {pipe : AnyPipe K C}
    (handshaken : Handshaken kernel cryptor deriveAeadSubkey fuel loopFuel
      (Fits kernel incoming fuel) pipe) : Settled cryptor pipe := by
  induction handshaken with
  | tcp socket => exact ⟨TcpPipe.wellFormed_new socket, rfl⟩
  | crypto masterKey salt lasting below ih => exact CryptoPipe.settled_create ih.1 ih.2 lasting
  | send data before ih => exact (keeps_settled stream).send _ data ih
  | recv before fine returns ih => exact ih.recv stream fine returns

end AnyPipe

/-- No received byte is stranded: in a run of a bridge whose reads all ask for as much as
they get, a pipe that holds bytes is marked ready when its slot is registered, whichever
other slots are registered before and behind it. -/
theorem reported_of_stocked (stream : kernel.Stream incoming accepted)
    {first second : AnyPipe K C} {self : Bridged (AnyPipe K C)}
    (handshaken1 : AnyPipe.Handshaken kernel cryptor deriveAeadSubkey fuel loopFuel
      (AnyPipe.Fits kernel incoming fuel) first)
    (handshaken2 : AnyPipe.Handshaken kernel cryptor deriveAeadSubkey fuel loopFuel
      (AnyPipe.Fits kernel incoming fuel) second)
    (run : Bridged.Run (anyPipe kernel cryptor deriveAeadSubkey fuel loopFuel)
      (Bridged.ReadsFit (anyPipe kernel cryptor deriveAeadSubkey fuel loopFuel)
        (AnyPipe.Fits kernel incoming fuel)) { pipe1 := some first, pipe2 := some second } self)
    (before after : List (Bridged (AnyPipe K C)))
    (slots : before.length + after.length < maximumSlots)
    (registered : (self.prepareWait (anyPipe kernel cryptor deriveAeadSubkey fuel loopFuel)
      (Bridged.registerAll (anyPipe kernel cryptor deriveAeadSubkey fuel loopFuel) {}
        before)).1 = true) :
    let impl : PipeImpl (AnyPipe K C) := anyPipe kernel cryptor deriveAeadSubkey fuel loopFuel
    let prepared := self.prepareWait impl (Bridged.registerAll impl {} before)
    let waiting := Bridged.registerAll impl prepared.2.2 after
    (∀ pipe, self.pipe1 = some pipe → pipe.Stocked → Reported waiting prepared.2.1.mask1) ∧
      ∀ pipe, self.pipe2 = some pipe → pipe.Stocked → Reported waiting prepared.2.1.mask2 := by
  have keeps : KeepsFitting (anyPipe kernel cryptor deriveAeadSubkey fuel loopFuel)
      (AnyPipe.Fits kernel incoming fuel) (AnyPipe.Settled cryptor) := AnyPipe.keeps_settled stream
  have both : self.Both (AnyPipe.Settled cryptor) (AnyPipe.Settled cryptor) := by
    refine keeps.run keeps run ⟨?_, ?_⟩
    · rintro _ ⟨⟩
      exact handshaken1.settled stream
    · rintro _ ⟨⟩
      exact handshaken2.settled stream
  exact Bridged.reported_of_both both
    (fun _ _ settled stocked waits => AnyPipe.ready_of_stocked settled stocked waits) before after
    slots registered

/-- A `crypto_pipe` of which one byte of two has been read. -/
def readAhead : AnyPipe MemorySocket Unit :=
  ((anyPipe memorySocket noneCryptor (fun _ _ => []) 0 1).recv
    (.inr (.create noneCryptor { socket := { incoming := [[1, 2]] } } (fun _ _ => []) [] []))
    1).2

theorem handshaken_readAhead {fits : AnyPipe MemorySocket Unit → ℤ → Prop}
    (fine : ∀ pipe size, fits (.inr pipe) size) :
    AnyPipe.Handshaken memorySocket noneCryptor (fun _ _ => []) 0 1 fits readAhead :=
  .recv (.crypto [] [] (Or.inr rfl) (.tcp _)) (fine _ _) (by decide +kernel)

theorem reported_of_stocked_memory :
    Reported
      (Bridged.registerAll (anyPipe memorySocket noneCryptor (fun _ _ => []) 0 1)
        (({ pipe1 := some readAhead, pipe2 := some (.inl { socket := {} }) } :
          Bridged (AnyPipe MemorySocket Unit)).prepareWait
            (anyPipe memorySocket noneCryptor (fun _ _ => []) 0 1) {}).2.2 []) (bit 0) :=
  (reported_of_stocked stream_memorySocket (handshaken_readAhead fun _ _ => trivial) (.tcp {})
    .start [] [] (by decide) (by decide +kernel)).1 readAhead rfl (Or.inl (by decide +kernel))

/-- A pipe that has received two bytes. -/
def receivingPipe : AnyPipe MemorySocket Unit := .inl { socket := { incoming := [[1, 2]] } }

/-- A pipe whose socket does not take what it has been given to send. -/
def stuckPipe : AnyPipe MemorySocket Unit :=
  ((anyPipe memorySocket noneCryptor (fun _ _ => []) 0 1).send (.inl { socket := { room := 0 } })
    (some [7])).2

/-- A bridge between them, registered and read once: that is for one byte. -/
def strandedBridge : Bridged (AnyPipe MemorySocket Unit) :=
  let impl : PipeImpl (AnyPipe MemorySocket Unit) :=
    anyPipe memorySocket noneCryptor (fun _ _ => []) 0 1
  ((({ pipe1 := some receivingPipe, pipe2 := some stuckPipe } : Bridged _).prepareWait
    impl {}).2.1.process impl { readm := bit 0 }).2.1

/-- The other byte is in `rcvbuf`, and `wait` blocks. -/
theorem stranded_byte :
    let impl : PipeImpl (AnyPipe MemorySocket Unit) :=
      anyPipe memorySocket noneCryptor (fun _ _ => []) 0 1
    AnyPipe.Handshaken memorySocket noneCryptor (fun _ _ => []) 0 1 (fun _ _ => True)
        receivingPipe ∧
      AnyPipe.Handshaken memorySocket noneCryptor (fun _ _ => []) 0 1 (fun _ _ => True)
        stuckPipe ∧
      Bridged.Run impl (fun _ _ => True) { pipe1 := some receivingPipe, pipe2 := some stuckPipe }
        strandedBridge ∧
      (∃ pipe, strandedBridge.pipe1 = some pipe ∧ pipe.Stocked) ∧
      (strandedBridge.prepareWait impl {}).1 = true ∧
      ∀ sockets, ((strandedBridge.prepareWait impl {}).2.2.wait sockets).1 = true := by
  refine ⟨.tcp _, .send _ (.tcp _), .process (.prepareWait {} .start) trivial (by decide +kernel),
    ⟨strandedBridge.pipe1.get (by decide +kernel), (Option.some_get _).symm, ?_⟩,
    by decide +kernel, fun _ => rfl⟩
  decide +kernel

end Imconee.Handlers
