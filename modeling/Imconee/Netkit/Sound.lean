import Imconee.Netkit.TcpPipe

/-!
# What a socket has said

A socket says that it is over by a `FIONREAD` that fails, by a `::recv` of no bytes or by one
that fails, and that it takes nothing more by a `::send` that fails. As long as it has said
neither, the pipe over it stays open, and each call of the pipe tells its caller when it does.
-/

set_option autoImplicit false

namespace Imconee.Netkit

variable {K : Type} {kernel : Kernel K} {ended refused : K → Prop}

/-- Two predicates of the socket that remember what its answers have said: `ended`, that the
stream is over or broken, and `refused`, that a send has failed. -/
structure Kernel.Tells (kernel : Kernel K) (ended refused : K → Prop) : Prop where
  fionread : ∀ k, (ended (kernel.fionread k).2 ↔ ended k ∨ (kernel.fionread k).1 = none) ∧
    (refused (kernel.fionread k).2 ↔ refused k)
  recv : ∀ k size, (ended (kernel.recv k size).2 ↔
      ended k ∨ (kernel.recv k size).1 = .bytes [] ∨ (kernel.recv k size).1 = .error false) ∧
    (refused (kernel.recv k size).2 ↔ refused k)
  send : ∀ k bytes, (ended (kernel.send k bytes).2 ↔ ended k) ∧
    (refused (kernel.send k bytes).2 ↔ refused k ∨ (kernel.send k bytes).1 = .error false)
  poll : ∀ k, (ended (kernel.poll k).2 ↔ ended k) ∧ (refused (kernel.poll k).2 ↔ refused k)

/-- A socket with what it has said so far. -/
structure Watched (K : Type) where
  socket : K
  ended : Bool := false
  refused : Bool := false

/-- The calls of a kernel, with a record of what they say. -/
def Kernel.watched (kernel : Kernel K) : Kernel (Watched K) where
  fionread k :=
    let call := kernel.fionread k.socket
    (call.1, { k with socket := call.2, ended := k.ended || call.1.isNone })
  recv k size :=
    let call := kernel.recv k.socket size
    (call.1, { k with
      socket := call.2
      ended := k.ended || call.1 = .bytes [] || call.1 = .error false })
  send k bytes :=
    let call := kernel.send k.socket bytes
    (call.1, { k with socket := call.2, refused := k.refused || call.1 = .error false })
  poll k :=
    let call := kernel.poll k.socket
    (call.1, { k with socket := call.2 })

/-- Every kernel can be watched. -/
theorem tells_watched (kernel : Kernel K) :
    kernel.watched.Tells (fun k => k.ended = true) (fun k => k.refused = true) where
  fionread k := by simp [Kernel.watched]
  recv k size := by simp [Kernel.watched, or_assoc]
  send k bytes := by simp [Kernel.watched]
  poll k := by simp [Kernel.watched]

/-- To be watched changes nothing about what a socket hands over and takes. -/
theorem Kernel.Stream.watched {incoming accepted : K → List UInt8}
    (stream : kernel.Stream incoming accepted) :
    kernel.watched.Stream (fun k => incoming k.socket) (fun k => accepted k.socket) where
  fionread k := stream.fionread k.socket
  poll k := stream.poll k.socket
  recv_bytes {k next size bytes} received := by
    rcases Prod.mk.inj received with ⟨answer, rfl⟩
    exact stream.recv_bytes (Prod.ext answer rfl)
  recv_error {k next size notNow} received := by
    rcases Prod.mk.inj received with ⟨answer, rfl⟩
    exact stream.recv_error (Prod.ext answer rfl)
  send_accepted {k next bytes count} sent := by
    rcases Prod.mk.inj sent with ⟨answer, rfl⟩
    exact stream.send_accepted (Prod.ext answer rfl)
  send_error {k next bytes notNow} sent := by
    rcases Prod.mk.inj sent with ⟨answer, rfl⟩
    exact stream.send_error (Prod.ext answer rfl)

namespace TcpPipe

variable (ended refused) in
/-- An open pipe whose socket has said neither. -/
structure Sound (pipe : TcpPipe K) : Prop where
  connected : pipe.connected = true
  ended : ¬ ended pipe.socket
  refused : ¬ refused pipe.socket

theorem sysFionread_sound (tells : kernel.Tells ended refused) {self : TcpPipe K}
    (sound : self.Sound ended refused) :
    ((self.sysFionread kernel).1 = none → ended (self.sysFionread kernel).2.socket) ∧
      ∀ {rb}, (self.sysFionread kernel).1 = some rb →
        (self.sysFionread kernel).2.Sound ended refused := by
  simp only [sysFionread, sound.connected, if_true]
  rcases tells.fionread self.socket with ⟨ends, same⟩
  constructor
  · intro failed
    exact ends.mpr (Or.inr failed)
  · intro rb answered
    refine ⟨rfl, ?_, ?_⟩
    · simp [ends, sound.ended, answered]
    · exact fun refused => sound.refused (same.mp refused)

theorem sysRecv_sound (tells : kernel.Tells ended refused) {self : TcpPipe K}
    (sound : self.Sound ended refused) (size : ℕ) :
    ((self.sysRecv kernel size).1 = .bytes [] ∨ (self.sysRecv kernel size).1 = .error false →
        ended (self.sysRecv kernel size).2.socket) ∧
      ((self.sysRecv kernel size).1 ≠ .bytes [] → (self.sysRecv kernel size).1 ≠ .error false →
        (self.sysRecv kernel size).2.Sound ended refused) := by
  simp only [sysRecv, sound.connected, if_true]
  rcases tells.recv self.socket size with ⟨ends, same⟩
  constructor
  · intro answer
    exact ends.mpr (Or.inr answer)
  · intro some fine
    refine ⟨rfl, ?_, ?_⟩
    · simp [ends, sound.ended, some, fine]
    · exact fun refused => sound.refused (same.mp refused)

theorem sysSend_sound (tells : kernel.Tells ended refused) {self : TcpPipe K}
    (sound : self.Sound ended refused) (bytes : List UInt8) :
    ((self.sysSend kernel bytes).1 = .error false →
        refused (self.sysSend kernel bytes).2.socket) ∧
      ((self.sysSend kernel bytes).1 ≠ .error false →
        (self.sysSend kernel bytes).2.Sound ended refused) := by
  simp only [sysSend, sound.connected, if_true]
  rcases tells.send self.socket bytes with ⟨same, fails⟩
  constructor
  · intro failed
    exact fails.mpr (Or.inr failed)
  · intro fine
    refine ⟨rfl, ?_, ?_⟩
    · exact fun ended => sound.ended (same.mp ended)
    · simp [fails, sound.refused, fine]

/-- `rcv_all` fails just when the socket says in it that it is over. -/
theorem rcvAllLoop_sound (tells : kernel.Tells ended refused) (fuel : ℕ) {self : TcpPipe K}
    (sound : self.Sound ended refused) :
    if (rcvAllLoop kernel fuel self).1 then (rcvAllLoop kernel fuel self).2.Sound ended refused
    else ended (rcvAllLoop kernel fuel self).2.socket := by
  induction fuel generalizing self with
  | zero => exact sound
  | succ fuel ih =>
      rcases sysFionread_sound tells sound with ⟨broken, answers⟩
      simp only [rcvAllLoop]
      split
      · rename_i none
        exact broken none
      · rename_i available answer
        have looked := answers answer
        generalize (if (available = 0 && _) = true then 1 else available) = rb
        split
        · rcases sysRecv_sound tells looked (min _ 16384) with ⟨ends, goesOn⟩
          split
          · rename_i received
            exact goesOn (by simp [received]) (by simp [received])
          · rename_i received
            exact ends (Or.inr received)
          · rename_i received
            exact ends (Or.inl received)
          · rename_i byte rest received
            have fine := goesOn (by simp [received]) (by simp [received])
            have received : ((sysRecv kernel _ _).2.receive (byte :: rest)).Sound ended refused :=
              ⟨fine.connected, fine.ended, fine.refused⟩
            split
            · exact received
            · exact ih received
        · exact looked

/-- A read of what is there fails just when the socket says in it that it is over. -/
theorem recv_sound (tells : kernel.Tells ended refused) (fuel : ℕ) {self : TcpPipe K}
    (sound : self.Sound ended refused) {size : ℤ} (any : 0 ≤ size) :
    (∃ bytes, (self.recv kernel fuel size).1 = .data bytes ∧
      (self.recv kernel fuel size).2.Sound ended refused) ∨
    ((self.recv kernel fuel size).1 = .failed ∧
      ended (self.recv kernel fuel size).2.socket) := by
  have filled : if (if (self.rcvbuf.datasize : ℤ) < size then self.rcvAll kernel
      else (true, self)).1 then
        (if (self.rcvbuf.datasize : ℤ) < size then self.rcvAll kernel
          else (true, self)).2.Sound ended refused
      else ended (if (self.rcvbuf.datasize : ℤ) < size then self.rcvAll kernel
        else (true, self)).2.socket := by
    split
    · rw [rcvAll]
      split
      · exact sound
      · exact rcvAllLoop_sound tells _ sound
    · exact sound
  simp only [recv, if_neg (show ¬ size < 0 by omega)]
  generalize (if (self.rcvbuf.datasize : ℤ) < size then self.rcvAll kernel
    else (true, self)) = received at filled ⊢
  rcases received with ⟨fine, between⟩
  cases fine with
  | true =>
      have still : between.Sound ended refused := filled
      left
      simp only [if_true]
      split
      · exact ⟨_, rfl, still.connected, still.ended, still.refused⟩
      · exact ⟨_, rfl, still⟩
  | false => exact Or.inr ⟨rfl, filled⟩

/-- A send fails just when the socket refuses one in it. -/
theorem send_sound (tells : kernel.Tells ended refused) {self : TcpPipe K}
    (sound : self.Sound ended refused) (data : Option (List UInt8)) :
    ((self.send kernel data).1 = .ok ∨ (self.send kernel data).1 = .bufferfull) ∧
      (self.send kernel data).2.Sound ended refused ∨
    (self.send kernel data).1 = .fail ∧ refused (self.send kernel data).2.socket := by
  cases data with
  | none =>
      refine Or.inl ⟨?_, sound⟩
      simp only [send]
      split
      · exact Or.inl rfl
      · exact Or.inr rfl
  | some data =>
      simp only [send]
      split
      · rw [sendDirect]
        split
        · exact Or.inl ⟨Or.inl rfl, sound⟩
        · rcases sysSend_sound tells sound data with ⟨fails, goesOn⟩
          have finish : ∀ count, (self.sysSend kernel data).1 ≠ .error false →
              let next := if count < data.length then
                  (SendRslt.bufferfull, ({ (self.sysSend kernel data).2 with
                    outbuf := (self.sysSend kernel data).2.outbuf.append (data.drop count)
                    waitable := { (self.sysSend kernel data).2.waitable with bufferfull := 1 } }
                      : TcpPipe K))
                else (.ok, (self.sysSend kernel data).2)
              (next.1 = .ok ∨ next.1 = .bufferfull) ∧ next.2.Sound ended refused := by
            intro count fine
            rcases goesOn fine with ⟨connected, ended, refused⟩
            split
            · exact ⟨Or.inr rfl, connected, ended, refused⟩
            · exact ⟨Or.inl rfl, connected, ended, refused⟩
          simp only
          split
          · rename_i failed
            exact Or.inr ⟨rfl, fails failed⟩
          · rename_i notNow
            exact Or.inl (finish 0 (by simp [notNow]))
          · rename_i count sent
            exact Or.inl (finish count (by simp [sent]))
      · rw [sendPending]
        have queued : (if 0 < data.length then { self with outbuf := self.outbuf.append data }
            else self : TcpPipe K).Sound ended refused := by
          split
          · exact ⟨sound.connected, sound.ended, sound.refused⟩
          · exact sound
        generalize (if 0 < data.length then { self with outbuf := self.outbuf.append data }
          else self : TcpPipe K) = waiting at queued ⊢
        rcases sysSend_sound tells queued waiting.outbuf.get1stChunk with ⟨fails, goesOn⟩
        simp only
        split
        · rename_i notNow
          exact Or.inl ⟨Or.inr rfl, goesOn (by simp [notNow])⟩
        · rename_i failed
          exact Or.inr ⟨rfl, fails failed⟩
        · rename_i count sent
          rcases goesOn (by simp [sent]) with ⟨connected, ended, refused⟩
          split
          · exact Or.inl ⟨Or.inl rfl, connected, ended, refused⟩
          · exact Or.inl ⟨Or.inr rfl, connected, ended, refused⟩

end TcpPipe

end Imconee.Netkit
