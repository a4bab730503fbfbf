import Imconee.Lib.Lockstep
import Imconee.Netkit.TcpPipe

/-!
# `tcp_pipe::send` as an output queue

What is sent either goes out at once or waits in `outbuf`, and nothing overtakes what waits.
The answer of a call and the `bufferfull` flag of the waitable say whether anything waits.
The socket takes as much of what it is offered as it likes, or nothing for now; an error of
another kind ends the pipe and is left out here.
-/

set_option autoImplicit false

namespace Imconee.Netkit

open Imconee.Lib Imconee.Tools

namespace TcpPipe

variable {K : Type} {kernel : Kernel K}

/-- The flag is set as long as something waits. -/
structure Flagged (pipe : TcpPipe K) : Prop where
  connected : pipe.connected = true
  outbuf : pipe.outbuf.WellFormed
  bufferfull : pipe.waitable.bufferfull = if pipe.outbuf.isEmpty then 0 else 1

theorem flagged_new (socket : K) : ({ socket } : TcpPipe K).Flagged :=
  ⟨rfl, ChunkBuffer.wellFormed_empty, rfl⟩

/-- A call that leaves the flag right and answers what it says. -/
structure Answers (call : SendRslt × TcpPipe K) : Prop where
  flagged : call.2.Flagged
  result : call.1 = if call.2.outbuf.isEmpty then .ok else .bufferfull

theorem Answers.waiting {pipe : TcpPipe K} (connected : pipe.connected = true)
    (outbuf : pipe.outbuf.WellFormed) (some : pipe.outbuf.content ≠ [])
    (bufferfull : pipe.waitable.bufferfull = 1) : Answers (.bufferfull, pipe) := by
  have waits : pipe.outbuf.isEmpty = false := by
    apply Bool.eq_false_iff.mpr
    intro empty
    exact some ((ChunkBuffer.isEmpty_iff outbuf).mp empty)
  refine ⟨⟨connected, outbuf, ?_⟩, ?_⟩
  · simpa [waits] using bufferfull
  · simp [waits]

theorem Answers.drained {pipe : TcpPipe K} (connected : pipe.connected = true)
    (outbuf : pipe.outbuf.WellFormed) (empty : pipe.outbuf.isEmpty = true)
    (bufferfull : pipe.waitable.bufferfull = 0) : Answers (.ok, pipe) := by
  refine ⟨⟨connected, outbuf, ?_⟩, ?_⟩
  · simpa [empty] using bufferfull
  · simp [empty]

variable {incoming accepted : K → List UInt8}

theorem sysSend_patient (patient : ∀ k bytes, (kernel.send k bytes).1 ≠ .error false)
    {self : TcpPipe K} (connected : self.connected = true) (bytes : List UInt8) :
    (self.sysSend kernel bytes).1 ≠ .error false := by
  rw [sysSend, if_pos connected]
  exact patient _ _

/-- While bytes are waiting the flag is set, until the last of them has gone out. -/
theorem sendPending_answers (stream : kernel.Stream incoming accepted)
    (patient : ∀ k bytes, (kernel.send k bytes).1 ≠ .error false) {self : TcpPipe K}
    (flagged : self.Flagged) (waiting : self.outbuf.isEmpty = false) (data : List UInt8) :
    Answers (self.sendPending kernel data) := by
  have full : self.waitable.bufferfull = 1 := by
    simpa [waiting] using flagged.bufferfull
  have some : self.outbuf.content ≠ [] := by
    intro nil
    rw [(ChunkBuffer.isEmpty_iff flagged.outbuf).mpr nil] at waiting
    cases waiting
  rcases queueing flagged.outbuf data with ⟨outbuf, queued, appended, content⟩
  have more : outbuf.content ≠ [] := by
    intro nil
    rw [content] at nil
    exact some (List.append_eq_nil_iff.mp nil).1
  have nonempty : outbuf.chain ≠ [] := by
    intro nil
    exact more (ChunkBuffer.content_of_nil nil)
  rcases ChunkBuffer.get1stChunk_spec appended with ⟨⟨rest, chunk⟩, -⟩
  simp only [sendPending, queued]
  split
  · rename_i notNow
    rcases sysSend_error stream notNow with ⟨socket, next, -⟩
    rw [next]
    exact Answers.waiting flagged.connected appended more full
  · rename_i failed
    apply absurd failed
    apply sysSend_patient patient
    exact flagged.connected
  · rename_i count sent
    rcases sysSend_accepted stream sent with ⟨socket, next, short, -⟩
    have inside : count ≤ outbuf.content.length := by
      rw [← chunk, List.length_append]
      exact Nat.le_trans short (Nat.le_add_right _ _)
    rcases ChunkBuffer.skip_spec appended nonempty inside with ⟨skipped, -⟩
    rw [next]
    dsimp only
    split
    · rename_i drained
      exact Answers.drained flagged.connected skipped drained rfl
    · rename_i rest
      refine Answers.waiting flagged.connected skipped ?_ full
      intro nil
      exact rest ((ChunkBuffer.isEmpty_iff skipped).mpr nil)

theorem sendDirect_answers (stream : kernel.Stream incoming accepted)
    (patient : ∀ k bytes, (kernel.send k bytes).1 ≠ .error false) {self : TcpPipe K}
    (flagged : self.Flagged) (empty : self.outbuf.isEmpty = true) (data : List UInt8) :
    Answers (self.sendDirect kernel data) := by
  have clear : self.waitable.bufferfull = 0 := by
    simpa [empty] using flagged.bufferfull
  have finish : ∀ (count : ℕ) (socket : K),
      Answers (if count < data.length then
          (SendRslt.bufferfull, ({ self with
            socket
            outbuf := self.outbuf.append (data.drop count)
            waitable := { self.waitable with bufferfull := 1 } } : TcpPipe K))
        else (.ok, { self with socket })) := by
    intro count socket
    split
    · rename_i short
      rcases ChunkBuffer.append_spec (by decide) flagged.outbuf (data.drop count) with
        ⟨appended, content⟩
      refine Answers.waiting flagged.connected appended ?_ rfl
      intro nil
      rw [content] at nil
      have gone := congrArg List.length (List.append_eq_nil_iff.mp nil).2
      rw [List.length_drop, List.length_nil] at gone
      omega
    · exact Answers.drained flagged.connected flagged.outbuf empty clear
  rw [sendDirect]
  split
  · exact Answers.drained flagged.connected flagged.outbuf empty clear
  · dsimp only
    split
    · rename_i failed
      exact absurd failed (sysSend_patient patient flagged.connected _)
    · rename_i notNow
      rcases sysSend_error stream notNow with ⟨socket, next, -⟩
      rw [next]
      exact finish 0 socket
    · rename_i count sent
      rcases sysSend_accepted stream sent with ⟨socket, next, -⟩
      rw [next]
      exact finish count socket

theorem send_answers (stream : kernel.Stream incoming accepted)
    (patient : ∀ k bytes, (kernel.send k bytes).1 ≠ .error false) {self : TcpPipe K}
    (flagged : self.Flagged) (data : Option (List UInt8)) : Answers (self.send kernel data) := by
  cases data with
  | none => exact ⟨flagged, rfl⟩
  | some data =>
      rw [send]
      split
      · rename_i empty
        exact sendDirect_answers stream patient flagged empty data
      · rename_i waiting
        apply sendPending_answers stream patient flagged _ data
        exact Bool.eq_false_iff.mpr waiting

/-- The length of the data is converted to `int`. -/
def FitsInt (data : Option (List UInt8)) : Prop :=
  (data.getD []).length < 2 ^ 31

/-- A new pipe, and all data passed in, after some calls of `send`. -/
def SendRun (kernel : Kernel K) (socket : K) : TcpPipe K → List UInt8 → Prop :=
  Lockstep (fun _ data => FitsInt data) (fun pipe data => (pipe.send kernel data).2)
    (fun passed data => passed ++ data.getD []) { socket } []

/-- A pipe that has kept all data, some of it waiting. -/
structure Outputs (accepted : K → List UInt8) (before : List UInt8) (pipe : TcpPipe K)
    (passed : List UInt8) : Prop where
  flagged : pipe.Flagged
  taken : pipe.taken accepted = before ++ passed

theorem Outputs.send (stream : kernel.Stream incoming accepted)
    (patient : ∀ k bytes, (kernel.send k bytes).1 ≠ .error false) {before passed : List UInt8}
    {pipe : TcpPipe K} (outputs : pipe.Outputs accepted before passed)
    (data : Option (List UInt8)) :
    (pipe.send kernel data).2.Outputs accepted before (passed ++ data.getD []) := by
  have answers := send_answers stream patient outputs.flagged data
  have sends := send_sends stream outputs.flagged.outbuf data
  refine ⟨answers.flagged, ?_⟩
  rw [sends.taken_of_sent, outputs.taken, List.append_assoc]
  rw [answers.result]
  split <;> simp

theorem Outputs.run (stream : kernel.Stream incoming accepted)
    (patient : ∀ k bytes, (kernel.send k bytes).1 ≠ .error false) {socket : K} {pipe : TcpPipe K}
    {passed : List UInt8} (run : SendRun kernel socket pipe passed) :
    pipe.Outputs accepted (accepted socket) passed := by
  apply Lockstep.related _ _ run
  · refine ⟨flagged_new socket, ?_⟩
    simp [TcpPipe.taken]
  · intro pipe passed data outputs short
    exact outputs.send stream patient data

end TcpPipe

theorem patient_memorySocket (k : MemorySocket) (bytes : List UInt8) :
    (memorySocket.send k bytes).1 ≠ .error false := by
  simp only [memorySocket]
  split <;> simp

/-- `tcp_pipe::send` is an output queue: the bytes the socket has accepted and those in
`outbuf` are all the data, in order; the flag and the answers say whether `outbuf` is empty;
and a query changes nothing. -/
theorem outputQueue_of_run {K : Type} {kernel : Kernel K} {incoming accepted : K → List UInt8}
    (stream : kernel.Stream incoming accepted)
    (patient : ∀ k bytes, (kernel.send k bytes).1 ≠ .error false) {socket : K} {pipe : TcpPipe K}
    {passed : List UInt8} (run : TcpPipe.SendRun kernel socket pipe passed) :
    accepted pipe.socket ++ pipe.outbuf.content = accepted socket ++ passed ∧
      (pipe.waitable.bufferfull = 1 ↔ pipe.outbuf.content ≠ []) ∧
      (∀ data, TcpPipe.FitsInt data → (pipe.send kernel data).1 =
        if (pipe.send kernel data).2.outbuf.content = [] then .ok else .bufferfull) ∧
      (pipe.send kernel none).2 = pipe := by
  have outputs := TcpPipe.Outputs.run stream patient run
  have empty := ChunkBuffer.isEmpty_iff outputs.flagged.outbuf
  refine ⟨outputs.taken, ?_, ?_, rfl⟩
  · rw [outputs.flagged.bufferfull, Ne, ← empty]
    split <;> simp [*]
  · intro data short
    have answers := TcpPipe.send_answers stream patient outputs.flagged data
    rw [answers.result]
    simp only [ChunkBuffer.isEmpty_iff answers.flagged.outbuf]

/-- Three bytes sent into a socket with room for two. -/
theorem outputQueue_of_run_room :
    ((({ socket := { room := 2 } } : TcpPipe MemorySocket).send memorySocket
      (some [1, 2, 3])).2.send memorySocket none).1 = .bufferfull := by
  have empty : TcpPipe.SendRun memorySocket { room := 2 } _ _ := Lockstep.start
  have sent := Lockstep.step empty (some [1, 2, 3]) (by decide : 3 < 2 ^ 31)
  have spec := outputQueue_of_run stream_memorySocket patient_memorySocket sent
  rw [spec.2.2.1 none (by decide : 0 < 2 ^ 31), spec.2.2.2]
  decide

end Imconee.Netkit
