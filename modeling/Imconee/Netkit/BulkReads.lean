import Imconee.Netkit.Arrival

/-!
# Reads of whatever there is

`recv` with a positive size looks at the socket first, unless `rcvbuf` holds so much already.
At the end of the stream that look closes the pipe, and what `rcvbuf` still holds is lost.
-/

set_option autoImplicit false

namespace Imconee.Netkit

open Tools

/-- What happens to a pipe: a waiter finds its socket readable, or it is read. -/
inductive BulkEvent where
  | readable
  | read (size : ℕ)

namespace TcpPipe

/-- `make_ready(get_waitable(), READY_SYSTEM)` -/
def marked {K : Type} (self : TcpPipe K) : TcpPipe K :=
  { self with waitable := self.waitable.makeReady readySystem }

/-- The bytes returned before the first call that fails, and whether there is one. -/
def bulkReads : TcpPipe Arriving → List BulkEvent → List UInt8 × Bool
  | _, [] => ([], false)
  | self, .readable :: events => bulkReads self.marked events
  | self, .read size :: events =>
      let call := self.recv arriving 0 size
      match call.1 with
      | .data bytes =>
          let rest := bulkReads call.2 events
          (bytes ++ rest.1, rest.2)
      | _ => ([], true)

/-- `rcv_all` finds the end of the stream: there is room, the bit is set, and neither
`FIONREAD` nor `::recv` meets another byte. -/
def EndsNow (self : TcpPipe Arriving) : Prop :=
  self.waitable.isReady = true ∧ 1300 < self.rcvbuf.getFreeSize ∧ self.socket.tick.here = [] ∧
    self.socket.tick.tick.here = [] ∧ self.socket.tick.tick.coming = []

/-- A call for `size` bytes looks at the socket, finds the end, and `rcvbuf` is not empty. -/
def Loses (self : TcpPipe Arriving) (size : ℕ) : Prop :=
  0 < self.rcvbuf.datasize ∧ self.rcvbuf.datasize < size ∧ self.EndsNow

/-- No call up to the first that fails finds the end of the stream while `rcvbuf` is not
empty. -/
def Spares : TcpPipe Arriving → List BulkEvent → Prop
  | _, [] => True
  | self, .readable :: events => Spares self.marked events
  | self, .read size :: events =>
      let call := self.recv arriving 0 size
      ¬self.Loses size ∧ (call.1 ≠ .failed → Spares call.2 events)

variable {self next : TcpPipe Arriving}

/-- A pipe on which no call has failed. -/
structure Open (pipe : TcpPipe Arriving) : Prop where
  connected : pipe.connected = true
  wellFormed : pipe.rcvbuf.WellFormed
  calm : pipe.Calm

theorem Open.marked (isOpen : self.Open) : self.marked.Open where
  connected := isOpen.connected
  wellFormed := isOpen.wellFormed
  calm := by
    right
    dsimp only [TcpPipe.marked, Waitable.makeReady]
    rcases isOpen.calm with none | system
    · rw [none]
      rfl
    · rw [system]
      rfl

theorem getFreeSize_of_isFull {size : ℕ} {buffer : CircularBuffer size}
    (full : buffer.isFull = true) : buffer.getFreeSize = 0 := by
  simp only [CircularBuffer.isFull, Bool.or_eq_true, Bool.and_eq_true, decide_eq_true_eq] at full
  rw [CircularBuffer.getFreeSize]
  split <;> omega

/-- `rcv_all` fails exactly where it finds the end of the stream. -/
theorem Open.rcvAll_failed_iff (isOpen : self.Open) :
    (self.rcvAll arriving).1 = false ↔ self.EndsNow := by
  rw [rcvAll]
  split
  · rename_i full
    refine iff_of_false (by simp) fun ends => ?_
    rw [EndsNow, getFreeSize_of_isFull full] at ends
    omega
  · rw [show 49153 = 49152 + 1 from rfl,
      rcvAllLoop_arriving 49152 isOpen.connected isOpen.wellFormed]
    have first : self.socket.tick.tick.here = [] → self.socket.tick.here = [] := fun nothing =>
      (List.append_eq_nil_iff.mp nothing).1
    by_cases reads : (self.socket.tick.here ≠ [] ∨ self.waitable.isReady = true) ∧
        1300 < self.rcvbuf.getFreeSize
    · rw [if_pos reads]
      by_cases nothing : self.socket.tick.tick.here = []
      · rw [if_pos nothing]
        by_cases ended : self.socket.tick.tick.coming = []
        · rw [if_pos ended]
          refine iff_of_true rfl ⟨reads.1.resolve_left ?_, reads.2, first nothing, nothing, ended⟩
          exact not_not.mpr (first nothing)
        · rw [if_neg ended]
          exact iff_of_false (by simp) fun ends => ended ends.2.2.2.2
      · rw [if_neg nothing]
        refine iff_of_false (fun failed => ?_) fun ends => nothing ends.2.2.2.1
        -- a round that has received bytes has cleared the bit
        rcases received_moved isOpen.connected isOpen.wellFormed nothing reads.2 with
          ⟨bytes, nonempty, moved⟩
        have none := @ready_received self isOpen.calm
        split at failed
        · cases failed
        · have some := List.length_pos_iff.mpr nonempty
          have content := congrArg List.length moved.content
          rw [List.length_append, List.nil_append] at content
          have atEnd := @rcvAllLoop_drained self.received 49152
            (moved.connected.trans isOpen.connected) moved.wellFormed (Or.inl none) (by omega)
          rw [failed, if_neg (by simp)] at atEnd
          have ready := atEnd.2
          rw [isReady_of_ready none] at ready
          cases ready
    · rw [if_neg reads]
      exact iff_of_false (by simp) fun ends => reads ⟨Or.inr ends.1, ends.2.1⟩

theorem Open.rcvAll (isOpen : self.Open) (fine : (self.rcvAll arriving).1 = true) :
    (self.rcvAll arriving).2.Open ∧
      self.stream Arriving.incoming = (self.rcvAll arriving).2.stream Arriving.incoming := by
  have drains := rcvAll_drains stream_arriving isOpen.wellFormed
  rw [Drains, if_pos fine] at drains
  rcases drains with ⟨bytes, moved⟩
  refine ⟨⟨moved.connected.trans isOpen.connected, moved.wellFormed, ?_⟩, moved.stream⟩
  rw [TcpPipe.rcvAll] at fine ⊢
  split
  · exact isOpen.calm
  · rename_i room
    rw [if_neg room] at fine
    have drained := @rcvAllLoop_drained self 49153 isOpen.connected isOpen.wellFormed isOpen.calm
      (by omega)
    rw [if_pos fine] at drained
    exact drained.calm

theorem Open.takeOut (isOpen : self.Open) (size : ℕ) :
    ∃ out next, self.takeOut size = (.data out, next) ∧ next.Open ∧
      self.stream Arriving.incoming = out ++ next.stream Arriving.incoming := by
  rw [TcpPipe.takeOut]
  split
  · have moved : Moved Arriving.incoming Arriving.outgoing self _ [] _ :=
      .peek isOpen.wellFormed size
    exact ⟨_, _, rfl, ⟨isOpen.connected, moved.wellFormed, isOpen.calm⟩, moved.stream⟩
  · exact ⟨[], self, rfl, isOpen, rfl⟩

/-- A call fails exactly where it looks at the socket and finds the end; otherwise it returns
the next bytes of the stream. -/
theorem Open.recv (isOpen : self.Open) (size : ℕ) :
    (self.rcvbuf.datasize < size ∧ self.EndsNow ∧ (self.recv arriving 0 size).1 = .failed) ∨
      ¬(self.rcvbuf.datasize < size ∧ self.EndsNow) ∧
        ∃ out next, self.recv arriving 0 size = (.data out, next) ∧ next.Open ∧
          self.stream Arriving.incoming = out ++ next.stream Arriving.incoming := by
  rw [recv_eq_takeOut]
  have fails := isOpen.rcvAll_failed_iff
  by_cases more : self.rcvbuf.datasize < size
  · rw [if_pos more]
    cases fine : (self.rcvAll arriving).1 with
    | false => exact Or.inl ⟨more, fails.mp fine, rfl⟩
    | true =>
        rcases isOpen.rcvAll fine with ⟨between, same⟩
        rcases between.takeOut size with ⟨out, next, taken, isOpen', stream⟩
        refine Or.inr ⟨fun both => ?_, out, next, by simpa using taken, isOpen', same.trans stream⟩
        rw [fails.mpr both.2] at fine
        cases fine
  · rw [if_neg more]
    exact Or.inr ⟨fun both => more both.1, isOpen.takeOut size⟩

/-- What is left of the stream where a call fails is what `rcvbuf` holds. -/
theorem EndsNow.stream (ends : self.EndsNow) :
    self.stream Arriving.incoming = self.rcvbuf.content := by
  have nothing : self.socket.incoming = [] := by
    rw [← self.socket.incoming_tick, ← self.socket.tick.incoming_tick, Arriving.incoming,
      ends.2.2.2.1, ends.2.2.2.2]
    rfl
  rw [TcpPipe.stream, nothing, ite_self, List.append_nil]

/-- Before the first call that fails all bytes have been returned, exactly if that call does not
find `rcvbuf` filled. -/
theorem Open.bulkReads (isOpen : self.Open) (events : List BulkEvent) :
    ((self.bulkReads events).2 = true →
      (self.bulkReads events).1 = self.stream Arriving.incoming) ↔ self.Spares events := by
  induction events generalizing self with
  | nil => exact iff_of_true nofun trivial
  | cons event events ih =>
      cases event with
      | readable => exact ih isOpen.marked
      | read size =>
          rw [TcpPipe.bulkReads, Spares]
          rcases isOpen.recv size with
            ⟨more, ends, failed⟩ | ⟨goesOn, out, next, answered, isOpen', stream⟩
          · simp only [failed, forall_const, ne_eq, not_true_eq_false, false_implies, and_true]
            rw [ends.stream, Loses, CircularBuffer.datasize_eq]
            rw [CircularBuffer.datasize_eq] at more
            constructor
            · rintro nothing ⟨some, -⟩
              rw [← nothing] at some
              exact absurd some (Nat.lt_irrefl 0)
            · intro spared
              by_contra some
              exact spared ⟨List.length_pos_iff.mpr (Ne.symm some), more, ends⟩
          · have spared : ¬self.Loses size := fun loses => goesOn loses.2
            simp only [answered, stream, List.append_cancel_left_eq]
            rw [ih isOpen']
            exact ⟨fun spares => ⟨spared, fun _ => spares⟩, fun both => both.2 nofun⟩

end TcpPipe

/-- On a new socket. -/
theorem bulkReads_iff (socket : Arriving) (events : List BulkEvent) :
    ((({ socket } : TcpPipe Arriving).bulkReads events).2 = true →
      (({ socket } : TcpPipe Arriving).bulkReads events).1 = socket.incoming) ↔
      ({ socket } : TcpPipe Arriving).Spares events := by
  have isOpen : ({ socket } : TcpPipe Arriving).Open :=
    ⟨rfl, CircularBuffer.wellFormed_empty (by decide), Or.inl rfl⟩
  exact isOpen.bulkReads events

/-- One byte of two is read, the end of the stream makes the socket readable, and the other byte
is lost. -/
theorem not_bulkReads_small :
    ¬((({ socket := { here := [1, 2] } } : TcpPipe Arriving).bulkReads
        [.read 1, .readable, .read 2]).2 = true →
      (({ socket := { here := [1, 2] } } : TcpPipe Arriving).bulkReads
        [.read 1, .readable, .read 2]).1 = [1, 2]) := by
  decide +kernel

end Imconee.Netkit
