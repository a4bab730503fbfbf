import Imconee.Netkit.Conversation

/-!
# Bytes that arrive in pieces

A socket on which the bytes of a stream arrive in pieces and at times of any choice: before
each call some more may have come, and behind the last piece the stream ends. Over such a
socket a `tcp_pipe` hands over exactly what an exact read asks for, however the stream is cut.
-/

set_option autoImplicit false

namespace Imconee.Netkit

open Lib

/-- What has arrived, and what arrives before each of the next calls. -/
structure Arriving where
  here : List UInt8 := []
  coming : List (List UInt8) := []
  outgoing : List UInt8 := []

namespace Arriving

/-- The next piece arrives. -/
def tick (k : Arriving) : Arriving :=
  { k with here := k.here ++ k.coming.headD [], coming := k.coming.tail }

def incoming (k : Arriving) : List UInt8 := k.here ++ k.coming.flatten

@[simp]
theorem incoming_tick (k : Arriving) : k.tick.incoming = k.incoming := by
  rcases k with ⟨here, coming, outgoing⟩
  cases coming <;> simp [tick, incoming]

theorem length_coming_tick (k : Arriving) : k.tick.coming.length = k.coming.length - 1 :=
  List.length_tail

end Arriving

/-- The calls on such a socket. What goes out is taken at once. -/
def arriving : Kernel Arriving where
  fionread k := (some k.tick.here.length, k.tick)
  recv k size :=
    let k := k.tick
    if k.here = [] then (if k.coming = [] then .bytes [] else .error true, k)
    else (.bytes (k.here.take size), { k with here := k.here.drop size })
  send k bytes := (.accepted bytes.length, { k with outgoing := k.outgoing ++ bytes })
  poll k := (k.tick.here ≠ [] ∨ k.tick.coming = [], k.tick)

theorem recv_arriving_nil {k : Arriving} (nothing : k.tick.here = []) (size : ℕ) :
    arriving.recv k size = (if k.tick.coming = [] then .bytes [] else .error true, k.tick) :=
  if_pos nothing

theorem recv_arriving {k : Arriving} (some : k.tick.here ≠ []) (size : ℕ) :
    arriving.recv k size =
      (.bytes (k.tick.here.take size), { k.tick with here := k.tick.here.drop size }) :=
  if_neg some

theorem stream_arriving : arriving.Stream Arriving.incoming Arriving.outgoing where
  fionread k := ⟨k.incoming_tick, rfl⟩
  poll k := ⟨k.incoming_tick, rfl⟩
  recv_bytes {k next size bytes} received := by
    simp only [arriving] at received
    split at received
    · rename_i nothing
      split at received
      · rename_i ended
        cases received
        rw [List.nil_append]
        exact ⟨Nat.zero_le _, k.incoming_tick.symm, rfl⟩
      · cases received
    · cases received
      refine ⟨by rw [List.length_take]; omega, ?_, rfl⟩
      rw [← k.incoming_tick, Arriving.incoming, Arriving.incoming, ← List.append_assoc,
        List.take_append_drop]
  recv_error {k next size notNow} received := by
    simp only [arriving] at received
    split at received
    · cases (Prod.mk.inj received).2
      exact ⟨k.incoming_tick, rfl⟩
    · cases received
  send_accepted {k next bytes count} sent := by
    cases sent
    rw [List.take_length]
    exact ⟨Nat.le_refl _, rfl, rfl⟩
  send_error {k next bytes notNow} sent := by cases sent

theorem getFreeSize_add {size : ℕ} {buffer : Tools.CircularBuffer size}
    (wellFormed : buffer.WellFormed) : size ≤ buffer.content.length + buffer.getFreeSize + 1 := by
  have start_lt := wellFormed.start_lt
  have stop_le := wellFormed.stop_le
  rw [← Tools.CircularBuffer.datasize_eq, Tools.CircularBuffer.datasize,
    Tools.CircularBuffer.getFreeSize]
  split <;> omega

namespace TcpPipe

variable {self : TcpPipe Arriving}

/-- The bits of the waitable are those of the socket. -/
def Calm (self : TcpPipe Arriving) : Prop :=
  self.waitable.ready = 0 ∨ self.waitable.ready = readySystem

/-- The stream has ended, and the pipe has been told that there is something to read. -/
def AtEnd (self : TcpPipe Arriving) : Prop :=
  self.socket.incoming = [] ∧ self.waitable.isReady = true

/-- What `rcv_all` makes of a pipe on which it does not fail: the pieces go by, and at the end
of the stream it takes all there is, as far as there is room. -/
structure Drained (before next : TcpPipe Arriving) : Prop where
  connected : next.connected = true
  calm : next.Calm
  goesBy : next.socket.coming.length ≤ before.socket.coming.length - 1
  dry : before.socket.coming = [] →
    next.socket.incoming = [] ∨ 47851 ≤ next.rcvbuf.content.length

theorem Drained.after {before between next : TcpPipe Arriving} (drained : Drained between next)
    (goesBy : between.socket.coming.length ≤ before.socket.coming.length) :
    Drained before next where
  connected := drained.connected
  calm := drained.calm
  goesBy := by
    have less := drained.goesBy
    omega
  dry none := by
    apply drained.dry
    rw [none] at goesBy
    exact List.length_eq_zero_iff.mp (Nat.le_zero.mp goesBy)

/-- What a round of `rcv_all` leaves of the pipe if it has received bytes. -/
def received (self : TcpPipe Arriving) : TcpPipe Arriving :=
  let count := min self.rcvbuf.get1stFree.2 16384
  let k := self.socket.tick.tick
  { self with socket := { k with here := k.here.drop count } }.receive (k.here.take count)

theorem sysRecv_tick (connected : self.connected = true) (size : ℕ) :
    ({ self with socket := self.socket.tick } : TcpPipe Arriving).sysRecv arriving size =
      ((arriving.recv self.socket.tick size).1,
        { self with socket := (arriving.recv self.socket.tick size).2 }) := by
  rw [sysRecv, if_pos connected]

theorem take_ne_nil (wellFormed : self.rcvbuf.WellFormed)
    (some : self.socket.tick.tick.here ≠ []) (room : 1300 < self.rcvbuf.getFreeSize) :
    self.socket.tick.tick.here.take (min self.rcvbuf.get1stFree.2 16384) ≠ [] := by
  have free := Tools.CircularBuffer.get1stFree_pos wellFormed (by omega)
  intro nil
  rcases List.take_eq_nil_iff.mp nil with none | none
  · omega
  · exact some none

theorem rcvAllLoop_arriving (fuel : ℕ) (connected : self.connected = true)
    (wellFormed : self.rcvbuf.WellFormed) :
    rcvAllLoop arriving (fuel + 1) self =
      if (self.socket.tick.here ≠ [] ∨ self.waitable.isReady = true) ∧
          1300 < self.rcvbuf.getFreeSize then
        if self.socket.tick.tick.here = [] then
          if self.socket.tick.tick.coming = [] then
            (false, { self with socket := self.socket.tick.tick }.close)
          else (true, { self with socket := self.socket.tick.tick })
        else if self.received.rcvbuf.getFreeSize < 1300 then (true, self.received)
        else rcvAllLoop arriving fuel self.received
      else (true, { self with socket := self.socket.tick }) := by
  have looked : self.sysFionread arriving =
      (some self.socket.tick.here.length, { self with socket := self.socket.tick }) := by
    rw [sysFionread, if_pos connected]
    rfl
  have asks : (if (self.socket.tick.here.length = 0 && self.waitable.isReady) = true then 1
      else self.socket.tick.here.length) ≠ 0 ↔
      self.socket.tick.here ≠ [] ∨ self.waitable.isReady = true := by
    cases here : self.socket.tick.here <;> cases ready : self.waitable.isReady <;> simp
  rw [rcvAllLoop, looked]
  dsimp only
  generalize (if (self.socket.tick.here.length = 0 && self.waitable.isReady) = true then 1
    else self.socket.tick.here.length) = rb at asks ⊢
  simp only [Bool.and_eq_true, decide_eq_true_eq, Nat.pos_iff_ne_zero, asks]
  split
  · rename_i reads
    rw [sysRecv_tick connected]
    by_cases nothing : self.socket.tick.tick.here = []
    · rw [recv_arriving_nil nothing, if_pos nothing]
      by_cases ended : self.socket.tick.tick.coming = []
      · rw [if_pos ended, if_pos ended]
      · rw [if_neg ended, if_neg ended]
    · rcases List.exists_cons_of_ne_nil (take_ne_nil wellFormed nothing reads.2) with
        ⟨byte, rest, taken⟩
      rw [recv_arriving nothing, if_neg nothing, received]
      dsimp only
      rw [taken]
  · rfl

/-- What is received in a round goes behind the content of `rcvbuf`. -/
theorem received_moved (connected : self.connected = true) (wellFormed : self.rcvbuf.WellFormed)
    (some : self.socket.tick.tick.here ≠ []) (room : 1300 < self.rcvbuf.getFreeSize) :
    ∃ bytes, bytes ≠ [] ∧
      Moved Arriving.incoming Arriving.outgoing self self.received bytes [] := by
  refine ⟨_, take_ne_nil wellFormed some room, ?_⟩
  have looked : Moved Arriving.incoming Arriving.outgoing self
      { self with socket := self.socket.tick } [] [] :=
    ⟨List.append_nil _, self.socket.incoming_tick.symm, rfl, rfl, by simp, rfl, wellFormed⟩
  have called := @sysRecv_tick self connected (min self.rcvbuf.get1stFree.2 16384)
  rw [recv_arriving some] at called
  have moved := receive_moved stream_arriving looked.wellFormed (Nat.min_le_left _ 16384)
    (congrArg Prod.fst called)
  rw [called] at moved
  exact looked.trans moved

theorem ready_received (calm : self.Calm) : self.received.waitable.ready = 0 := by
  rw [received, receive]
  dsimp only [Waitable.clearReady]
  rcases calm with none | system
  · rw [none]
    rfl
  · rw [system]
    rfl

theorem coming_received : self.received.socket.coming.length ≤ self.socket.coming.length - 1 := by
  have first := self.socket.length_coming_tick
  have second := self.socket.tick.length_coming_tick
  rw [received, receive]
  dsimp only
  omega

theorem isReady_of_ready (none : self.waitable.ready = 0) : self.waitable.isReady = false := by
  rw [Waitable.isReady, none]
  rfl

/-- `rcv_all` does not fail before the end of the stream. -/
theorem rcvAllLoop_drained {fuel : ℕ} (connected : self.connected = true)
    (wellFormed : self.rcvbuf.WellFormed) (calm : self.Calm)
    (enough : 49152 < self.rcvbuf.content.length + fuel) :
    if (rcvAllLoop arriving fuel self).1 = true then
      Drained self (rcvAllLoop arriving fuel self).2
    else self.AtEnd := by
  induction fuel generalizing self with
  | zero =>
      have short := Tools.CircularBuffer.length_content_le wellFormed
      omega
  | succ fuel ih =>
      have free := getFreeSize_add wellFormed
      have first := self.socket.length_coming_tick
      have second := self.socket.tick.length_coming_tick
      rw [rcvAllLoop_arriving fuel connected wellFormed]
      split
      · rename_i reads
        split
        · rename_i nothing
          split
          · rename_i ended
            rw [if_neg (by simp)]
            constructor
            · rw [← self.socket.incoming_tick, ← self.socket.tick.incoming_tick, Arriving.incoming,
                nothing, ended]
              rfl
            · apply reads.1.resolve_left
              exact not_not.mpr (List.append_eq_nil_iff.mp nothing).1
          · rename_i later
            rw [if_pos rfl]
            refine ⟨connected, calm, by dsimp only; omega, fun none => absurd ?_ later⟩
            exact List.length_eq_zero_iff.mp (by simp [second, first, none])
        · rename_i some
          rcases received_moved connected wellFormed some reads.2 with ⟨bytes, nonempty, moved⟩
          have none := @ready_received self calm
          have less := @coming_received self
          have content := congrArg List.length moved.content
          split
          · rw [if_pos rfl]
            refine ⟨moved.connected.trans connected, Or.inl none, less, fun _ => Or.inr ?_⟩
            have free := getFreeSize_add moved.wellFormed
            dsimp only
            omega
          · have some := List.length_pos_iff.mpr nonempty
            rw [List.length_append, List.nil_append] at content
            have rest := @ih self.received (moved.connected.trans connected) moved.wellFormed
              (Or.inl none) (by omega)
            split at rest
            · rename_i fine
              rw [if_pos fine]
              exact rest.after (by omega)
            · have ready := rest.2
              rw [isReady_of_ready none] at ready
              cases ready
      · rename_i idle
        rw [if_pos rfl]
        refine ⟨connected, calm, Nat.le_of_eq first, fun none => ?_⟩
        by_cases room : 1300 < self.rcvbuf.getFreeSize
        · left
          have nothing : self.socket.tick.here = [] := by
            by_contra some
            exact idle ⟨Or.inl some, room⟩
          rw [Arriving.incoming, nothing, Arriving.tick, none]
          rfl
        · right
          dsimp only
          omega

theorem rcvAllLoop_atEnd (fuel : ℕ) (connected : self.connected = true)
    (wellFormed : self.rcvbuf.WellFormed) (atEnd : self.AtEnd) (ended : self.socket.coming = [])
    (room : 1300 < self.rcvbuf.getFreeSize) : (rcvAllLoop arriving (fuel + 1) self).1 = false := by
  have nothing : self.socket.here = [] := (List.append_eq_nil_iff.mp atEnd.1).1
  rw [rcvAllLoop_arriving fuel connected wellFormed, if_pos ⟨Or.inr atEnd.2, room⟩, if_pos,
    if_pos]
  · simp [Arriving.tick, ended]
  · simp [Arriving.tick, ended, nothing]

theorem not_isFull {size : ℕ} {buffer : Tools.CircularBuffer size}
    (wellFormed : buffer.WellFormed) (room : buffer.content.length + 1 < size) :
    buffer.isFull = false := by
  have start_lt := wellFormed.start_lt
  have stop_le := wellFormed.stop_le
  rw [← Tools.CircularBuffer.datasize_eq, Tools.CircularBuffer.datasize] at room
  simp only [Tools.CircularBuffer.isFull, Bool.or_eq_false_iff, Bool.and_eq_false_iff,
    decide_eq_false_iff_not]
  split at room <;> omega

theorem rcvAll_eq (wellFormed : self.rcvbuf.WellFormed)
    (room : self.rcvbuf.content.length < 47851) :
    self.rcvAll arriving = rcvAllLoop arriving (49152 + 1) self := by
  rw [rcvAll, not_isFull wellFormed (by omega)]
  rfl

/-- What is left of a pipe by an exact read that is answered. -/
structure Kept (before next : TcpPipe Arriving) : Prop where
  connected : next.connected = true
  calm : next.Calm
  coming : next.socket.coming.length ≤ before.socket.coming.length

/-- A pipe waits: another piece may come, and the end of the stream is noticed. -/
theorem kept_wait (connected : self.connected = true) (calm : self.Calm) :
    Kept self (self.wait arriving) ∧ (self.socket.incoming = [] → self.socket.coming = [] →
      (self.wait arriving).AtEnd ∧ (self.wait arriving).socket.coming = []) := by
  have less := self.socket.length_coming_tick
  rw [wait]
  split
  · rename_i ready
    exact ⟨⟨connected, calm, Nat.le_refl _⟩, fun nothing none => ⟨⟨nothing, ready⟩, none⟩⟩
  · dsimp only
    refine ⟨⟨connected, ?_, by dsimp only [arriving]; omega⟩, fun nothing none => ⟨⟨?_, ?_⟩, ?_⟩⟩
    · rw [Calm]
      dsimp only
      split
      · right
        rcases calm with ready | ready
        · rw [Waitable.makeReady, ready]
          rfl
        · rw [Waitable.makeReady, ready]
          rfl
      · exact calm
    · exact self.socket.incoming_tick.trans nothing
    · have polled : (arriving.poll self.socket).1 = true := by
        simp [arriving, Arriving.tick, none]
      rw [Waitable.isReady, polled, if_pos rfl, Waitable.makeReady]
      rcases calm with ready | ready
      · rw [ready]
        rfl
      · rw [ready]
        rfl
    · dsimp only [arriving, Arriving.tick]
      rw [none]
      rfl

/-- What an exact read makes of a pipe: it is answered if the stream has so many bytes, and
fails if it has not. -/
def ReadsExactly (required : ℕ) (self : TcpPipe Arriving) (call : RecvRslt × TcpPipe Arriving) :
    Prop :=
  if required ≤ (self.stream Arriving.incoming).length then
    (∃ bytes, call.1 = .data bytes) ∧ Kept self call.2
  else call.1 = .failed

theorem ReadsExactly.after {required : ℕ} {before : TcpPipe Arriving}
    {call : RecvRslt × TcpPipe Arriving} (reads : ReadsExactly required self call)
    (same : before.stream Arriving.incoming = self.stream Arriving.incoming)
    (fewer : self.socket.coming.length ≤ before.socket.coming.length) :
    ReadsExactly required before call := by
  rw [ReadsExactly] at reads ⊢
  rw [same]
  split at reads
  · rename_i there
    rw [if_pos there]
    rcases reads with ⟨answered, kept⟩
    exact ⟨answered, kept.connected, kept.calm, Nat.le_trans kept.coming fewer⟩
  · rename_i short
    rw [if_neg short]
    exact reads

/-- How long an exact read runs: it waits for each piece, and at the end once more. -/
def Enough (required fuel : ℕ) (self : TcpPipe Arriving) : Prop :=
  self.socket.coming.length + 2 ≤ fuel ∨
    0 < fuel ∧ (required ≤ self.rcvbuf.content.length ∨ self.AtEnd ∧ self.socket.coming = [])

/-- The pipe with which an exact read goes on. -/
structure GoesOn (required fuel : ℕ) (before next : TcpPipe Arriving) : Prop where
  connected : next.connected = true
  wellFormed : next.rcvbuf.WellFormed
  calm : next.Calm
  coming : next.socket.coming.length ≤ before.socket.coming.length
  stream : before.stream Arriving.incoming = next.stream Arriving.incoming
  enough : Enough required fuel next

/-- One round of an exact read, if `rcv_all` does not fail. -/
theorem goesOn_wait {fuel required : ℕ} {next : TcpPipe Arriving} {bytes : List UInt8}
    (small : required ≤ 47851) (enough : self.socket.coming.length + 2 ≤ fuel + 1)
    (drained : Drained self next)
    (moved : Moved Arriving.incoming Arriving.outgoing self next bytes []) :
    GoesOn required fuel self
      (if next.rcvbuf.datasize < required then next.wait arriving else next) := by
  have less := drained.goesBy
  have same := moved.stream
  rw [List.nil_append] at same
  rw [Tools.CircularBuffer.datasize_eq]
  split
  · rename_i more
    rcases kept_wait drained.connected drained.calm with ⟨waited, atEnd⟩
    have moved' := wait_moved stream_arriving moved.wellFormed
    have same' := moved'.stream
    rw [List.nil_append] at same'
    have fewer := waited.coming
    refine ⟨waited.connected, moved'.wellFormed, waited.calm, by omega, same.trans same', ?_⟩
    by_cases ended : self.socket.coming = []
    · have none : next.socket.coming = [] := by
        apply List.length_eq_zero_iff.mp
        rw [ended, List.length_nil] at less
        omega
      refine Or.inr ⟨by omega, Or.inr (atEnd ?_ none)⟩
      rcases drained.dry ended with nothing | full
      · exact nothing
      · omega
    · have some := List.length_pos_iff.mpr ended
      exact Or.inl (by omega)
  · rename_i there
    exact ⟨drained.connected, moved.wellFormed, drained.calm, by omega, same,
      Or.inr ⟨by omega, Or.inl (by omega)⟩⟩

theorem recvExact_arriving {fuel required : ℕ} (small : required ≤ 47851)
    (connected : self.connected = true) (wellFormed : self.rcvbuf.WellFormed) (calm : self.Calm)
    (enough : Enough required fuel self) :
    ReadsExactly required self (self.recvExact arriving fuel required) := by
  induction fuel generalizing self with
  | zero =>
      rcases enough with enough | ⟨enough, -⟩
      · omega
      · omega
  | succ fuel ih =>
      have whole : (self.stream Arriving.incoming).length =
          self.rcvbuf.content.length + self.socket.incoming.length := by
        rw [stream, if_pos connected, List.length_append]
      rw [recvExact, Tools.CircularBuffer.datasize_eq]
      by_cases waits : self.rcvbuf.content.length < required
      · have free := getFreeSize_add wellFormed
        have fails := fun atEnd none =>
          rcvAllLoop_atEnd 49152 connected wellFormed atEnd none (by omega)
        have drained := @rcvAllLoop_drained self (49152 + 1) connected wellFormed calm (by omega)
        have drains := rcvAll_drains stream_arriving wellFormed
        rw [if_pos waits]
        rw [rcvAll_eq wellFormed (by omega)] at drains ⊢
        generalize rcvAllLoop arriving (49152 + 1) self = call at fails drained drains ⊢
        rcases call with ⟨fine, next⟩
        cases fine with
        | false =>
            rw [if_neg (by simp)] at drained
            have none := congrArg List.length drained.1
            rw [ReadsExactly, if_neg (by rw [whole, none]; simp; omega)]
            rfl
        | true =>
            rw [if_pos rfl] at drained
            rcases drains with ⟨bytes, moved⟩
            have goesOn := @goesOn_wait self fuel required next bytes small ?_ drained moved
            · exact (ih goesOn.connected goesOn.wellFormed goesOn.calm goesOn.enough).after
                goesOn.stream goesOn.coming
            · rcases enough with enough | ⟨-, there | ⟨atEnd, none⟩⟩
              · exact enough
              · omega
              · cases fails atEnd none
      · rw [if_neg waits, ReadsExactly, if_pos (by omega)]
        exact ⟨⟨_, rfl⟩, connected, calm, Nat.le_refl _⟩

/-- The pipes that an exact read finds. -/
structure Usable (fuel : ℕ) (pipe : TcpPipe Arriving) : Prop where
  connected : pipe.connected = true
  wellFormed : pipe.WellFormed
  calm : pipe.Calm
  enough : pipe.socket.coming.length + 2 ≤ fuel

theorem usable_new {socket : Arriving} {fuel : ℕ} (enough : socket.coming.length + 2 ≤ fuel) :
    Usable fuel { socket } :=
  ⟨rfl, wellFormed_new socket, Or.inl rfl, enough⟩

/-- How many bytes there are for a call of `recv` that does not wait for all of them. -/
def atHand {K : Type} (kernel : Kernel K) (self : TcpPipe K) (size : ℕ) : ℕ :=
  (if self.rcvbuf.datasize < size then (self.rcvAll kernel).2 else self).rcvbuf.datasize

variable {fuel : ℕ}

theorem Usable.of_receives (usable : Usable fuel self) {count : ℕ} {next : TcpPipe Arriving}
    {out : List UInt8} (kept : Kept self next)
    (receives : Receives Arriving.incoming Arriving.outgoing (-(count : ℤ)) self (.data out) next)
    (long : out.length = count) :
    out = (self.stream Arriving.incoming).take count ∧
      next.stream Arriving.incoming = (self.stream Arriving.incoming).drop count ∧
      Usable fuel next := by
  have wellFormed := receives.wellFormed usable.wellFormed
  have fewer := kept.coming
  have enough := usable.enough
  rcases receives with ⟨bytes, moved, -⟩
  rw [moved.stream, ← long, List.take_left, List.drop_left]
  exact ⟨rfl, rfl, kept.connected, wellFormed, kept.calm, by omega⟩

theorem Usable.recvExact (usable : Usable fuel self) {count : ℕ} (short : count ≤ 47851) :
    ReadsExactly count self (self.recvExact arriving fuel count) :=
  recvExact_arriving short usable.connected usable.wellFormed.rcvbuf usable.calm
    (Or.inl usable.enough)

theorem Usable.recv_eq {count : ℕ} (some : count ≠ 0) :
    self.recv arriving fuel (-(count : ℤ)) = self.recvExact arriving fuel count := by
  rw [recv, if_pos (by omega), Int.neg_neg, Int.toNat_natCast]

theorem recv_nothing {K : Type} (kernel : Kernel K) (fuel : ℕ) (self : TcpPipe K) :
    ∃ out rcvbuf, self.recv kernel fuel 0 = (.data out, { self with rcvbuf }) := by
  have full : ¬(self.rcvbuf.datasize : ℤ) < 0 := by omega
  rw [recv, if_neg (Int.lt_irrefl 0), if_neg full]
  dsimp only
  rw [if_pos rfl]
  split
  · exact ⟨_, _, rfl⟩
  · exact ⟨_, _, rfl⟩

/-- What a read that does not wait takes out of `rcvbuf`. -/
def takeOut {K : Type} (self : TcpPipe K) (size : ℕ) : RecvRslt × TcpPipe K :=
  if 0 < self.rcvbuf.datasize then
    (.data (self.rcvbuf.peek size).1, { self with rcvbuf := (self.rcvbuf.peek size).2 })
  else (.data [], self)

theorem takeOut_spec {K : Type} {self : TcpPipe K} (wellFormed : self.rcvbuf.WellFormed)
    (size : ℕ) : ∃ out next, self.takeOut size = (.data out, next) ∧
      out.length = min size self.rcvbuf.datasize := by
  rw [takeOut]
  split
  · rcases Tools.CircularBuffer.peek_spec wellFormed size with ⟨output, -⟩
    refine ⟨_, _, rfl, ?_⟩
    rw [output, List.length_take, Tools.CircularBuffer.datasize_eq]
  · rename_i nothing
    refine ⟨[], self, rfl, ?_⟩
    rw [List.length_nil]
    omega

/-- A read that does not wait looks for more only if it needs more. -/
theorem recv_eq_takeOut {K : Type} (kernel : Kernel K) (fuel : ℕ) (self : TcpPipe K) (size : ℕ) :
    self.recv kernel fuel size =
      if self.rcvbuf.datasize < size then
        if (self.rcvAll kernel).1 then (self.rcvAll kernel).2.takeOut size
        else (.failed, (self.rcvAll kernel).2)
      else self.takeOut size := by
  rw [TcpPipe.recv, if_neg (by omega), Int.toNat_natCast]
  simp only [Int.ofNat_lt]
  by_cases more : self.rcvbuf.datasize < size
  · rw [if_pos more, if_pos more]
    rfl
  · rw [if_neg more, if_neg more]
    rfl

/-- A read that does not wait is answered with what is at hand. It only fails where the stream
has not that many bytes any more. -/
theorem Usable.recv_now (usable : Usable fuel self) {size : ℕ} (short : size ≤ 47851) :
    (∃ out next, self.recv arriving fuel size = (.data out, next) ∧
        out.length = min size (self.atHand arriving size) ∧
        self.stream Arriving.incoming = out ++ next.stream Arriving.incoming) ∨
      (self.stream Arriving.incoming).length < size ∧
        ∃ next, self.recv arriving fuel size = (.failed, next) := by
  have receives := recv_receives stream_arriving fuel usable.wellFormed.rcvbuf (size : ℤ)
  have answered {between : TcpPipe Arriving} (wellFormed : between.rcvbuf.WellFormed)
      (takes : self.recv arriving fuel size = between.takeOut size) :
      ∃ out next, self.recv arriving fuel size = (.data out, next) ∧
        out.length = min size between.rcvbuf.datasize ∧
        self.stream Arriving.incoming = out ++ next.stream Arriving.incoming := by
    rcases takeOut_spec wellFormed size with ⟨out, next, taken, long⟩
    rw [takes, taken] at receives
    rcases receives with ⟨bytes, moved, -⟩
    exact ⟨out, next, takes.trans taken, long, moved.stream⟩
  have recv := recv_eq_takeOut arriving fuel self size
  rw [atHand]
  by_cases more : self.rcvbuf.datasize < size
  · rw [if_pos more] at recv ⊢
    rw [Tools.CircularBuffer.datasize_eq] at more
    have drained := @rcvAllLoop_drained self (49152 + 1) usable.connected
      usable.wellFormed.rcvbuf usable.calm (by omega)
    rw [← rcvAll_eq usable.wellFormed.rcvbuf (by omega)] at drained
    have drains := rcvAll_drains stream_arriving usable.wellFormed.rcvbuf
    rw [Drains] at drains
    split at drains
    · rename_i fine
      rw [if_pos fine] at recv
      rcases drains with ⟨bytes, moved⟩
      exact Or.inl (answered moved.wellFormed recv)
    · rename_i failed
      rw [if_neg failed] at recv drained
      right
      refine ⟨?_, _, recv⟩
      rw [stream, if_pos usable.connected, List.length_append, drained.1, List.length_nil]
      exact more
  · rw [if_neg more] at recv ⊢
    exact Or.inl (answered usable.wellFormed.rcvbuf recv)

theorem sysSend_arriving (connected : self.connected = true) (data : List UInt8) :
    self.sysSend arriving data =
      (.accepted data.length, { self with socket := (arriving.send self.socket data).2 }) := by
  rw [sysSend, if_pos connected]
  rfl

theorem Usable.send (usable : Usable fuel self) (bytes : List UInt8) :
    ((self.send arriving (some bytes)).1 = .ok ∨
      (self.send arriving (some bytes)).1 = .bufferfull) ∧
      Usable fuel (self.send arriving (some bytes)).2 := by
  have sends := send_sends stream_arriving usable.wellFormed.outbuf (some bytes)
  have wellFormed : (self.send arriving (some bytes)).2.WellFormed :=
    ⟨sends.rcvbuf ▸ usable.wellFormed.rcvbuf, sends.outbuf⟩
  have connected := sends.connected.trans usable.connected
  rw [TcpPipe.send] at wellFormed connected ⊢
  split
  · rename_i nothing
    rw [if_pos nothing, sendDirect] at wellFormed connected
    rw [sendDirect]
    by_cases empty : bytes.length = 0
    · rw [if_pos empty]
      exact ⟨Or.inl rfl, usable⟩
    · rw [if_neg empty, sysSend_arriving usable.connected] at wellFormed connected ⊢
      dsimp only at wellFormed connected ⊢
      rw [if_neg (Nat.lt_irrefl _)] at wellFormed connected ⊢
      exact ⟨Or.inl rfl, connected, wellFormed, usable.calm, usable.enough⟩
  · rename_i waiting
    rw [if_neg waiting, sendPending] at wellFormed connected
    rw [sendPending]
    rcases queueing usable.wellFormed.outbuf bytes with ⟨outbuf, queued, -⟩
    dsimp only at wellFormed connected ⊢
    rw [queued, sysSend_arriving (by exact usable.connected)] at wellFormed connected ⊢
    dsimp only at wellFormed connected ⊢
    split
    · rename_i drained
      rw [if_pos drained] at wellFormed connected
      exact ⟨Or.inl rfl, connected, wellFormed, usable.calm, usable.enough⟩
    · rename_i full
      rw [if_neg full] at wellFormed connected
      exact ⟨Or.inr rfl, connected, wellFormed, usable.calm, usable.enough⟩

end TcpPipe

/-- A `tcp_pipe` answers exact reads, in whatever pieces the stream arrives. -/
theorem answering_arriving (fuel : ℕ) :
    Answering (tcpPipe arriving fuel) (TcpPipe.stream Arriving.incoming) (TcpPipe.Usable fuel)
      47851 where
  receive {pipe count} usable short there := by
    have receives := TcpPipe.recv_receives stream_arriving fuel usable.wellFormed.rcvbuf
      (-(count : ℤ))
    by_cases none : count = 0
    · subst none
      rcases TcpPipe.recv_nothing arriving fuel pipe with ⟨out, rcvbuf, answered⟩
      rw [show -((0 : ℕ) : ℤ) = 0 from rfl, answered] at receives
      have long := receives
      rcases long with ⟨more, -, -, long⟩
      rw [if_neg (Int.lt_irrefl 0), Int.toNat_zero, Nat.zero_min] at long
      have kept : TcpPipe.Kept pipe { pipe with rcvbuf } :=
        ⟨usable.connected, usable.calm, Nat.le_refl _⟩
      rcases @TcpPipe.Usable.of_receives _ _ usable 0 _ _ kept receives long with ⟨rfl, left, next⟩
      exact ⟨_, answered, left, next⟩
    · have reads := usable.recvExact short
      rw [TcpPipe.ReadsExactly, if_pos there, ← TcpPipe.Usable.recv_eq none] at reads
      rcases reads with ⟨⟨bytes, answered⟩, kept⟩
      rw [answered] at receives
      have long := receives
      rcases long with ⟨more, -, -, long⟩
      rw [if_pos (by omega)] at long
      rcases usable.of_receives kept receives (by omega) with ⟨rfl, left, next⟩
      exact ⟨_, Prod.ext answered rfl, left, next⟩
  starve {pipe count} usable short ended := by
    have reads := usable.recvExact short
    rw [TcpPipe.ReadsExactly, if_neg (by omega), ← TcpPipe.Usable.recv_eq (by omega)] at reads
    exact reads
  send {pipe} bytes usable := by
    rcases usable.send bytes with ⟨taken, next⟩
    have sends := TcpPipe.send_sends stream_arriving usable.wellFormed.outbuf (some bytes)
    exact ⟨_, _, rfl, taken, sends.stream, next⟩

end Imconee.Netkit
