import Imconee.Netkit.Pipe
import Imconee.Tools.ChunkBuffer
import Imconee.Tools.CircularBuffer
import Mathlib.Algebra.Group.Nat.Defs

/-!
# `netkit::tcp_pipe`

A pipe over a socket. What comes in waits in `rcvbuf`, what the socket does not take yet
waits in `outbuf`. The calls of the operating system are a parameter; `Kernel.Stream` is
what a stream socket guarantees about them.

`rcv_all` runs on enough fuel to fill `rcvbuf` byte by byte. A read of a given length waits
for its bytes, so it runs on fuel of its own and is `blocked` where that runs out.
-/

set_option autoImplicit false

namespace Imconee.Netkit

open Imconee.Tools

/-- What `::recv` returns: bytes, none of them at the end of the stream, or `SOCKET_ERROR`,
which `CHECK_IF_NOT_NOW` tells apart. -/
inductive Received where
  | bytes (bytes : List UInt8)
  | error (notNow : Bool)
  deriving DecidableEq

/-- What `::send` returns: how many bytes it takes, or `SOCKET_ERROR`. -/
inductive Sent where
  | accepted (count : ℕ)
  | error (notNow : Bool)
  deriving DecidableEq

/-- The calls on a socket: `ioctl(FIONREAD)`, which may fail, `::recv`, `::send`, and `poll`
for `POLLIN`. -/
structure Kernel (K : Type) where
  fionread : K → Option ℕ × K
  recv : K → ℕ → Received × K
  send : K → List UInt8 → Sent × K
  poll : K → Bool × K

/-- A stream socket hands over what comes in and takes what goes out in order, in pieces of
its own choice. -/
structure Kernel.Stream {K : Type} (kernel : Kernel K) (incoming accepted : K → List UInt8) :
    Prop where
  fionread : ∀ k, incoming (kernel.fionread k).2 = incoming k ∧
    accepted (kernel.fionread k).2 = accepted k
  poll : ∀ k, incoming (kernel.poll k).2 = incoming k ∧ accepted (kernel.poll k).2 = accepted k
  recv_bytes : ∀ {k next size bytes}, kernel.recv k size = (.bytes bytes, next) →
    bytes.length ≤ size ∧ incoming k = bytes ++ incoming next ∧ accepted next = accepted k
  recv_error : ∀ {k next size notNow}, kernel.recv k size = (.error notNow, next) →
    incoming next = incoming k ∧ accepted next = accepted k
  send_accepted : ∀ {k next bytes count}, kernel.send k bytes = (.accepted count, next) →
    count ≤ bytes.length ∧ incoming next = incoming k ∧
      accepted next = accepted k ++ bytes.take count
  send_error : ∀ {k next bytes notNow}, kernel.send k bytes = (.error notNow, next) →
    incoming next = incoming k ∧ accepted next = accepted k

/-- `tcp_pipe`. `connected` is false where `sock()` is `INVALID_SOCKET`. -/
structure TcpPipe (K : Type) where
  socket : K
  connected : Bool := true
  rcvbuf : CircularBuffer 49152 := {}
  outbuf : ChunkBuffer 16384 := {}
  waitable : Waitable := {}

namespace TcpPipe

variable {K : Type} (kernel : Kernel K)

def close (self : TcpPipe K) : TcpPipe K :=
  { self with connected := false, rcvbuf := self.rcvbuf.clear }

def sysFionread (self : TcpPipe K) : Option ℕ × TcpPipe K :=
  if self.connected then
    let call := kernel.fionread self.socket
    (call.1, { self with socket := call.2 })
  else (none, self)

def sysRecv (self : TcpPipe K) (size : ℕ) : Received × TcpPipe K :=
  if self.connected then
    let call := kernel.recv self.socket size
    (call.1, { self with socket := call.2 })
  else (.error false, self)

def sysSend (self : TcpPipe K) (bytes : List UInt8) : Sent × TcpPipe K :=
  if self.connected then
    let call := kernel.send self.socket bytes
    (call.1, { self with socket := call.2 })
  else (.error false, self)

/-- `wait(get_waitable(), LOOP_PERIOD)` -/
def wait (self : TcpPipe K) : TcpPipe K :=
  if self.waitable.isReady then self
  else if self.connected then
    let call := kernel.poll self.socket
    { self with
      socket := call.2
      waitable := if call.1 then self.waitable.makeReady readySystem else self.waitable }
  else self

/-- What `rcv_all` does with bytes received. -/
def receive (self : TcpPipe K) (bytes : List UInt8) : TcpPipe K :=
  { self with
    waitable := self.waitable.clearReady readySystem
    rcvbuf := (self.rcvbuf.writeFree bytes).confirm bytes.length }

/-- The loop of `rcv_all`. -/
def rcvAllLoop : ℕ → TcpPipe K → Bool × TcpPipe K
  | 0, self => (true, self)
  | fuel + 1, self =>
      let available := self.sysFionread kernel
      match available.1 with
      | none => (false, available.2.close)
      | some rb =>
          -- check ready bit for complex pipes (like crypto pipe)
          let self := available.2
          let rb := if rb = 0 && self.waitable.isReady then 1 else rb
          if 0 < rb && 1300 < self.rcvbuf.getFreeSize then
            let received := self.sysRecv kernel (min self.rcvbuf.get1stFree.2 16384)
            match received.1 with
            | .error true => (true, received.2) -- nothing to read for now
            | .error false => (false, received.2.close)
            | .bytes [] => (false, received.2.close) -- connection closed
            | .bytes (byte :: rest) =>
                let self := received.2.receive (byte :: rest)
                if self.rcvbuf.getFreeSize < 1300 then (true, self) else rcvAllLoop fuel self
          else (true, self)

def rcvAll (self : TcpPipe K) : Bool × TcpPipe K :=
  if self.rcvbuf.isFull then (true, self) else rcvAllLoop kernel 49153 self

/-- `recv` for exactly `required` bytes -/
def recvExact : ℕ → TcpPipe K → ℕ → RecvRslt × TcpPipe K
  | 0, self, _ => (.blocked, self)
  | fuel + 1, self, required =>
      if self.rcvbuf.datasize < required then
        let received := self.rcvAll kernel
        if received.1 then
          recvExact fuel
            (if received.2.rcvbuf.datasize < required then received.2.wait kernel
              else received.2) required
        else (.failed, received.2)
      else
        let peeked := self.rcvbuf.peek required
        (.data peeked.1, { self with rcvbuf := peeked.2 })

def recv (fuel : ℕ) (self : TcpPipe K) (maxdatasz : ℤ) : RecvRslt × TcpPipe K :=
  if maxdatasz < 0 then self.recvExact kernel fuel (-maxdatasz).toNat
  else
    let received :=
      if self.rcvbuf.datasize < maxdatasz then self.rcvAll kernel else (true, self)
    if received.1 then
      if 0 < received.2.rcvbuf.datasize then
        let peeked := received.2.rcvbuf.peek maxdatasz.toNat
        (.data peeked.1, { received.2 with rcvbuf := peeked.2 })
      else (.data [], received.2)
    else (.failed, received.2)

/-- `send` while bytes are waiting -/
def sendPending (self : TcpPipe K) (data : List UInt8) : SendRslt × TcpPipe K :=
  let self :=
    if 0 < data.length then { self with outbuf := self.outbuf.append data } else self
  let sent := self.sysSend kernel self.outbuf.get1stChunk
  match sent.1 with
  | .error true => (.bufferfull, sent.2)
  | .error false => (.fail, sent.2)
  | .accepted count =>
      let outbuf := sent.2.outbuf.skip count
      if outbuf.isEmpty then
        (.ok, { sent.2 with outbuf, waitable := { sent.2.waitable with bufferfull := 0 } })
      else (.bufferfull, { sent.2 with outbuf })

/-- `send` while nothing is waiting -/
def sendDirect (self : TcpPipe K) (data : List UInt8) : SendRslt × TcpPipe K :=
  if data.length = 0 then (.ok, self)
  else
    let sent := self.sysSend kernel data
    let finish (count : ℕ) : SendRslt × TcpPipe K :=
      if count < data.length then
        -- mark this pipe as bufferfull
        (.bufferfull, { sent.2 with
          outbuf := sent.2.outbuf.append (data.drop count)
          waitable := { sent.2.waitable with bufferfull := 1 } })
      else (.ok, sent.2)
    match sent.1 with
    | .error false => (.fail, sent.2)
    | .error true => finish 0
    | .accepted count => finish count

def send (self : TcpPipe K) (data : Option (List UInt8)) : SendRslt × TcpPipe K :=
  match data with
  | none => (if self.outbuf.isEmpty then .ok else .bufferfull, self)
  | some data =>
      if self.outbuf.isEmpty then self.sendDirect kernel data else self.sendPending kernel data

structure WellFormed (pipe : TcpPipe K) : Prop where
  rcvbuf : pipe.rcvbuf.WellFormed
  outbuf : pipe.outbuf.WellFormed

theorem wellFormed_new (socket : K) : ({ socket } : TcpPipe K).WellFormed :=
  ⟨CircularBuffer.wellFormed_empty (by decide), ChunkBuffer.wellFormed_empty⟩

variable {kernel} {incoming accepted : K → List UInt8}

variable (incoming accepted) in
/-- Between two states the socket has handed over `bytes`, and `out` has been taken out of
`rcvbuf`. -/
structure Moved (before next : TcpPipe K) (bytes out : List UInt8) : Prop where
  content : before.rcvbuf.content ++ bytes = out ++ next.rcvbuf.content
  incoming : incoming before.socket = bytes ++ incoming next.socket
  accepted : accepted next.socket = accepted before.socket
  connected : next.connected = before.connected
  open_of_bytes : bytes ≠ [] → before.connected = true
  outbuf : next.outbuf = before.outbuf
  wellFormed : next.rcvbuf.WellFormed

namespace Moved

variable {self between next : TcpPipe K} {bytes more out : List UInt8}

theorem refl (wellFormed : self.rcvbuf.WellFormed) : Moved incoming accepted self self [] [] :=
  ⟨List.append_nil _, rfl, rfl, rfl, by simp, rfl, wellFormed⟩

theorem trans (first : Moved incoming accepted self between bytes [])
    (second : Moved incoming accepted between next more out) :
    Moved incoming accepted self next (bytes ++ more) out where
  content := by
    rw [← second.content, ← List.append_assoc, first.content, List.nil_append]
  incoming := by rw [first.incoming, second.incoming, List.append_assoc]
  accepted := second.accepted.trans first.accepted
  connected := second.connected.trans first.connected
  open_of_bytes some := by
    by_cases nil : bytes = []
    · rw [nil, List.nil_append] at some
      rw [← first.connected]
      exact second.open_of_bytes some
    · exact first.open_of_bytes nil
  outbuf := second.outbuf.trans first.outbuf
  wellFormed := second.wellFormed

theorem peek (wellFormed : self.rcvbuf.WellFormed) (outsize : ℕ) :
    Moved incoming accepted self { self with rcvbuf := (self.rcvbuf.peek outsize).2 } []
      (self.rcvbuf.peek outsize).1 := by
  rcases CircularBuffer.peek_spec wellFormed outsize with ⟨output, rest, content⟩
  refine ⟨?_, rfl, rfl, rfl, by simp, rfl, rest⟩
  rw [output, content, List.append_nil, List.take_append_drop]

end Moved

variable (accepted) in
/-- The bytes sent and taken over. -/
def taken (self : TcpPipe K) : List UInt8 := accepted self.socket ++ self.outbuf.content

variable (incoming) in
/-- The bytes still to be received. -/
def stream (self : TcpPipe K) : List UInt8 :=
  self.rcvbuf.content ++ if self.connected then incoming self.socket else []

/-- What is taken out of `rcvbuf` is taken from the front of the stream. -/
theorem Moved.stream {self next : TcpPipe K} {bytes out : List UInt8}
    (moved : Moved incoming accepted self next bytes out) :
    self.stream incoming = out ++ next.stream incoming := by
  have content := moved.content
  simp only [TcpPipe.stream]
  rw [moved.connected]
  cases connected : self.connected with
  | true =>
      simp only [if_true]
      rw [moved.incoming, ← List.append_assoc, content, List.append_assoc]
  | false =>
      have none : bytes = [] := by
        by_contra some
        exact absurd (moved.open_of_bytes some) (by simp [connected])
      rw [none, List.append_nil] at content
      simpa using content

theorem Moved.taken {self next : TcpPipe K} {bytes out : List UInt8}
    (moved : Moved incoming accepted self next bytes out) :
    next.taken accepted = self.taken accepted := by
  rw [TcpPipe.taken, TcpPipe.taken, moved.accepted, moved.outbuf]

theorem sysFionread_moved (stream : kernel.Stream incoming accepted) {self : TcpPipe K}
    (wellFormed : self.rcvbuf.WellFormed) :
    Moved incoming accepted self (self.sysFionread kernel).2 [] [] := by
  rw [sysFionread]
  split
  · rcases stream.fionread self.socket with ⟨same, taken⟩
    exact ⟨List.append_nil _, same.symm, taken, rfl, by simp, rfl, wellFormed⟩
  · exact .refl wellFormed

theorem wait_moved (stream : kernel.Stream incoming accepted) {self : TcpPipe K}
    (wellFormed : self.rcvbuf.WellFormed) :
    Moved incoming accepted self (self.wait kernel) [] [] := by
  rw [wait]
  split
  · exact .refl wellFormed
  · split
    · rcases stream.poll self.socket with ⟨same, taken⟩
      exact ⟨List.append_nil _, same.symm, taken, rfl, by simp, rfl, wellFormed⟩
    · exact .refl wellFormed

theorem sysRecv_error (stream : kernel.Stream incoming accepted) {self : TcpPipe K}
    (wellFormed : self.rcvbuf.WellFormed) {size : ℕ} {notNow : Bool}
    (received : (self.sysRecv kernel size).1 = .error notNow) :
    Moved incoming accepted self (self.sysRecv kernel size).2 [] [] := by
  rw [sysRecv] at received ⊢
  split
  · rename_i connected
    rw [if_pos connected] at received
    rcases stream.recv_error (Prod.ext received rfl) with ⟨same, taken⟩
    exact ⟨List.append_nil _, same.symm, taken, rfl, by simp, rfl, wellFormed⟩
  · exact .refl wellFormed

theorem sysRecv_bytes (stream : kernel.Stream incoming accepted) {self : TcpPipe K} {size : ℕ}
    {bytes : List UInt8} (received : (self.sysRecv kernel size).1 = .bytes bytes) :
    self.connected = true ∧ ∃ socket, (self.sysRecv kernel size).2 = { self with socket } ∧
      bytes.length ≤ size ∧ incoming self.socket = bytes ++ incoming socket ∧
      accepted socket = accepted self.socket := by
  rw [sysRecv] at received ⊢
  split
  · rename_i connected
    rw [if_pos connected] at received
    exact ⟨connected, _, rfl, stream.recv_bytes (Prod.ext received rfl)⟩
  · rename_i closed
    rw [if_neg closed] at received
    cases received

/-- What the socket hands over into the first free run of `rcvbuf` goes behind its
content. -/
theorem receive_moved (stream : kernel.Stream incoming accepted) {self : TcpPipe K}
    (wellFormed : self.rcvbuf.WellFormed) {size : ℕ} (fits : size ≤ self.rcvbuf.get1stFree.2)
    {bytes : List UInt8} (received : (self.sysRecv kernel size).1 = .bytes bytes) :
    Moved incoming accepted self ((self.sysRecv kernel size).2.receive bytes) bytes [] := by
  rcases sysRecv_bytes stream received with ⟨connected, socket, next, short, handed, taken⟩
  rcases CircularBuffer.confirm_writeFree wellFormed (Nat.le_trans short fits) with
    ⟨written, content⟩
  rw [next]
  exact ⟨content.symm, handed, taken, rfl, fun _ => connected, rfl, written⟩

/-- `rcv_all` moves bytes from the socket to `rcvbuf`; where it fails it closes the pipe. -/
def Drains (incoming accepted : K → List UInt8) (self : TcpPipe K) (call : Bool × TcpPipe K) :
    Prop :=
  if call.1 then ∃ bytes, Moved incoming accepted self call.2 bytes []
  else ∃ between bytes, Moved incoming accepted self between bytes [] ∧ call.2 = between.close

theorem Drains.after {self between : TcpPipe K} {call : Bool × TcpPipe K} {bytes : List UInt8}
    (drains : Drains incoming accepted between call)
    (moved : Moved incoming accepted self between bytes []) :
    Drains incoming accepted self call := by
  rw [Drains] at drains ⊢
  split at drains
  · rename_i fine
    rcases drains with ⟨more, next⟩
    rw [if_pos fine]
    exact ⟨_, moved.trans next⟩
  · rename_i failed
    rcases drains with ⟨last, more, next, closed⟩
    rw [if_neg failed]
    exact ⟨last, _, moved.trans next, closed⟩

theorem Drains.stop {self next : TcpPipe K} {bytes : List UInt8}
    (moved : Moved incoming accepted self next bytes []) :
    Drains incoming accepted self (true, next) := ⟨bytes, moved⟩

theorem Drains.close {self next : TcpPipe K} {bytes : List UInt8}
    (moved : Moved incoming accepted self next bytes []) :
    Drains incoming accepted self (false, next.close) := ⟨next, bytes, moved, rfl⟩

theorem rcvAllLoop_drains (stream : kernel.Stream incoming accepted) (fuel : ℕ)
    {self : TcpPipe K} (wellFormed : self.rcvbuf.WellFormed) :
    Drains incoming accepted self (rcvAllLoop kernel fuel self) := by
  induction fuel generalizing self with
  | zero => exact .stop (.refl wellFormed)
  | succ fuel ih =>
      have looked := sysFionread_moved stream wellFormed
      simp only [rcvAllLoop]
      split
      · exact .close looked
      · rename_i available _
        generalize (if (available = 0 && _) = true then 1 else available) = rb
        split
        · split
          · rename_i received
            exact .stop (looked.trans (sysRecv_error stream looked.wellFormed received))
          · rename_i received
            exact .close (looked.trans (sysRecv_error stream looked.wellFormed received))
          · rename_i received
            rcases sysRecv_bytes stream received with ⟨-, socket, next, -, handed, taken⟩
            rw [next]
            exact .close (looked.trans ⟨List.append_nil _, handed, taken, rfl, by simp, rfl,
              looked.wellFormed⟩)
          · rename_i byte rest received
            have moved := looked.trans (receive_moved stream looked.wellFormed
              (Nat.min_le_left _ _) received)
            split
            · exact .stop moved
            · exact (ih moved.wellFormed).after moved
        · exact .stop looked

theorem rcvAll_drains (stream : kernel.Stream incoming accepted) {self : TcpPipe K}
    (wellFormed : self.rcvbuf.WellFormed) :
    Drains incoming accepted self (self.rcvAll kernel) := by
  rw [rcvAll]
  split
  · exact .stop (.refl wellFormed)
  · exact rcvAllLoop_drains stream _ wellFormed

/-- What a call of `recv` for `size` bytes makes of a pipe. -/
def Receives (incoming accepted : K → List UInt8) (size : ℤ) (self : TcpPipe K)
    (result : RecvRslt) (next : TcpPipe K) : Prop :=
  match result with
  | .data out => ∃ bytes, Moved incoming accepted self next bytes out ∧
      (self.rcvbuf.content ++ bytes).length ≤ 49152 ∧
      if size < 0 then (out.length : ℤ) = -size
      else out.length = min size.toNat (self.rcvbuf.content ++ bytes).length
  | .failed => ∃ between bytes, Moved incoming accepted self between bytes [] ∧
      next = between.close
  | .threw _ => False
  | .blocked => ∃ bytes, Moved incoming accepted self next bytes []

theorem Receives.after {size : ℤ} {self between next : TcpPipe K} {bytes : List UInt8}
    {result : RecvRslt} (receives : Receives incoming accepted size between result next)
    (moved : Moved incoming accepted self between bytes []) :
    Receives incoming accepted size self result next := by
  cases result with
  | data out =>
      rcases receives with ⟨more, rest, fits⟩
      refine ⟨_, moved.trans rest, ?_⟩
      have content := moved.content
      rw [List.nil_append] at content
      rwa [← List.append_assoc, content]
  | failed =>
      rcases receives with ⟨last, more, rest, closed⟩
      exact ⟨last, _, moved.trans rest, closed⟩
  | threw exception => exact receives
  | blocked =>
      rcases receives with ⟨more, rest⟩
      exact ⟨_, moved.trans rest⟩

theorem receives_peek {size : ℤ} {self : TcpPipe K} (wellFormed : self.rcvbuf.WellFormed)
    (enough : size < 0 → (-size).toNat ≤ self.rcvbuf.content.length) :
    Receives incoming accepted size self (.data (self.rcvbuf.peek size.natAbs).1)
      { self with rcvbuf := (self.rcvbuf.peek size.natAbs).2 } := by
  rcases CircularBuffer.peek_spec wellFormed size.natAbs with ⟨output, -⟩
  refine ⟨_, .peek wellFormed _, ?_, ?_⟩
  · rw [List.append_nil]
    exact CircularBuffer.length_content_le wellFormed
  rw [output, List.length_take, List.append_nil]
  split
  · rename_i exact
    have there := enough exact
    omega
  · omega

theorem recvExact_receives (stream : kernel.Stream incoming accepted) (fuel : ℕ)
    {self : TcpPipe K} (wellFormed : self.rcvbuf.WellFormed) {size : ℤ} (exact : size < 0) :
    Receives incoming accepted size self (self.recvExact kernel fuel (-size).toNat).1
      (self.recvExact kernel fuel (-size).toNat).2 := by
  induction fuel generalizing self with
  | zero => exact ⟨_, .refl wellFormed⟩
  | succ fuel ih =>
      rw [recvExact]
      split
      · have drains := rcvAll_drains stream wellFormed
        rw [Drains] at drains
        cases fine : (self.rcvAll kernel).1 with
        | true =>
            simp only [fine, if_true] at drains ⊢
            rcases drains with ⟨bytes, moved⟩
            split
            · have waited := wait_moved stream moved.wellFormed
              exact (ih waited.wellFormed).after (moved.trans waited)
            · exact (ih moved.wellFormed).after moved
        | false =>
            simp only [fine, Bool.false_eq_true, if_false] at drains ⊢
            exact drains
      · rename_i enough
        rw [CircularBuffer.datasize_eq] at enough
        have peeked : Receives incoming accepted size self _ _ :=
          receives_peek wellFormed (by omega)
        rwa [show size.natAbs = (-size).toNat by omega] at peeked

theorem recv_receives (stream : kernel.Stream incoming accepted) (fuel : ℕ) {self : TcpPipe K}
    (wellFormed : self.rcvbuf.WellFormed) (size : ℤ) :
    Receives incoming accepted size self (self.recv kernel fuel size).1
      (self.recv kernel fuel size).2 := by
  rw [recv]
  split
  · rename_i exact
    exact recvExact_receives stream fuel wellFormed exact
  · rename_i any
    have drains : Drains incoming accepted self
        (if (self.rcvbuf.datasize : ℤ) < size then self.rcvAll kernel else (true, self)) := by
      split
      · exact rcvAll_drains stream wellFormed
      · exact .stop (.refl wellFormed)
    generalize (if (self.rcvbuf.datasize : ℤ) < size then self.rcvAll kernel
      else (true, self)) = received at drains ⊢
    rcases received with ⟨fine, between⟩
    cases fine with
    | true =>
        rcases drains with ⟨bytes, moved⟩
        simp only [if_true]
        split
        · have peeked : Receives incoming accepted size self _ _ :=
            (receives_peek moved.wellFormed (by omega)).after moved
          rwa [show size.natAbs = size.toNat by omega] at peeked
        · rename_i nothing
          have empty : between.rcvbuf.content = [] := by simpa using nothing
          refine ⟨bytes, moved, ?_⟩
          rw [if_neg any, moved.content, List.nil_append, empty]
          simp
    | false => exact drains

/-- `rcv_all` runs on enough fuel: every round adds to `rcvbuf`, which has an end. -/
theorem rcvAllLoop_enough (stream : kernel.Stream incoming accepted) {fuel : ℕ}
    {self : TcpPipe K} (wellFormed : self.rcvbuf.WellFormed)
    (enough : 49152 < self.rcvbuf.content.length + fuel) (more : ℕ) :
    rcvAllLoop kernel (fuel + more) self = rcvAllLoop kernel fuel self := by
  induction fuel generalizing self with
  | zero =>
      have short := CircularBuffer.length_content_le wellFormed
      omega
  | succ fuel ih =>
      have looked := sysFionread_moved stream wellFormed
      rw [Nat.add_right_comm]
      simp only [rcvAllLoop]
      split
      · rfl
      · rename_i available _
        generalize (if (available = 0 && _) = true then 1 else available) = rb
        split
        · split
          · rfl
          · rfl
          · rfl
          · rename_i byte rest received
            have moved := looked.trans (receive_moved stream looked.wellFormed
              (Nat.min_le_left _ _) received)
            have grown := congrArg List.length moved.content
            split
            · rfl
            · refine ih moved.wellFormed ?_
              simp only [List.nil_append, List.length_append, List.length_cons] at grown
              omega
        · rfl

/-- What a call of `send` makes of a pipe. -/
structure Sends (incoming accepted : K → List UInt8) (data : List UInt8) (before : TcpPipe K)
    (result : SendRslt) (next : TcpPipe K) : Prop where
  outcome : result = .ok ∨ result = .fail ∨ result = .bufferfull
  taken : next.taken accepted = before.taken accepted ++ data ∨
    result = .fail ∧ next.taken accepted = before.taken accepted
  sent : result = .ok → next.outbuf.content = []
  failed : result = .fail → accepted next.socket = accepted before.socket
  incoming : incoming next.socket = incoming before.socket
  connected : next.connected = before.connected
  rcvbuf : next.rcvbuf = before.rcvbuf
  outbuf : next.outbuf.WellFormed

theorem Sends.stream {self next : TcpPipe K} {data : List UInt8} {result : SendRslt}
    (sends : Sends incoming accepted data self result next) :
    next.stream incoming = self.stream incoming := by
  rw [TcpPipe.stream, TcpPipe.stream, sends.rcvbuf, sends.connected, sends.incoming]

theorem Sends.taken_of_sent {self next : TcpPipe K} {data : List UInt8} {result : SendRslt}
    (sends : Sends incoming accepted data self result next) (sent : result ≠ .fail) :
    next.taken accepted = self.taken accepted ++ data := by
  rcases sends.taken with taken | ⟨failed, -⟩
  · exact taken
  · exact absurd failed sent

theorem sysSend_error (stream : kernel.Stream incoming accepted) {self : TcpPipe K}
    {bytes : List UInt8} {notNow : Bool}
    (sent : (self.sysSend kernel bytes).1 = .error notNow) :
    ∃ socket, (self.sysSend kernel bytes).2 = { self with socket } ∧
      incoming socket = incoming self.socket ∧ accepted socket = accepted self.socket := by
  rw [sysSend] at sent ⊢
  split
  · rename_i connected
    rw [if_pos connected] at sent
    exact ⟨_, rfl, stream.send_error (Prod.ext sent rfl)⟩
  · exact ⟨self.socket, rfl, rfl, rfl⟩

theorem sysSend_accepted (stream : kernel.Stream incoming accepted) {self : TcpPipe K}
    {bytes : List UInt8} {count : ℕ} (sent : (self.sysSend kernel bytes).1 = .accepted count) :
    ∃ socket, (self.sysSend kernel bytes).2 = { self with socket } ∧ count ≤ bytes.length ∧
      incoming socket = incoming self.socket ∧
      accepted socket = accepted self.socket ++ bytes.take count := by
  rw [sysSend] at sent ⊢
  split
  · rename_i connected
    rw [if_pos connected] at sent
    exact ⟨_, rfl, stream.send_accepted (Prod.ext sent rfl)⟩
  · rename_i closed
    rw [if_neg closed] at sent
    cases sent

/-- What `send` appends to `outbuf` while bytes are waiting. -/
theorem queueing {self : TcpPipe K} (wellFormed : self.outbuf.WellFormed) (data : List UInt8) :
    ∃ outbuf, (if 0 < data.length then { self with outbuf := self.outbuf.append data } else self) =
        { self with outbuf } ∧
      outbuf.WellFormed ∧ outbuf.content = self.outbuf.content ++ data := by
  split
  · exact ⟨_, rfl, ChunkBuffer.append_spec (by decide) wellFormed data⟩
  · rename_i empty
    rw [List.length_pos_iff, not_not] at empty
    exact ⟨_, rfl, wellFormed, by rw [empty, List.append_nil]⟩

/-- What is sent while bytes are waiting goes behind them. -/
theorem sendPending_sends (stream : kernel.Stream incoming accepted) {self : TcpPipe K}
    (wellFormed : self.outbuf.WellFormed) (waiting : self.outbuf.content ≠ [])
    (data : List UInt8) :
    Sends incoming accepted data self (self.sendPending kernel data).1
      (self.sendPending kernel data).2 := by
  rcases queueing wellFormed data with ⟨outbuf, queued, appended, content⟩
  have nonempty : outbuf.chain ≠ [] := by
    intro nil
    rw [ChunkBuffer.content_of_nil nil] at content
    exact waiting (List.append_eq_nil_iff.mp content.symm).1
  have kept : ∀ {k : K}, accepted k = accepted self.socket →
      accepted k ++ outbuf.content = self.taken accepted ++ data := by
    intro k same
    rw [same, content, taken, List.append_assoc]
  rcases ChunkBuffer.get1stChunk_spec appended with ⟨⟨rest, chunk⟩, -⟩
  simp only [sendPending, queued]
  split
  · rename_i notNow
    rcases sysSend_error stream notNow with ⟨socket, next, same, accepts⟩
    rw [next]
    exact ⟨by simp, Or.inl (kept accepts), by simp, fun _ => accepts, same, rfl, rfl, appended⟩
  · rename_i failed
    rcases sysSend_error stream failed with ⟨socket, next, same, accepts⟩
    rw [next]
    exact ⟨by simp, Or.inl (kept accepts), by simp, fun _ => accepts, same, rfl, rfl, appended⟩
  · rename_i count sent
    rcases sysSend_accepted stream sent with ⟨socket, next, short, same, accepts⟩
    simp only at short accepts
    have inside : count ≤ outbuf.content.length := by
      rw [← chunk, List.length_append]
      omega
    rcases ChunkBuffer.skip_spec appended nonempty inside with ⟨skipped, behind⟩
    have moved : accepted socket ++ (outbuf.skip count).content = self.taken accepted ++ data := by
      rw [← kept rfl, accepts, behind, List.append_assoc]
      congr 1
      conv_rhs => rw [← List.take_append_drop count outbuf.content]
      rw [← chunk, List.take_append_of_le_length short]
    simp only [next]
    split
    · rename_i drained
      exact ⟨by simp, Or.inl moved, fun _ => (ChunkBuffer.isEmpty_iff skipped).mp drained,
        by simp, same, rfl, rfl, skipped⟩
    · exact ⟨by simp, Or.inl moved, by simp, by simp, same, rfl, rfl, skipped⟩

/-- What is sent while nothing is waiting goes out at once, as far as the socket takes it. -/
theorem sendDirect_sends (stream : kernel.Stream incoming accepted) {self : TcpPipe K}
    (wellFormed : self.outbuf.WellFormed) (nothing : self.outbuf.content = [])
    (data : List UInt8) :
    Sends incoming accepted data self (self.sendDirect kernel data).1
      (self.sendDirect kernel data).2 := by
  have before : self.taken accepted = accepted self.socket := by
    rw [taken, nothing, List.append_nil]
  have finish : ∀ {count : ℕ} {socket : K}, count ≤ data.length →
      incoming socket = incoming self.socket →
      accepted socket = accepted self.socket ++ data.take count →
      let next := if count < data.length then
          (SendRslt.bufferfull, ({ self with
            socket
            outbuf := self.outbuf.append (data.drop count)
            waitable := { self.waitable with bufferfull := 1 } } : TcpPipe K))
        else (.ok, { self with socket })
      Sends incoming accepted data self next.1 next.2 := by
    intro count socket short same accepts
    split
    · rcases ChunkBuffer.append_spec (by decide) wellFormed (data.drop count) with
          ⟨appended, content⟩
      refine ⟨by simp, Or.inl ?_, by simp, by simp, same, rfl, rfl, appended⟩
      rw [before, taken, accepts, content, nothing, List.nil_append, List.append_assoc,
        List.take_append_drop]
    · refine ⟨by simp, Or.inl ?_, fun _ => nothing, by simp, same, rfl, rfl, wellFormed⟩
      rw [before, taken, accepts, nothing, List.append_nil, List.take_of_length_le (by omega)]
  rw [sendDirect]
  split
  · rename_i empty
    rw [List.length_eq_zero_iff] at empty
    subst empty
    exact ⟨Or.inl rfl, Or.inl (List.append_nil _).symm, fun _ => nothing, by simp, rfl, rfl, rfl,
      wellFormed⟩
  · simp only
    split
    · rename_i failed
      rcases sysSend_error stream failed with ⟨socket, next, same, accepts⟩
      rw [next]
      refine ⟨by simp, Or.inr ⟨rfl, ?_⟩, by simp, fun _ => accepts, same, rfl, rfl, wellFormed⟩
      rw [taken, taken, accepts]
    · rename_i notNow
      rcases sysSend_error stream notNow with ⟨socket, next, same, accepts⟩
      rw [next]
      exact finish (Nat.zero_le _) same (by rw [accepts, List.take_zero, List.append_nil])
    · rename_i count sent
      rcases sysSend_accepted stream sent with ⟨socket, next, short, same, accepts⟩
      rw [next]
      exact finish short same accepts

theorem send_sends (stream : kernel.Stream incoming accepted) {self : TcpPipe K}
    (wellFormed : self.outbuf.WellFormed) (data : Option (List UInt8)) :
    Sends incoming accepted (data.getD []) self (self.send kernel data).1
      (self.send kernel data).2 := by
  have empty := ChunkBuffer.isEmpty_iff wellFormed
  cases data with
  | none =>
      simp only [send, Option.getD_none]
      refine ⟨?_, Or.inl (List.append_nil _).symm, ?_, fun _ => rfl, rfl, rfl, rfl, wellFormed⟩
      · split <;> simp
      · intro allowed
        split at allowed
        · rename_i nothing
          exact empty.mp nothing
        · cases allowed
  | some data =>
      simp only [send, Option.getD_some]
      split
      · rename_i nothing
        exact sendDirect_sends stream wellFormed (empty.mp nothing) data
      · rename_i waiting
        exact sendPending_sends stream wellFormed (fun nil => waiting (empty.mpr nil)) data

end TcpPipe

/-- A `tcp_pipe` as a pipe. -/
def tcpPipe {K : Type} (kernel : Kernel K) (fuel : ℕ) : PipeImpl (TcpPipe K) where
  send := TcpPipe.send kernel
  recv := TcpPipe.recv kernel fuel
  getWaitable self := (some self.waitable, self)
  setWaitable self waitable := { self with waitable }

section

variable {K : Type} {kernel : Kernel K} {incoming accepted : K → List UInt8}

theorem TcpPipe.Receives.wellFormed {size : ℤ} {self next : TcpPipe K} {result : RecvRslt}
    (receives : TcpPipe.Receives incoming accepted size self result next)
    (wellFormed : self.WellFormed) : next.WellFormed := by
  cases result with
  | data out =>
      rcases receives with ⟨bytes, moved, -⟩
      exact ⟨moved.wellFormed, moved.outbuf ▸ wellFormed.outbuf⟩
  | failed =>
      rcases receives with ⟨between, bytes, moved, rfl⟩
      exact ⟨CircularBuffer.wellFormed_clear (by decide), moved.outbuf ▸ wellFormed.outbuf⟩
  | threw exception => exact receives.elim
  | blocked =>
      rcases receives with ⟨bytes, moved⟩
      exact ⟨moved.wellFormed, moved.outbuf ▸ wellFormed.outbuf⟩

theorem keeps_tcpPipe (stream : kernel.Stream incoming accepted) (fuel : ℕ) :
    (tcpPipe kernel fuel).Keeps TcpPipe.WellFormed where
  send self data wellFormed := by
    have sends := TcpPipe.send_sends stream wellFormed.outbuf data
    exact ⟨sends.rcvbuf ▸ wellFormed.rcvbuf, sends.outbuf⟩
  recv self size wellFormed :=
    (TcpPipe.recv_receives stream fuel wellFormed.rcvbuf size).wellFormed wellFormed
  getWaitable self wellFormed := wellFormed
  setWaitable self waitable wellFormed := ⟨wellFormed.rcvbuf, wellFormed.outbuf⟩

theorem source_tcpPipe (stream : kernel.Stream incoming accepted) (fuel : ℕ) :
    Source ((tcpPipe kernel fuel).restrict (keeps_tcpPipe stream fuel))
      (fun self => self.1.stream incoming) where
  recv_data {self next size bytes} received := by
    have receives := TcpPipe.recv_receives stream fuel self.2.rcvbuf size
    rw [show (self.1.recv kernel fuel size).1 = .data bytes from congrArg Prod.fst received,
      show (self.1.recv kernel fuel size).2 = next.1 from
        congrArg (fun call => call.2.1) received] at receives
    rcases receives with ⟨arrived, moved, -, length⟩
    refine ⟨moved.stream, fun asked => ?_, fun asked => ?_⟩
    · rw [if_neg (by omega)] at length
      omega
    · rwa [if_pos asked] at length
  recv_other {self next size result} received other := by
    have receives := TcpPipe.recv_receives stream fuel self.2.rcvbuf size
    rw [show (self.1.recv kernel fuel size).1 = result from congrArg Prod.fst received,
      show (self.1.recv kernel fuel size).2 = next.1 from
        congrArg (fun call => call.2.1) received] at receives
    cases result with
    | data out => exact absurd rfl (other out)
    | failed =>
        rcases receives with ⟨between, arrived, moved, closed⟩
        right
        simp [TcpPipe.stream, closed, TcpPipe.close]
    | threw exception => exact receives.elim
    | blocked =>
        rcases receives with ⟨arrived, moved⟩
        exact Or.inl moved.stream.symm
  getWaitable _ := rfl
  setWaitable _ _ := rfl

theorem sink_tcpPipe (stream : kernel.Stream incoming accepted) (fuel : ℕ) :
    Sink ((tcpPipe kernel fuel).restrict (keeps_tcpPipe stream fuel))
      (fun self => self.1.taken accepted) where
  send_data {self next bytes result} sent fine := by
    have sends := TcpPipe.send_sends stream self.2.outbuf (some bytes)
    rw [show (self.1.send kernel (some bytes)).1 = result from congrArg Prod.fst sent,
      show (self.1.send kernel (some bytes)).2 = next.1 from
        congrArg (fun call => call.2.1) sent] at sends
    exact sends.taken_of_sent (by rcases fine with ok | full <;> simp [*])
  send_null _ := rfl

end

/-- A socket held in memory, to run the model with: what comes in, whether that is all, what
has gone out and how much more is taken. -/
structure MemorySocket where
  incoming : List (List UInt8) := []
  ended : Bool := false
  outgoing : List UInt8 := []
  room : ℕ := 65536

def memorySocket : Kernel MemorySocket where
  fionread k := (some (k.incoming.headD []).length, k)
  recv k size :=
    match k.incoming with
    | [] => (if k.ended then .bytes [] else .error true, k)
    | segment :: rest => (.bytes (segment.take size),
        { k with incoming := MemoryPipe.dropFirst size (segment :: rest) })
  send k bytes :=
    if k.room = 0 then (.error true, k)
    else (.accepted (min k.room bytes.length), { k with
      outgoing := k.outgoing ++ bytes.take k.room
      room := k.room - bytes.length })
  poll k := (!k.incoming.isEmpty || k.ended, k)

theorem stream_memorySocket :
    memorySocket.Stream (fun k => k.incoming.flatten) MemorySocket.outgoing where
  fionread _ := ⟨rfl, rfl⟩
  poll _ := ⟨rfl, rfl⟩
  recv_bytes {k next size bytes} received := by
    simp only [memorySocket] at received
    split at received
    · rename_i nothing
      split at received
      · cases received
        exact ⟨Nat.zero_le _, rfl, rfl⟩
      · cases received
    · rename_i segment rest there
      cases received
      refine ⟨by rw [List.length_take]; omega, ?_, rfl⟩
      simp only [there]
      exact (MemoryPipe.flatten_dropFirst size (segment :: rest)).symm
  recv_error {k next size notNow} received := by
    simp only [memorySocket] at received
    split at received
    · cases (Prod.mk.inj received).2
      exact ⟨rfl, rfl⟩
    · cases received
  send_accepted {k next bytes count} sent := by
    simp only [memorySocket] at sent
    split at sent
    · cases sent
    · cases sent
      refine ⟨Nat.min_le_right _ _, rfl, ?_⟩
      rw [List.take_eq_take_min]
  send_error {k next bytes notNow} sent := by
    simp only [memorySocket] at sent
    split at sent
    · cases sent
      exact ⟨rfl, rfl⟩
    · cases sent

end Imconee.Netkit
