import Imconee.Netkit.Arrival

/-!
# Reads of a given length

Calls of `recv` for exactly so many bytes, one after the other. The bytes they return are the
stream in order. One that fails has found the end of the stream or an error of the socket, or a
pipe that a call before it has closed: closing drops what is in `rcvbuf`.
-/

set_option autoImplicit false

namespace Imconee.Netkit

open Tools

variable {K : Type}

/-- What a stream socket tells of its end: `FIONREAD` only counts bytes that it will hand over,
and it reports the end behind all of them. From an error on it is `broken`. -/
structure Kernel.Ends (kernel : Kernel K) (incoming : K → List UInt8) (broken : K → Prop) :
    Prop where
  fionread : ∀ {k next count}, kernel.fionread k = (some count, next) →
    count ≤ (incoming k).length
  fionread_error : ∀ {k next}, kernel.fionread k = (none, next) → broken next
  recv_end : ∀ {k next size}, kernel.recv k size = (.bytes [], next) → 0 < size → incoming k = []
  recv_error : ∀ {k next size}, kernel.recv k size = (.error false, next) → broken next

/-- Why a call may fail: whether an earlier call has failed, the bytes still to be returned, the
length asked for, and the pipe behind the call. -/
abbrev Excuse (K : Type) := Bool → List UInt8 → ℕ → TcpPipe K → Prop

/-- Fewer bytes have arrived. -/
def NotArrived (incoming : K → List UInt8) : Excuse K := fun _ left count next =>
  left.length - (incoming next.socket).length < count

/-- An earlier call has failed, the stream has not that many bytes, or the socket has failed. -/
def EndedOrFailed (broken : K → Prop) : Excuse K := fun earlier left count next =>
  earlier = true ∨ left.length < count ∨ broken next.socket

/-- A call for `count` bytes returns the next ones, or fails with an excuse. -/
structure Answers (excuse : Excuse K) (earlier : Bool) (left : List UInt8) (count : ℕ)
    (call : RecvRslt × TcpPipe K) : Prop where
  data : ∀ out, call.1 = .data out → out.length = count ∧ out = left.take count
  failed : call.1 = .failed → excuse earlier left count call.2

section

variable {excuse : Excuse K} {earlier : Bool} {left out : List UInt8} {count : ℕ}
  {next : TcpPipe K}

theorem Answers.of_data (long : out.length = count) (same : out = left.take count) :
    Answers excuse earlier left count (.data out, next) where
  data := by
    rintro out' ⟨⟩
    exact ⟨long, same⟩
  failed wrong := by cases wrong

theorem Answers.of_failed (excused : excuse earlier left count next) :
    Answers excuse earlier left count (.failed, next) where
  data out wrong := by cases wrong
  failed _ := excused

theorem Answers.of_blocked : Answers excuse earlier left count (.blocked, next) where
  data out wrong := by cases wrong
  failed wrong := by cases wrong

end

/-- Calls of `recv`, each with its fuel and the number of bytes, on a pipe with `left` still to
be returned; `earlier` tells whether one of the calls before them has failed. -/
def AnswersInOrder (kernel : Kernel K) (excuse : Excuse K) :
    Bool → List UInt8 → TcpPipe K → List (ℕ × ℕ) → Prop
  | _, _, _, [] => True
  | earlier, left, self, (fuel, count) :: calls =>
      let call := self.recv kernel fuel (-(count : ℤ))
      Answers excuse earlier left count call ∧
        AnswersInOrder kernel excuse (earlier || call.1 = .failed)
          (left.drop call.1.bytes.length) call.2 calls

/-- What the calls return. -/
def exactReads (kernel : Kernel K) (fuel : ℕ) : TcpPipe K → List ℕ → List RecvRslt
  | _, [] => []
  | self, count :: counts =>
      let call := self.recv kernel fuel (-(count : ℤ))
      call.1 :: exactReads kernel fuel call.2 counts

/-- What they should return: the bytes in order, up to the first call for which there are not
enough. -/
def inOrder : List UInt8 → List ℕ → List RecvRslt
  | _, [] => []
  | left, count :: counts =>
      if count ≤ left.length then .data (left.take count) :: inOrder (left.drop count) counts
      else List.replicate (counts.length + 1) .failed

namespace TcpPipe

variable {kernel : Kernel K} {incoming accepted : K → List UInt8} {broken : K → Prop}
  {self : TcpPipe K}

/-- The bits of the waitable are those of the socket: no other pipe has marked it. -/
def Unwrapped (self : TcpPipe K) : Prop :=
  self.waitable.ready = 0 ∨ self.waitable.ready = readySystem

theorem ready_receive (unwrapped : self.Unwrapped) (bytes : List UInt8) :
    (self.receive bytes).waitable.ready = 0 := by
  rw [receive]
  dsimp only [Waitable.clearReady]
  rcases unwrapped with none | system
  · rw [none]
    rfl
  · rw [system]
    rfl

/-- What `rcv_all` leaves of the bits where it does not fail, and why it fails. -/
structure Outcome (incoming : K → List UInt8) (broken : K → Prop) (before : TcpPipe K)
    (call : Bool × TcpPipe K) : Prop where
  fine : call.1 = true → call.2.Unwrapped
  failed : call.1 = false → before.connected = false ∨
    before.waitable.isReady = true ∧ incoming before.socket = [] ∨ broken call.2.socket

theorem Outcome.of_fine {next : TcpPipe K} (unwrapped : next.Unwrapped) :
    Outcome incoming broken self (true, next) where
  fine _ := unwrapped
  failed wrong := by cases wrong

theorem Outcome.of_failed {next : TcpPipe K}
    (why : self.connected = false ∨
      self.waitable.isReady = true ∧ incoming self.socket = [] ∨ broken next.socket) :
    Outcome incoming broken self (false, next) where
  fine wrong := by cases wrong
  failed _ := why

theorem sysFionread_cases (stream : kernel.Stream incoming accepted)
    (ends : kernel.Ends incoming broken) (self : TcpPipe K) :
    ((self.sysFionread kernel).1 = none ∧
        (self.connected = false ∨ broken (self.sysFionread kernel).2.socket)) ∨
      ∃ count socket, self.sysFionread kernel = (some count, { self with socket }) ∧
        self.connected = true ∧ count ≤ (incoming self.socket).length ∧
        incoming socket = incoming self.socket := by
  rw [sysFionread]
  cases connected : self.connected with
  | false => exact Or.inl ⟨rfl, Or.inl rfl⟩
  | true =>
      rw [if_pos rfl]
      rcases call : kernel.fionread self.socket with ⟨available, next⟩
      have same := (stream.fionread self.socket).1
      rw [call] at same
      cases available with
      | none => exact Or.inl ⟨rfl, Or.inr (ends.fionread_error call)⟩
      | some count => exact Or.inr ⟨count, next, rfl, rfl, ends.fionread call, same⟩

theorem rcvAllLoop_outcome (stream : kernel.Stream incoming accepted)
    (ends : kernel.Ends incoming broken) (fuel : ℕ) (wellFormed : self.rcvbuf.WellFormed)
    (unwrapped : self.Unwrapped) :
    Outcome incoming broken self (rcvAllLoop kernel fuel self) := by
  induction fuel generalizing self with
  | zero => exact .of_fine unwrapped
  | succ fuel ih =>
      rw [rcvAllLoop]
      rcases sysFionread_cases stream ends self with
        ⟨none, why⟩ | ⟨count, socket, looked, connected, honest, same⟩
      · rw [none]
        exact .of_failed (why.imp_right Or.inr)
      · rw [looked]
        dsimp only
        generalize asks : (if (count = 0 && self.waitable.isReady) = true then 1 else count) = rb
        split
        · rename_i reads
          simp only [Bool.and_eq_true, decide_eq_true_eq] at reads
          have size : 0 < min self.rcvbuf.get1stFree.2 16384 := by
            have free := CircularBuffer.get1stFree_pos wellFormed (by omega)
            omega
          split
          · rename_i notNow
            rw [sysRecv, if_pos connected] at notNow ⊢
            exact .of_fine unwrapped
          · rename_i failed
            rw [sysRecv, if_pos connected] at failed ⊢
            exact .of_failed (Or.inr (Or.inr (ends.recv_error (Prod.ext failed rfl))))
          · rename_i ended
            rw [sysRecv, if_pos connected] at ended ⊢
            have nothing := ends.recv_end (Prod.ext ended rfl) size
            dsimp only at nothing
            rw [same] at nothing
            refine .of_failed (Or.inr (Or.inl ⟨?_, nothing⟩))
            -- `FIONREAD` has counted nothing, so the bit made the loop read
            rw [nothing] at honest
            by_contra idle
            simp [Nat.le_zero.mp honest, idle] at asks
            omega
          · rename_i byte rest received
            have next := @receive_moved K kernel incoming accepted stream { self with socket }
              wellFormed _ (Nat.min_le_left _ 16384) _ received
            have none : ((({ self with socket } : TcpPipe K).sysRecv kernel
                (min self.rcvbuf.get1stFree.2 16384)).2.receive (byte :: rest)).waitable.ready =
                0 := by
              rw [sysRecv, if_pos connected]
              exact @ready_receive K { self with socket := _ } unwrapped (byte :: rest)
            split
            · exact .of_fine (Or.inl none)
            · have outcome := ih next.wellFormed (Or.inl none)
              refine ⟨outcome.fine, fun fails => ?_⟩
              rcases outcome.failed fails with closed | ⟨ready, -⟩ | why
              · rw [next.connected] at closed
                exact Or.inl closed
              · rw [Waitable.isReady, none] at ready
                cases ready
              · exact Or.inr (Or.inr why)
        · exact .of_fine unwrapped

theorem rcvAll_outcome (stream : kernel.Stream incoming accepted)
    (ends : kernel.Ends incoming broken) (wellFormed : self.rcvbuf.WellFormed)
    (unwrapped : self.Unwrapped) : Outcome incoming broken self (self.rcvAll kernel) := by
  rw [rcvAll]
  split
  · exact .of_fine unwrapped
  · exact rcvAllLoop_outcome stream ends _ wellFormed unwrapped

theorem Unwrapped.wait (unwrapped : self.Unwrapped) (kernel : Kernel K) :
    (self.wait kernel).Unwrapped := by
  rw [TcpPipe.wait]
  split
  · exact unwrapped
  · split
    · rw [Unwrapped]
      dsimp only
      split
      · right
        rcases unwrapped with none | system
        · rw [Waitable.makeReady, none]
          rfl
        · rw [Waitable.makeReady, system]
          rfl
      · exact unwrapped
    · exact unwrapped

/-- Why a read of a given length fails, and what it leaves of the bits otherwise. -/
theorem recvExact_failed (stream : kernel.Stream incoming accepted)
    (ends : kernel.Ends incoming broken) (fuel : ℕ) (wellFormed : self.rcvbuf.WellFormed)
    (unwrapped : self.Unwrapped) (count : ℕ) :
    let call := self.recvExact kernel fuel count
    (call.1 = .failed → self.connected = false ∨ (self.stream incoming).length < count ∨
        broken call.2.socket) ∧
      (call.1 ≠ .failed → call.2.Unwrapped) := by
  induction fuel generalizing self with
  | zero => exact ⟨fun wrong => (by cases wrong), fun _ => unwrapped⟩
  | succ fuel ih =>
      rw [recvExact]
      split
      · rename_i short
        have outcome := rcvAll_outcome stream ends wellFormed unwrapped
        have drains := rcvAll_drains stream wellFormed
        generalize self.rcvAll kernel = received at outcome drains ⊢
        rcases received with ⟨fine, next⟩
        cases fine with
        | false =>
            refine ⟨fun _ => ?_, fun fails => absurd rfl fails⟩
            rcases outcome.failed rfl with closed | ⟨-, ended⟩ | why
            · exact Or.inl closed
            · refine Or.inr (Or.inl ?_)
              rw [CircularBuffer.datasize_eq] at short
              rw [TcpPipe.stream, ended, ite_self, List.append_nil]
              exact short
            · exact Or.inr (Or.inr why)
        | true =>
            rcases drains with ⟨bytes, moved⟩
            -- the pipe with which the loop goes on has the same stream
            have goesOn : ∀ {between : TcpPipe K}, between.Unwrapped →
                (∃ bytes, Moved incoming accepted self between bytes []) →
                let call := between.recvExact kernel fuel count
                (call.1 = .failed → self.connected = false ∨
                    (self.stream incoming).length < count ∨ broken call.2.socket) ∧
                  (call.1 ≠ .failed → call.2.Unwrapped) := by
              rintro between unwrapped ⟨bytes, moved⟩
              have rest := ih moved.wellFormed unwrapped
              have same : between.stream incoming = self.stream incoming := moved.stream.symm
              rw [same] at rest
              refine ⟨fun fails => ?_, rest.2⟩
              rcases rest.1 fails with closed | why
              · exact Or.inl (moved.connected.symm.trans closed)
              · exact Or.inr why
            simp only [if_true]
            split
            · have waited := wait_moved stream moved.wellFormed
              exact goesOn ((outcome.fine rfl).wait kernel) ⟨_, moved.trans waited⟩
            · exact goesOn (outcome.fine rfl) ⟨_, moved⟩
      · exact ⟨fun wrong => (by cases wrong), fun _ => unwrapped⟩

/-- A pipe between the calls: it is open, with the rest of the stream, or a call that has failed
has closed it. -/
structure Between (incoming : K → List UInt8) (earlier : Bool) (left : List UInt8)
    (pipe : TcpPipe K) : Prop where
  wellFormed : pipe.rcvbuf.WellFormed
  state : pipe.connected = true ∧ pipe.Unwrapped ∧ pipe.stream incoming = left ∨
    earlier = true ∧ pipe.connected = false ∧ pipe.rcvbuf.content = []

theorem Between.recv (stream : kernel.Stream incoming accepted)
    (ends : kernel.Ends incoming broken) {earlier : Bool} {left : List UInt8}
    (between : Between incoming earlier left self) (fuel : ℕ) {count : ℕ} (positive : 0 < count) :
    let call := self.recv kernel fuel (-(count : ℤ))
    Answers (EndedOrFailed broken) earlier left count call ∧
      Between incoming (earlier || call.1 = .failed) (left.drop call.1.bytes.length) call.2 := by
  have receives := recv_receives stream fuel between.wellFormed (-(count : ℤ))
  have exactly : self.recv kernel fuel (-(count : ℤ)) = self.recvExact kernel fuel count := by
    rw [TcpPipe.recv, if_pos (by omega), Int.neg_neg, Int.toNat_natCast]
  rw [exactly] at receives ⊢
  rcases between.state with ⟨connected, unwrapped, rfl⟩ | ⟨before, closed, nothing⟩
  · rcases recvExact_failed stream ends fuel between.wellFormed unwrapped count with
      ⟨excuse, kept⟩
    generalize self.recvExact kernel fuel count = call at receives excuse kept ⊢
    rcases call with ⟨result, next⟩
    cases result with
    | data out =>
        rcases receives with ⟨bytes, moved, -, long⟩
        rw [if_pos (by omega)] at long
        have long : out.length = count := by omega
        dsimp only [RecvRslt.bytes]
        rw [moved.stream, List.drop_left]
        refine ⟨.of_data long ?_, moved.wellFormed, Or.inl ⟨moved.connected.trans connected,
          kept (by simp), rfl⟩⟩
        rw [← long, List.take_left]
    | failed =>
        rcases receives with ⟨last, bytes, moved, rfl⟩
        refine ⟨.of_failed ?_, CircularBuffer.wellFormed_clear (by decide),
          Or.inr ⟨by simp, rfl, CircularBuffer.content_clear _⟩⟩
        rcases excuse rfl with closed | why
        · rw [connected] at closed
          cases closed
        · exact Or.inr why
    | threw exception => exact receives.elim
    | blocked =>
        rcases receives with ⟨bytes, moved⟩
        exact ⟨.of_blocked, moved.wellFormed, Or.inl ⟨moved.connected.trans connected,
          kept (by simp), moved.stream.symm⟩⟩
  · have stays : ∀ {next : TcpPipe K} {bytes out : List UInt8},
        Moved incoming accepted self next bytes out →
        out ++ next.rcvbuf.content = [] ∧ next.connected = false := by
      intro next bytes out moved
      have none : bytes = [] := by
        by_contra some
        rw [moved.open_of_bytes some] at closed
        cases closed
      rw [← moved.content, nothing, none]
      exact ⟨rfl, moved.connected.trans closed⟩
    have still : ∀ {result : RecvRslt}, (earlier || decide (result = .failed)) = true := by
      intro result
      rw [before, Bool.true_or]
    generalize self.recvExact kernel fuel count = call at receives ⊢
    rcases call with ⟨result, next⟩
    cases result with
    | data out =>
        rcases receives with ⟨bytes, moved, -, long⟩
        rw [if_pos (by omega), (List.append_eq_nil_iff.mp (stays moved).1).1] at long
        simp only [List.length_nil] at long
        omega
    | failed =>
        rcases receives with ⟨last, bytes, moved, rfl⟩
        exact ⟨.of_failed (Or.inl before), CircularBuffer.wellFormed_clear (by decide),
          Or.inr ⟨still, rfl, CircularBuffer.content_clear _⟩⟩
    | threw exception => exact receives.elim
    | blocked =>
        rcases receives with ⟨bytes, moved⟩
        exact ⟨.of_blocked, moved.wellFormed, Or.inr ⟨still, (stays moved).2, (stays moved).1⟩⟩

theorem Between.answersInOrder (stream : kernel.Stream incoming accepted)
    (ends : kernel.Ends incoming broken) {earlier : Bool} {left : List UInt8}
    (between : Between incoming earlier left self) {calls : List (ℕ × ℕ)}
    (positive : ∀ call ∈ calls, 0 < call.2) :
    AnswersInOrder kernel (EndedOrFailed broken) earlier left self calls := by
  induction calls generalizing earlier left self with
  | nil => trivial
  | cons call calls ih =>
      rcases call with ⟨fuel, count⟩
      rcases between.recv stream ends fuel (positive _ List.mem_cons_self) with ⟨answers, next⟩
      exact ⟨answers, ih next fun call member => positive call (List.mem_cons_of_mem _ member)⟩

theorem exactReads_closed {fuel : ℕ} (positive : 0 < fuel) {counts : List ℕ}
    (asked : ∀ count ∈ counts, 0 < count) {self : TcpPipe K} (closed : self.connected = false)
    (cleared : self.rcvbuf.start = 0 ∧ self.rcvbuf.stop = 0) :
    exactReads kernel fuel self counts = List.replicate counts.length .failed := by
  induction counts generalizing self with
  | nil => rfl
  | cons count counts ih =>
      have some := asked count List.mem_cons_self
      have empty : self.rcvbuf.datasize = 0 := by
        rw [CircularBuffer.datasize, cleared.1, cleared.2]
        rfl
      have full : self.rcvbuf.isFull = false := by
        rw [CircularBuffer.isFull, cleared.1, cleared.2]
        rfl
      have drained : self.rcvAll kernel = (false, self.close) := by
        rw [rcvAll, full, if_neg (by simp), show 49153 = 49152 + 1 from rfl, rcvAllLoop,
          sysFionread, closed]
        rfl
      have fails : self.recv kernel fuel (-(count : ℤ)) = (.failed, self.close) := by
        rcases Nat.exists_eq_succ_of_ne_zero (Nat.pos_iff_ne_zero.mp positive) with ⟨more, rfl⟩
        rw [TcpPipe.recv, if_pos (by omega), recvExact, if_pos (by omega), drained]
        rfl
      rw [exactReads, fails, List.length_cons, List.replicate_succ]
      exact congrArg _ (ih (fun count member => asked count (List.mem_cons_of_mem _ member)) rfl
        ⟨rfl, rfl⟩)

/-- Over a socket on which the stream arrives in pieces every call returns. -/
theorem exactReads_arriving {fuel : ℕ} {self : TcpPipe Arriving} (usable : Usable fuel self)
    {counts : List ℕ} (fit : ∀ count ∈ counts, 0 < count ∧ count ≤ 47851) :
    exactReads arriving fuel self counts = inOrder (self.stream Arriving.incoming) counts := by
  induction counts generalizing self with
  | nil => rfl
  | cons count counts ih =>
      rcases fit count List.mem_cons_self with ⟨positive, small⟩
      have rest := fun count member => fit count (List.mem_cons_of_mem _ member)
      have receives := recv_receives stream_arriving fuel usable.wellFormed.rcvbuf (-(count : ℤ))
      have reads := usable.recvExact small
      rw [← Usable.recv_eq (Nat.pos_iff_ne_zero.mp positive), ReadsExactly] at reads
      rw [exactReads, inOrder]
      generalize self.recv arriving fuel (-(count : ℤ)) = call at receives reads ⊢
      rcases call with ⟨result, next⟩
      split at reads
      · rename_i there
        rcases reads with ⟨⟨bytes, answered⟩, kept⟩
        dsimp only at answered receives
        rw [answered] at receives ⊢
        have long := receives
        rcases long with ⟨arrived, -, -, long⟩
        rw [if_pos (by omega)] at long
        rcases usable.of_receives kept receives (by omega) with ⟨taken, left, usable⟩
        rw [if_pos there, taken, ih usable rest, left]
      · rename_i short
        dsimp only at reads receives
        rw [reads] at receives ⊢
        rcases receives with ⟨between, arrived, moved, rfl⟩
        have enough := usable.enough
        rw [if_neg short, List.replicate_succ]
        exact congrArg _ (exactReads_closed (by omega) (fun count member => (rest count member).1)
          rfl ⟨rfl, rfl⟩)

end TcpPipe

/-- A socket that is reset behind its last byte. -/
def resetting : Kernel (List UInt8) where
  fionread k := (if k = [] then none else some k.length, k)
  recv k size := (if k = [] then .error false else .bytes (k.take size), k.drop size)
  send k _ := (.error false, k)
  poll k := (true, k)

theorem stream_resetting : resetting.Stream id fun _ => [] where
  fionread _ := ⟨rfl, rfl⟩
  poll _ := ⟨rfl, rfl⟩
  recv_bytes {k next size bytes} received := by
    simp only [resetting] at received
    split at received
    · cases received
    · cases received
      exact ⟨List.length_take_le _ _, (List.take_append_drop _ _).symm, rfl⟩
  recv_error {k next size notNow} received := by
    simp only [resetting] at received
    split at received
    · rename_i nothing
      cases received
      rw [nothing, List.drop_nil]
      exact ⟨rfl, rfl⟩
    · cases received
  send_accepted sent := nomatch sent
  send_error sent := by
    cases sent
    exact ⟨rfl, rfl⟩

theorem ends_resetting : resetting.Ends id (· = []) where
  fionread {k next count} looked := by
    simp only [resetting] at looked
    split at looked
    · cases looked
    · cases looked
      exact Nat.le_refl _
  fionread_error {k next} looked := by
    simp only [resetting] at looked
    split at looked
    · rename_i nothing
      cases looked
      exact nothing
    · cases looked
  recv_end {k next size} received positive := by
    simp only [resetting] at received
    split at received
    · cases received
    · have none := Received.bytes.inj (Prod.mk.inj received).1
      rcases List.take_eq_nil_iff.mp none with zero | empty
      · omega
      · exact empty
  recv_error {k next size} received := by
    simp only [resetting] at received
    split at received
    · rename_i nothing
      cases received
      rw [nothing, List.drop_nil]
    · cases received

/-- Calls for given numbers of bytes return the stream in order, or fail because an earlier call
has failed, the stream has ended before or the socket has failed. Where the stream arrives in
pieces, they all return. -/
theorem exact_reads :
    (∀ {K : Type} {kernel : Kernel K} {incoming accepted : K → List UInt8} {broken : K → Prop},
      kernel.Stream incoming accepted → kernel.Ends incoming broken →
      ∀ pipe : TcpPipe K, pipe.connected = true → pipe.rcvbuf.WellFormed → pipe.Unwrapped →
      ∀ calls : List (ℕ × ℕ), (∀ call ∈ calls, 0 < call.2) →
        AnswersInOrder kernel (EndedOrFailed broken) false (pipe.stream incoming) pipe calls) ∧
    ∀ (fuel : ℕ) (pipe : TcpPipe Arriving), pipe.Usable fuel →
      ∀ counts : List ℕ, (∀ count ∈ counts, 0 < count ∧ count ≤ 47851) →
        exactReads arriving fuel pipe counts = inOrder (pipe.stream Arriving.incoming) counts := by
  constructor
  · intro K kernel incoming accepted broken stream ends pipe connected wellFormed unwrapped calls
      positive
    exact TcpPipe.Between.answersInOrder stream ends
      ⟨wellFormed, Or.inl ⟨connected, unwrapped, rfl⟩⟩ positive
  · intro _ _ usable _ fit
    exact TcpPipe.exactReads_arriving usable fit

/-- The two bytes that the second call asks for have arrived, and so have the five that the call
on the other socket asks for. -/
theorem not_answersInOrder :
    ¬AnswersInOrder arriving (NotArrived Arriving.incoming) false [1, 2, 3]
        { socket := { here := [1, 2, 3] } } [(3, 5), (3, 2)] ∧
      ¬AnswersInOrder resetting (NotArrived id) false [1, 2, 3, 4, 5]
        { socket := [1, 2, 3, 4, 5] } [(3, 5)] := by
  constructor
  · intro answers
    have short := answers.2.1.failed (by decide +kernel)
    rw [NotArrived] at short
    exact absurd short (by decide +kernel)
  · intro answers
    have short := answers.1.failed (by decide +kernel)
    rw [NotArrived] at short
    exact absurd short (by decide +kernel)

/-- Two of three bytes are read, and then there are not enough. -/
theorem exact_reads_three :
    AnswersInOrder resetting (EndedOrFailed (· = [])) false [1, 2, 3] { socket := [1, 2, 3] }
        [(3, 2), (3, 2)] ∧
      exactReads arriving 3 { socket := { here := [1], coming := [[2, 3]] } } [2, 2] =
        [.data [1, 2], .failed] :=
  ⟨exact_reads.1 stream_resetting ends_resetting { socket := [1, 2, 3] } rfl
      (CircularBuffer.wellFormed_empty (by decide)) (Or.inl rfl) [(3, 2), (3, 2)] (by decide),
    exact_reads.2 3 { socket := { here := [1], coming := [[2, 3]] } }
      (TcpPipe.usable_new (Nat.le_refl 3)) [2, 2] (by decide)⟩

end Imconee.Netkit
