import Imconee.Shadowsocks.CryptoPipe
import Imconee.Tools.Assign

/-!
# The method `none`

`none_cryptor` replaces what it is to append to. On the way out there is never anything to
replace. On the way in there is, as soon as `recv` puts the bytes asked for together from
what is left over and a read, or from two reads: the bytes already there are lost.
-/

set_option autoImplicit false

namespace Imconee.Shadowsocks

open Imconee.Botan Imconee.Netkit Imconee.Tools

variable {P : Type}

/-- Reads of the pipe below, one after the other. -/
inductive Reads (impl : PipeImpl P) : P → List (List UInt8) → P → Prop where
  | none {pipe : P} : Reads impl pipe [] pipe
  | more {first pipe next : P} {segments : List (List UInt8)} {bytes : List UInt8}
      (reads : Reads impl first segments pipe)
      (received : impl.recv pipe tempSize = (.data bytes, next)) :
      Reads impl first (segments ++ [bytes]) next

/-- No read that hands anything over is made for a call while some of the bytes it asks for
are there. -/
def InOnePiece (impl : PipeImpl P) (pipe : P) (held : ℕ) (size : ℤ) : Prop :=
  ∀ segments bytes next, Reads impl pipe (segments ++ [bytes]) next → bytes ≠ [] →
    ((held + segments.flatten.length : ℕ) : ℤ) < -size → held + segments.flatten.length = 0

theorem inOnePiece_of_held {impl : PipeImpl P} {pipe : P} {held : ℕ} {size : ℤ}
    (enough : -size ≤ held) : InOnePiece impl pipe held size := by
  intro segments bytes next reads nonempty short
  omega

section

variable (impl : PipeImpl P) (deriveAeadSubkey : List UInt8 → List UInt8 → List UInt8)

/-- Each of the calls gets its bytes in one piece. -/
def AllInOnePiece : CryptoPipe P Unit → List (ℕ × ℤ) → Prop
  | _, [] => True
  | self, (fuel, size) :: calls =>
      (∀ pipe below, self.pipe = some pipe →
        ((self.prepare impl noneCryptor deriveAeadSubkey pipe).2.settle impl).pipe = some below →
          InOnePiece impl below self.decryptedData.content.length size) ∧
      AllInOnePiece (self.recv impl noneCryptor deriveAeadSubkey fuel size).2 calls

end

section

variable {impl : PipeImpl P} {stream : P → List UInt8}
  {deriveAeadSubkey : List UInt8 → List UInt8 → List UInt8}

variable (impl stream) in
/-- A receiver that has lost nothing of what the pipe below has handed over. -/
structure Holding (sent returned : List UInt8) (receiver : CryptoPipe P Unit) : Prop where
  wellFormed : receiver.decryptedData.WellFormed
  keySize : receiver.keySize = 0
  isPrefix : returned ++ receiver.decryptedData.content ++ receiver.below stream <+: sent
  whole : Lossless impl stream →
    returned ++ receiver.decryptedData.content ++ receiver.below stream = sent

namespace Holding

variable {sent returned : List UInt8} {self : CryptoPipe P Unit}

theorem of_below (holding : Holding impl stream sent returned self) {pipe : Option P}
    (same : ({ self with pipe } : CryptoPipe P Unit).below stream = self.below stream) :
    Holding impl stream sent returned { self with pipe } :=
  ⟨holding.wellFormed, holding.keySize, by rw [same]; exact holding.isPrefix,
    by rw [same]; exact holding.whole⟩

theorem settle (source : Source impl stream) (holding : Holding impl stream sent returned self) :
    Holding impl stream sent returned (self.settle impl) := by
  rcases CryptoPipe.settle_eq impl self with ⟨pipe, settled, -⟩
  have below := CryptoPipe.below_settle source self
  rw [settled] at below ⊢
  exact holding.of_below below

/-- What a call delivers moves from `decrypted_data` to what has been returned. -/
theorem delivered (holding : Holding impl stream sent returned self) {size : ℤ}
    {bytes : List UInt8} {buffer : Outbuffer}
    (delivers : CryptoPipe.Delivers size self.decryptedData bytes buffer) :
    Holding impl stream sent (returned ++ bytes) { self with decryptedData := buffer } := by
  rcases delivers holding.wellFormed with ⟨wellFormed, content, -⟩
  have isPrefix := holding.isPrefix
  have whole := holding.whole
  rw [content] at isPrefix whole
  exact ⟨wellFormed, holding.keySize, by simpa [CryptoPipe.below] using isPrefix,
    by simpa [CryptoPipe.below] using whole⟩

/-- A read into an empty `decrypted_data` loses nothing. -/
theorem deciphered (holding : Holding impl stream sent returned self) {pipe : Option P}
    {bytes : List UInt8} (nothing : bytes ≠ [] → self.decryptedData.content = [])
    (handed : self.below stream =
      bytes ++ ({ self with pipe } : CryptoPipe P Unit).below stream) :
    let call := ({ self with pipe } : CryptoPipe P Unit).decipherRead noneCryptor bytes
    call.1 = .ok true ∧ call.2.pipe = pipe ∧ Holding impl stream sent returned call.2 ∧
      call.2.decryptedData.content = self.decryptedData.content ++ bytes := by
  have isPrefix := holding.isPrefix
  have whole := holding.whole
  rw [handed] at isPrefix whole
  rcases bytes with _ | ⟨byte, rest⟩
  · exact ⟨rfl, rfl, holding.of_below handed.symm, (List.append_nil _).symm⟩
  · have nil := nothing (by simp)
    rcases @ChunkBuffer.assign_spec _ _ (byte :: rest) (by decide)
      holding.wellFormed (Or.inl (ChunkBuffer.length_chain_le_one holding.wellFormed nil)) with
      ⟨wellFormed, content, -⟩
    have call : ({ self with pipe } : CryptoPipe P Unit).decipherRead noneCryptor (byte :: rest) =
        (.ok true, { self with
          pipe
          decryptedData := self.decryptedData.assign (byte :: rest) }) := by
      simp only [CryptoPipe.decipherRead, noneCryptor, List.length_cons]
      simp [Except.map]
      omega
    rw [nil, List.append_nil] at isPrefix whole
    rw [call, nil]
    refine ⟨rfl, rfl, ⟨wellFormed, holding.keySize, ?_, ?_⟩, content⟩
    · rw [content]
      simpa [CryptoPipe.below] using isPrefix
    · rw [content]
      simpa [CryptoPipe.below] using whole

/-- A pipe below that hands nothing over loses the rest of the stream at most. -/
theorem stopped (source : Source impl stream) (holding : Holding impl stream sent returned self)
    {pipe next : P} (there : self.pipe = some pipe) {size : ℤ} {result : RecvRslt}
    (call : impl.recv pipe size = (result, next)) (other : ∀ bytes, result ≠ .data bytes) :
    Holding impl stream sent returned { self with pipe := some next } := by
  have isPrefix := holding.isPrefix
  have whole := holding.whole
  simp only [CryptoPipe.below, there] at isPrefix whole
  refine ⟨holding.wellFormed, holding.keySize, ?_, fun intact => ?_⟩
  · simp only [CryptoPipe.below]
    rcases source.recv_other call other with same | lost
    · rwa [same]
    · rw [lost, List.append_nil]
      exact (List.prefix_append _ _).trans isPrefix
  · simp only [CryptoPipe.below]
    rw [intact call other]
    exact whole intact

variable (deriveAeadSubkey) in
theorem prepare (source : Source impl stream) (holding : Holding impl stream sent returned self)
    {pipe : P} (there : self.pipe = some pipe) :
    let prepared := self.prepare impl noneCryptor deriveAeadSubkey pipe
    Holding impl stream sent returned prepared.2 ∧
      prepared.2.decryptedData = self.decryptedData ∧ prepared.2.pipe.isSome := by
  rcases call : impl.recv pipe (-self.keySize) with ⟨result, next⟩
  have moved : ∀ salt, result = .data salt →
      Holding impl stream sent returned { self with pipe := some next } := by
    rintro salt rfl
    rcases source.recv_data call with ⟨handed, atMost, -⟩
    have zero := holding.keySize
    have none : salt = [] := by
      have := atMost (by omega)
      exact List.length_eq_zero_iff.mp (by omega)
    rw [none, List.nil_append] at handed
    exact holding.of_below (by simp [CryptoPipe.below, there, handed])
  simp only [CryptoPipe.prepare, noneCryptor, call]
  cases result with
  | data salt =>
      have moved := moved salt rfl
      simp only [Bool.false_eq_true, if_false]
      split <;> exact ⟨moved, rfl, rfl⟩
  | failed => exact ⟨holding.stopped source there call (by simp), rfl, rfl⟩
  | threw exception => exact ⟨holding.stopped source there call (by simp), rfl, rfl⟩
  | blocked => exact ⟨holding.stopped source there call (by simp), rfl, rfl⟩

/-- What a call of `recv` returns is the next of the stream, if it gets it in one piece. -/
theorem recvLoop (source : Source impl stream) (holding : Holding impl stream sent returned self)
    {first : P} (there : self.pipe = some first) {size : ℤ}
    (piece : InOnePiece impl first self.decryptedData.content.length size) (fuel : ℕ) :
    let call := self.recvLoop impl noneCryptor fuel size self.decryptedData.isEmpty
    Holding impl stream sent (returned ++ call.1.bytes) call.2 ∧
      (size < 0 → ∀ bytes, call.1 = .data bytes → (bytes.length : ℤ) = -size) := by
  generalize held : self.decryptedData.content.length = count at piece
  have quiet : ∀ {self : CryptoPipe P Unit} {result : RecvRslt}, (∀ bytes, result ≠ .data bytes) →
      Holding impl stream sent returned self →
      Holding impl stream sent (returned ++ result.bytes) self ∧
        (size < 0 → ∀ bytes, result = .data bytes → (bytes.length : ℤ) = -size) := by
    intro self result other still
    rw [RecvRslt.bytes_eq_nil other, List.append_nil]
    exact ⟨still, fun _ bytes same => absurd same (other bytes)⟩
  -- the reads so far, and what they have left in `decrypted_data`
  let reading : CryptoPipe P Unit → Prop := fun self =>
    Holding impl stream sent returned self ∧ ∃ pipe segments, self.pipe = some pipe ∧
      Reads impl first segments pipe ∧
      self.decryptedData.content.length = count + segments.flatten.length
  have handed : ∀ {self read next : CryptoPipe P Unit} {doRecv : Bool} {bytes : List UInt8}
      {outcome : Except Exception Bool},
      (reading self ∧ (doRecv = true → self.decryptedData.content = [] ∨
        (self.decryptedData.content.length : ℤ) < -size)) →
      self.readPipe impl doRecv = (.data bytes, read) →
      read.decipherRead noneCryptor bytes = (outcome, next) →
      outcome = .ok true ∧ reading next := by
    rintro self read next doRecv bytes outcome
      ⟨⟨holding, pipe, segments, there, reads, length⟩, room⟩ received deciphered
    cases doRecv with
    | false =>
        cases received
        cases deciphered
        exact ⟨rfl, holding, pipe, segments, there, reads, length⟩
    | true =>
        rcases call : impl.recv pipe tempSize with ⟨result, rest⟩
        simp only [CryptoPipe.readPipe, if_true, there, call] at received
        cases received
        have nothing : bytes ≠ [] → self.decryptedData.content = [] := by
          intro nonempty
          rcases room rfl with nil | short
          · exact nil
          · have zero := piece segments bytes rest (.more reads call) nonempty
              (by rw [← length]; exact short)
            exact List.length_eq_zero_iff.mp (by omega)
        rcases source.recv_data call with ⟨next', -⟩
        have step := holding.deciphered nothing (show self.below stream = bytes ++
          ({ self with pipe := some rest } : CryptoPipe P Unit).below stream by
            simpa [CryptoPipe.below, there] using next')
        rw [deciphered] at step
        rcases step with ⟨fine, below, still, content⟩
        refine ⟨fine, still, rest, segments ++ [bytes], below, .more reads call, ?_⟩
        rw [content, List.length_append, length]
        simp [Nat.add_assoc]
  refine CryptoPipe.recvLoop_rule_of_accepts impl noneCryptor
    (fun self doRecv => reading self ∧ (doRecv = true → self.decryptedData.content = [] ∨
      (self.decryptedData.content.length : ℤ) < -size)) reading
    (fun result self => Holding impl stream sent (returned ++ result.bytes) self ∧
      (size < 0 → ∀ bytes, result = .data bytes → (bytes.length : ℤ) = -size))
    (fun still => quiet (by simp) still.1.1) ?_ handed ?_ ?_ fuel ?_
  · rintro self next doRecv result ⟨⟨holding, pipe, segments, there, -⟩, -⟩ received other
    cases doRecv with
    | false =>
        cases received
        exact absurd rfl (other [])
    | true =>
        rcases call : impl.recv pipe tempSize with ⟨outcome, rest⟩
        simp only [CryptoPipe.readPipe, if_true, there, call] at received
        cases received
        exact quiet other (holding.stopped source there call other)
  · intro self still negative missing
    refine ⟨still, fun _ => Or.inr ?_⟩
    have enough := ChunkBuffer.enough_iff still.1.wellFormed (-size).toNat
    rw [missing] at enough
    simp only [Bool.false_eq_true, false_iff] at enough
    omega
  · rintro self bytes buffer ⟨holding, -⟩ delivers
    exact ⟨holding.delivered delivers, fun negative _ => delivers.whole holding.wellFormed negative⟩
  · refine ⟨⟨holding, first, [], there, .none, by simpa using held⟩, fun empty => Or.inl ?_⟩
    exact (ChunkBuffer.isEmpty_iff holding.wellFormed).mp empty

theorem recv (source : Source impl stream) (holding : Holding impl stream sent returned self)
    {size : ℤ} (piece : ∀ pipe below, self.pipe = some pipe →
      ((self.prepare impl noneCryptor deriveAeadSubkey pipe).2.settle impl).pipe = some below →
        InOnePiece impl below self.decryptedData.content.length size) (fuel : ℕ) :
    let call := self.recv impl noneCryptor deriveAeadSubkey fuel size
    Holding impl stream sent (returned ++ call.1.bytes) call.2 ∧
      (size < 0 → ∀ bytes, call.1 = .data bytes → (bytes.length : ℤ) = -size) := by
  simp only [CryptoPipe.recv]
  cases there : self.pipe with
  | none => exact ⟨by simpa [RecvRslt.bytes] using holding, by simp⟩
  | some pipe =>
      rcases holding.prepare deriveAeadSubkey source there with ⟨ready, same, isOpen⟩
      have piece := piece pipe
      simp only
      generalize self.prepare impl noneCryptor deriveAeadSubkey pipe = prepared
        at piece ready same isOpen ⊢
      rcases prepared with ⟨result, next⟩
      simp only at piece ready same isOpen
      rcases CryptoPipe.settle_eq impl next with ⟨below, settled, kept⟩
      rcases Option.isSome_iff_exists.mp (kept isOpen) with ⟨first, open'⟩
      have piece := piece first there (by rw [settled, open'])
      cases result with
      | data salt =>
          rw [← same] at piece
          have settledData := CryptoPipe.settle_decryptedData impl next
          have loop := (ready.settle source).recvLoop source (by rw [settled, open'])
            (by rw [settledData]; exact piece) fuel
          rw [settledData] at loop
          exact loop
      | failed => exact ⟨by simpa [RecvRslt.bytes] using ready, by simp⟩
      | threw exception => exact ⟨by simpa [RecvRslt.bytes] using ready, by simp⟩
      | blocked => exact ⟨by simpa [RecvRslt.bytes] using ready, by simp⟩

theorem recvAll (source : Source impl stream) (holding : Holding impl stream sent returned self)
    {calls : List (ℕ × ℤ)} (pieces : AllInOnePiece impl deriveAeadSubkey self calls) :
    let run := self.recvAll impl noneCryptor deriveAeadSubkey calls
    Holding impl stream sent (returned ++ run.1) run.2 := by
  induction calls generalizing self returned with
  | nil => simpa [CryptoPipe.recvAll] using holding
  | cons call calls ih =>
      rcases call with ⟨fuel, size⟩
      rcases pieces with ⟨piece, rest⟩
      have run := ih (holding.recv source piece fuel).1 rest
      simp only [List.append_assoc] at run
      exact run

end Holding

/-- A sender with nothing held back. -/
structure Passing (taken : P → List UInt8) (plains : List (List UInt8))
    (sender : CryptoPipe P Unit) : Prop where
  isOpen : sender.pipe.isSome
  held : sender.encryptedData = []
  taken : sender.below taken = plains.flatten

theorem Passing.sendAll {taken : P → List UInt8} (sink : Sink impl taken)
    (accepts : ∀ pipe bytes, (impl.send pipe (some bytes)).1 = .ok ∨
      (impl.send pipe (some bytes)).1 = .bufferfull)
    {before : List (List UInt8)} {self : CryptoPipe P Unit} (passing : Passing taken before self)
    (plains : List (List UInt8)) :
    Passing taken (before ++ plains) (self.sendAll impl noneCryptor plains) := by
  induction plains generalizing self before with
  | nil => simpa [CryptoPipe.sendAll] using passing
  | cons plain plains ih =>
      rcases Option.isSome_iff_exists.mp passing.isOpen with ⟨pipe, below⟩
      have sent := sink.send_data rfl (accepts pipe plain)
      have known := passing.taken
      simp only [CryptoPipe.below, below] at known
      have call : (self.send impl noneCryptor (some plain)).2 = { self with
          pipe := some (impl.send pipe (some plain)).2
          encryptedData := [] } := by
        simp only [CryptoPipe.send, below, noneCryptor]
      have step : Passing taken (before ++ [plain])
          (self.send impl noneCryptor (some plain)).2 := by
        rw [call]
        refine ⟨rfl, rfl, ?_⟩
        simp only [CryptoPipe.below]
        rw [sent, known]
        simp
      have rest := ih step
      rwa [List.append_assoc] at rest

/-- The round trip without encryption, for calls of `recv` that get their bytes in one
piece. -/
theorem unencrypted_round_trip {Q : Type} {out : PipeImpl Q} {taken : Q → List UInt8}
    (sink : Sink out taken) (accepts : ∀ pipe bytes, (out.send pipe (some bytes)).1 = .ok ∨
      (out.send pipe (some bytes)).1 = .bufferfull)
    (source : Source impl stream) {masterKey : List UInt8} {plains : List (List UInt8)}
    {outPipe : Q} (nothing : taken outPipe = []) {inPipe : P}
    (connected : stream inPipe = ((CryptoPipe.create noneCryptor outPipe deriveAeadSubkey masterKey
      []).sendAll out noneCryptor plains).below taken)
    {calls : List (ℕ × ℤ)} (pieces : AllInOnePiece impl deriveAeadSubkey
      (.create noneCryptor inPipe deriveAeadSubkey masterKey []) calls) :
    let run := (CryptoPipe.create noneCryptor inPipe deriveAeadSubkey masterKey []).recvAll impl
      noneCryptor deriveAeadSubkey calls
    run.1 <+: plains.flatten ∧
      run.1 ++ run.2.decryptedData.content ++ run.2.below stream <+: plains.flatten ∧
      (Lossless impl stream →
        run.1 ++ run.2.decryptedData.content ++ run.2.below stream = plains.flatten) ∧
      ∀ fuel size, AllInOnePiece impl deriveAeadSubkey run.2 [(fuel, size)] → size < 0 →
        ∀ bytes, (run.2.recv impl noneCryptor deriveAeadSubkey fuel size).1 = .data bytes →
          (bytes.length : ℤ) = -size ∧ run.1 ++ bytes <+: plains.flatten := by
  have created : Passing taken [] (.create noneCryptor outPipe deriveAeadSubkey masterKey []) :=
    ⟨rfl, rfl, nothing⟩
  have wire := (created.sendAll sink accepts plains).taken
  rw [← connected, List.nil_append] at wire
  have start : Holding impl stream plains.flatten []
      (.create noneCryptor inPipe deriveAeadSubkey masterKey []) := by
    refine ⟨ChunkBuffer.wellFormed_empty, rfl, ?_, fun _ => ?_⟩
    · simp [CryptoPipe.create, CryptoPipe.below, wire]
    · simp [CryptoPipe.create, CryptoPipe.below, wire]
  have shorter : ∀ {returned : List UInt8} {receiver : CryptoPipe P Unit},
      Holding impl stream plains.flatten returned receiver → returned <+: plains.flatten := by
    intro returned receiver holding
    have isPrefix := holding.isPrefix
    rw [List.append_assoc] at isPrefix
    exact (List.prefix_append _ _).trans isPrefix
  have holding := start.recvAll source pieces
  simp only [List.nil_append] at holding
  refine ⟨shorter holding, holding.isPrefix, holding.whole, ?_⟩
  intro fuel size piece negative bytes call
  rcases holding.recv source piece.1 fuel with ⟨next, exactly⟩
  rw [call] at next
  exact ⟨exactly negative bytes call, shorter next⟩

end

/-- A receiver without encryption, and two segments for it to receive. -/
def noneReceiver : CryptoPipe MemoryPipe Unit :=
  .create noneCryptor { incoming := [[1, 2], [3, 4]] } (fun _ _ => []) [] []

theorem unencrypted_round_trip_memory :
    (noneReceiver.recvAll memoryPipe noneCryptor (fun _ _ => []) [(1, 1), (1, -1)]).1 <+:
      [1, 2, 3, 4] :=
  (unencrypted_round_trip sink_memoryPipe (fun _ _ => Or.inl rfl) source_memoryPipe
    (show MemoryPipe.outgoing {} = [] from rfl)
    (show MemoryPipe.stream { incoming := [[1, 2], [3, 4]] } = ((CryptoPipe.create noneCryptor
      ({} : MemoryPipe) (fun _ _ => []) [] []).sendAll memoryPipe noneCryptor
        [[1], [2, 3, 4]]).below MemoryPipe.outgoing from rfl)
    (show AllInOnePiece memoryPipe (fun _ _ => []) noneReceiver [(1, 1), (1, -1)] from
      ⟨fun _ _ _ _ => inOnePiece_of_held (by decide),
        fun _ _ _ _ => inOnePiece_of_held (by decide), trivial⟩)).1

/-- Two bytes asked for together with one byte left over: the byte left over is lost. -/
theorem loss_of_leftover :
    ¬∀ calls, (noneReceiver.recvAll memoryPipe noneCryptor (fun _ _ => []) calls).1 <+:
      [1, 2, 3, 4] := by
  intro carries
  have returned : (noneReceiver.recvAll memoryPipe noneCryptor (fun _ _ => [])
      [(1, 1), (2, -2)]).1 = [1, 3, 4] := by decide
  have isPrefix := carries [(1, 1), (2, -2)]
  rw [returned] at isPrefix
  revert isPrefix
  decide

end Imconee.Shadowsocks
