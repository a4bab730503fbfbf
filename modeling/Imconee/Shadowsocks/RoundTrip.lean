import Imconee.Shadowsocks.Authenticity
import Imconee.Shadowsocks.Segmentation

/-!
# Round trip

What is sent through one `crypto_pipe` comes out of the other. The sender keeps to one
invariant: what the pipe below has taken and what is held back are the salt and the frames
of everything sent. The receiver keeps to another: what has been returned, what
`decrypted_data` holds and what the decoder will make of the bytes to come are the
plaintext.
-/

set_option autoImplicit false

namespace Imconee.Shadowsocks

open Imconee.Lib Imconee.Botan Imconee.Netkit Imconee.Tools

variable {State P : Type}

/-- The frames of everything sent are those of these payloads. -/
def framed (plains : List (List UInt8)) : List (List UInt8) := plains.flatMap payloadsOf

@[simp]
theorem flatten_framed (plains : List (List UInt8)) : (framed plains).flatten = plains.flatten := by
  induction plains with
  | nil => rfl
  | cons plain plains ih =>
      rw [framed, List.flatMap_cons, List.flatten_append, flatten_payloadsOf, ← framed, ih]
      rfl

theorem wellFormed_framed {plains : List (List UInt8)} (nonempty : [] ∉ plains) :
    ∀ payload ∈ framed plains, payload.length ≤ aeadChunkSizeMask ∧ payload ≠ [] := by
  intro payload member
  rcases List.mem_flatMap.mp member with ⟨plain, plainMem, member⟩
  rcases mem_payloadsLoop member with ⟨small, positive⟩
  exact ⟨small, positive fun nil => nonempty (nil ▸ plainMem)⟩

/-- The first nonce of a session. -/
def firstNonce (nonceSize : ℕ) : List UInt8 := List.replicate nonceSize 0

section

variable {impl : PipeImpl P} {taken : P → List UInt8} {aead : Aead State} {nonceSize : ℕ}

variable (taken aead nonceSize) in
/-- A sender under a key that has sent some plaintexts. -/
structure Sending (key salt : List UInt8) (plains : List (List UInt8))
    (sender : CryptoPipe P (AeadCryptor State)) : Prop where
  isOpen : sender.pipe.isSome
  mode : sender.crypto.encryptor.mode = aead.encryption key
  nonce : sender.crypto.encryptor.iv = nonceAfter (firstNonce nonceSize) (framed plains)
  stream : sender.below taken ++ sender.encryptedData =
    salt ++ frames aead key (firstNonce nonceSize) (framed plains)
  held : if plains = [] then sender.below taken = [] else sender.encryptedData = []

theorem sending_create {deriveAeadSubkey : List UInt8 → List UInt8 → List UInt8}
    {masterKey salt : List UInt8} {pipe : P} (nothing : taken pipe = []) :
    Sending taken aead nonceSize (deriveAeadSubkey masterKey salt) salt []
      (.create (aeadCryptor aead nonceSize) pipe deriveAeadSubkey masterKey salt) where
  isOpen := rfl
  mode := rfl
  nonce := rfl
  stream := by simp [CryptoPipe.create, CryptoPipe.below, nothing, framed, frames]
  held := by simp [CryptoPipe.create, CryptoPipe.below, nothing]

/-- One call of `send`, if the pipe below takes what it is given. -/
theorem Sending.send (sink : Sink impl taken)
    (accepts : ∀ pipe bytes, (impl.send pipe (some bytes)).1 = .ok ∨
      (impl.send pipe (some bytes)).1 = .bufferfull)
    {key salt : List UInt8} {plains : List (List UInt8)}
    {self : CryptoPipe P (AeadCryptor State)}
    (sending : Sending taken aead nonceSize key salt plains self) (plain : List UInt8) :
    Sending taken aead nonceSize key salt (plains ++ [plain])
        (self.send impl (aeadCryptor aead nonceSize) (some plain)).2 ∧
      (self.send impl (aeadCryptor aead nonceSize) (some plain)).2.below taken =
        self.below taken ++ (self.encryptedData ++
          frames aead key self.crypto.encryptor.iv (payloadsOf plain)) := by
  rcases Option.isSome_iff_exists.mp sending.isOpen with ⟨pipe, below⟩
  rcases encipher_spec sending.mode plain self.encryptedData with
    ⟨cipher, ⟨value, result⟩, encryptor⟩
  have sent := sink.send_data rfl (accepts pipe (encipher self.crypto.encryptor plain
    self.encryptedData).cipher)
  have call : (self.send impl (aeadCryptor aead nonceSize) (some plain)).2 = { self with
      pipe := some (impl.send pipe (some (encipher self.crypto.encryptor plain
        self.encryptedData).cipher)).2
      crypto := { self.crypto with
        encryptor := (encipher self.crypto.encryptor plain self.encryptedData).encryptor }
      encryptedData := [] } := by
    simp only [CryptoPipe.send, below, aeadCryptor, result]
  have stream := sending.stream
  have taken' : (self.send impl (aeadCryptor aead nonceSize) (some plain)).2.below taken =
      self.below taken ++ (self.encryptedData ++
        frames aead key self.crypto.encryptor.iv (payloadsOf plain)) := by
    rw [call]
    simp only [CryptoPipe.below, below]
    rw [sent, cipher]
  have frame : framed (plains ++ [plain]) = framed plains ++ payloadsOf plain := by
    simp [framed]
  refine ⟨⟨by rw [call]; rfl, ?_, ?_, ?_, ?_⟩, taken'⟩
  · rw [call, encryptor]
    exact sending.mode
  · rw [call, encryptor, frame, nonceAfter_append, ← sending.nonce]
  · rw [taken', call, ← List.append_assoc, stream, sending.nonce, frame, frames_append]
    simp
  · rw [if_neg (by simp), call]

theorem Sending.sendAll (sink : Sink impl taken)
    (accepts : ∀ pipe bytes, (impl.send pipe (some bytes)).1 = .ok ∨
      (impl.send pipe (some bytes)).1 = .bufferfull)
    {key salt : List UInt8} {before : List (List UInt8)}
    {self : CryptoPipe P (AeadCryptor State)}
    (sending : Sending taken aead nonceSize key salt before self) (plains : List (List UInt8)) :
    Sending taken aead nonceSize key salt (before ++ plains)
      (self.sendAll impl (aeadCryptor aead nonceSize) plains) := by
  induction plains generalizing self before with
  | nil => simpa [CryptoPipe.sendAll] using sending
  | cons plain plains ih =>
      have step := ih (sending.send sink accepts plain).1
      rwa [List.append_assoc] at step

/-- What the pipe below has taken of a session: nothing yet, or the salt and the frames. -/
theorem Sending.below_eq {key salt : List UInt8} {plains : List (List UInt8)}
    {self : CryptoPipe P (AeadCryptor State)}
    (sending : Sending taken aead nonceSize key salt plains self) :
    self.below taken = salt ++ frames aead key (firstNonce nonceSize) (framed plains) ∨
      self.below taken = [] ∧ plains = [] := by
  have held := sending.held
  split at held
  · rename_i none
    exact Or.inr ⟨held, none⟩
  · have stream := sending.stream
    rw [held, List.append_nil] at stream
    exact Or.inl stream

end

namespace AeadDecryptor

variable {aead : Aead State} {key : List UInt8} {cryptor : AeadDecryptor State}

theorem nonce_position (cryptor : AeadDecryptor State) :
    cryptor.position.nonce = cryptor.decryptor.iv := by
  rw [position]
  split <;> rfl

theorem length_unprocessed (ready : cryptor.Ready aead key) :
    cryptor.unprocessed.data.length = cryptor.position.taken + (cryptor.pending 0).length := by
  have kept : cryptor.kept = cryptor.position.taken := by
    rw [AeadDecryptor.kept, position]
    split <;> rfl
  have inside := ready.inside
  rw [pending, List.length_drop, ← kept]
  omega

end AeadDecryptor

section

variable {aead : Aead State} {key : List UInt8} {nonceSize : ℕ}

variable (aead key nonceSize) in
/-- The receiver of a session that has just set its key up. -/
def freshReceiver : AeadDecryptor State := { decryptor := .setup (aead.decryption key) nonceSize }

theorem freshReceiver_ready : (freshReceiver aead key nonceSize).Ready aead key :=
  ⟨rfl, SkipBuf.wellFormed_empty, Nat.le_refl _⟩

theorem freshReceiver_waiting : Waiting aead key (freshReceiver aead key nonceSize) := by
  have nothing : (freshReceiver aead key nonceSize).pending 0 = [] := rfl
  rw [Waiting, nothing]
  exact Decoder.look_nil aead key _

/-- It makes the payloads of all the frames of a session. -/
theorem decodingWith_freshReceiver {payloads : List (List UInt8)}
    (small : ∀ payload ∈ payloads, payload.length ≤ aeadChunkSizeMask ∧ payload ≠ []) :
    (freshReceiver aead key nonceSize).decodingWith aead key
        (frames aead key (firstNonce nonceSize) payloads) =
      ⟨.size (nonceAfter (firstNonce nonceSize) payloads), [], payloads.flatten, none⟩ := by
  have all := drain_frames aead key small (firstNonce nonceSize) []
  rw [Reader.drain_of_more (Decoder.look_nil aead key _), List.append_nil, Progress.after,
    List.append_nil] at all
  exact all

/-- Calls of `decipher` on the frames of a session as far as they have come: none fails, the
payloads of complete frames are appended, and `unprocessed` holds less than a frame. -/
theorem feed_frames {plain : Outbuffer} (wellFormed : plain.WellFormed)
    {payloads : List (List UInt8)}
    (small : ∀ payload ∈ payloads, payload.length ≤ aeadChunkSizeMask ∧ payload ≠ [])
    {segments : List (List UInt8)}
    (isPrefix : segments.flatten <+: frames aead key (firstNonce nonceSize) payloads) :
    let fed := feed (freshReceiver aead key nonceSize) plain segments
    fed.ending = .running ∧ ∃ complete rest, payloads = complete ++ rest ∧
      fed.plain.content = plain.content ++ complete.flatten ∧
      segments.flatten.length = (frames aead key (firstNonce nonceSize) complete).length +
        fed.cryptor.unprocessed.data.length ∧
      (rest = [] → fed.cryptor.unprocessed.data = []) ∧
      ∀ next ∈ rest.head?, fed.cryptor.unprocessed.data.length < lengthOfFrame next := by
  rcases drain_prefix aead key small isPrefix with
    ⟨complete, rest, started, whole, front, halted, output, taken, ending, bound⟩
  rcases feed_of_running freshReceiver_ready freshReceiver_waiting wellFormed halted with
    ⟨running, -, content, ready, position, pending⟩
  have unprocessed : (feed (freshReceiver aead key nonceSize) plain
      segments).cryptor.unprocessed.data.length = started.length := by
    rw [AeadDecryptor.length_unprocessed ready, position, pending, ← taken]
    rfl
  refine ⟨running, complete, rest, whole, ?_, ?_, ?_, ?_⟩
  · rw [content, ← output]
    rfl
  · rw [front, List.length_append, unprocessed]
  · intro none
    rw [← List.length_eq_zero_iff, unprocessed, ending none, List.length_nil]
  · intro next head
    rw [unprocessed]
    exact bound next head

/-- Calls of `decipher` on all frames of a session, in any segments. -/
theorem feed_all_frames {plain : Outbuffer} (wellFormed : plain.WellFormed)
    {payloads : List (List UInt8)}
    (small : ∀ payload ∈ payloads, payload.length ≤ aeadChunkSizeMask ∧ payload ≠ [])
    {segments : List (List UInt8)}
    (whole : segments.flatten = frames aead key (firstNonce nonceSize) payloads) :
    let fed := feed (freshReceiver aead key nonceSize) plain segments
    fed.ending = .running ∧ fed.plain.content = plain.content ++ payloads.flatten := by
  have decoding : (freshReceiver aead key nonceSize).decodingWith aead key segments.flatten =
      ⟨.size (nonceAfter (firstNonce nonceSize) payloads), [], payloads.flatten, none⟩ := by
    rw [whole, decodingWith_freshReceiver small]
  rcases feed_of_running freshReceiver_ready freshReceiver_waiting wellFormed (congrArg
    Progress.halted decoding) with ⟨running, -, content, -⟩
  exact ⟨running, by rw [content, decoding]⟩

end

section

variable {impl : PipeImpl P} {stream : P → List UInt8} {aead : Aead State} {nonceSize : ℕ}

variable (impl stream aead) in
/-- A receiver whose key is set up and that has returned some bytes: these, what it has
decrypted and what the bytes to come decode to are the plaintext, or as much of it as the
pipe below has not lost. -/
structure Decrypting (key plaintext returned : List UInt8)
    (receiver : CryptoPipe P (AeadCryptor State)) (cryptor : AeadDecryptor State) : Prop where
  isOpen : receiver.pipe.isSome
  decryptor : receiver.crypto.decryptor = some cryptor
  wellFormed : receiver.decryptedData.WellFormed
  ready : cryptor.Ready aead key
  waiting : Waiting aead key cryptor
  isInit : cryptor.decryptor.isInit = true
  running : (cryptor.decodingWith aead key (receiver.below stream)).halted = none
  isPrefix : returned ++ receiver.decryptedData.content ++
    (cryptor.decodingWith aead key (receiver.below stream)).output <+: plaintext
  whole : Lossless impl stream → returned ++ receiver.decryptedData.content ++
    (cryptor.decodingWith aead key (receiver.below stream)).output = plaintext

theorem decodingWith_nil {key : List UInt8} {cryptor : AeadDecryptor State}
    (waiting : Waiting aead key cryptor) : cryptor.decodingWith aead key [] =
      ⟨cryptor.position, cryptor.pending 0, [], none⟩ := by
  rw [AeadDecryptor.decodingWith, List.append_nil, Reader.drain_of_more waiting]

namespace Decrypting

variable {key plaintext returned : List UInt8}
  {self : CryptoPipe P (AeadCryptor State)} {cryptor : AeadDecryptor State}

/-- What changes the pipe below but not the stream it hands over. -/
theorem of_below (decrypting : Decrypting impl stream aead key plaintext returned self cryptor)
    {pipe : Option P} (isOpen : pipe.isSome)
    (same : ({ self with pipe } : CryptoPipe P (AeadCryptor State)).below stream =
      self.below stream) :
    Decrypting impl stream aead key plaintext returned { self with pipe } cryptor where
  isOpen := isOpen
  decryptor := decrypting.decryptor
  wellFormed := decrypting.wellFormed
  ready := decrypting.ready
  waiting := decrypting.waiting
  isInit := decrypting.isInit
  running := by rw [same]; exact decrypting.running
  isPrefix := by rw [same]; exact decrypting.isPrefix
  whole := by rw [same]; exact decrypting.whole

/-- What a call delivers moves from `decrypted_data` to what has been returned. -/
theorem delivered (decrypting : Decrypting impl stream aead key plaintext returned self cryptor)
    {size : ℤ} {bytes : List UInt8} {buffer : Outbuffer}
    (delivers : CryptoPipe.Delivers size self.decryptedData bytes buffer) :
    Decrypting impl stream aead key plaintext (returned ++ bytes)
      { self with decryptedData := buffer } cryptor := by
  rcases delivers decrypting.wellFormed with ⟨wellFormed, content, -⟩
  have isPrefix := decrypting.isPrefix
  have whole := decrypting.whole
  rw [content] at isPrefix whole
  exact ⟨decrypting.isOpen, decrypting.decryptor, wellFormed, decrypting.ready,
    decrypting.waiting, decrypting.isInit, decrypting.running,
    by simpa [CryptoPipe.below] using isPrefix, by simpa [CryptoPipe.below] using whole⟩

variable (nonceSize) in
/-- A call of `decipher` on the next bytes of the stream never fails. -/
theorem deciphered (decrypting : Decrypting impl stream aead key plaintext returned self cryptor)
    {pipe : Option P} (isOpen : pipe.isSome) {bytes : List UInt8}
    (handed : self.below stream =
      bytes ++ ({ self with pipe } : CryptoPipe P (AeadCryptor State)).below stream) :
    let call := ({ self with pipe } : CryptoPipe P (AeadCryptor State)).decipherRead
      (aeadCryptor aead nonceSize) bytes
    call.1 = .ok true ∧
      ∃ cryptor', Decrypting impl stream aead key plaintext returned call.2 cryptor' := by
  have running := decrypting.running
  have isPrefix := decrypting.isPrefix
  have whole := decrypting.whole
  rw [handed] at running isPrefix whole
  rcases bytes with _ | ⟨byte, rest⟩
  · exact ⟨rfl, cryptor, decrypting.of_below isOpen handed.symm⟩
  · generalize bytesEq : byte :: rest = bytes at handed running isPrefix whole
    have some : 0 < bytes.length := by simp [← bytesEq]
    have first : (cryptor.decodingWith aead key bytes).halted = none := by
      cases halted : (cryptor.decodingWith aead key bytes).halted with
      | none => rfl
      | some refusal =>
          rw [AeadDecryptor.halted_append halted] at running
          cases running
    have split := AeadDecryptor.decodingWith_append decrypting.ready first
      (({ self with pipe } : CryptoPipe P (AeadCryptor State)).below stream)
    rcases AeadDecryptor.run_of_authentic decrypting.ready (Or.inl first) with ⟨result, appended⟩
    rcases AeadDecryptor.decipher_content cryptor decrypting.wellFormed bytes with
      ⟨wellFormed, content⟩
    have spec := AeadDecryptor.run_spec decrypting.ready bytes
    rw [split] at running isPrefix whole
    have call : ({ self with pipe } : CryptoPipe P (AeadCryptor State)).decipherRead
        (aeadCryptor aead nonceSize) bytes = (.ok true,
          { self with
            pipe
            crypto := { self.crypto with decryptor := Option.some (cryptor.run bytes).cryptor }
            decryptedData := (cryptor.decipher self.decryptedData bytes).2.1 }) := by
      simp only [CryptoPipe.decipherRead, some, if_true, aeadCryptor, decrypting.decryptor]
      simp [AeadDecryptor.decipher, result, Except.map]
    have isInit : (cryptor.run bytes).cryptor.decryptor.isInit = true := by
      have counts := decrypting.isInit
      rcases spec.settles (Or.inl first) with ⟨position, -⟩
      have nonce := congrArg Decoder.nonce position
      rw [AeadDecryptor.nonce_position, AeadDecryptor.resting, first] at nonce
      simp only [KeyedFilter.isInit, decide_eq_true_eq] at counts ⊢
      rw [nonce, AeadDecryptor.decodingWith, Decoder.length_nonce_drain,
        AeadDecryptor.nonce_position]
      exact counts
    rw [call]
    refine ⟨rfl, _, isOpen, rfl, wellFormed, spec.ready,
      AeadDecryptor.waiting_run decrypting.ready first, isInit, running, ?_, ?_⟩
    · rw [content, appended]
      simpa [CryptoPipe.below] using isPrefix
    · rw [content, appended]
      simpa [CryptoPipe.below] using whole

variable (nonceSize) in
theorem deciphered_read (source : Source impl stream)
    (decrypting : Decrypting impl stream aead key plaintext returned self cryptor)
    {read : CryptoPipe P (AeadCryptor State)} {doRecv : Bool} {bytes : List UInt8}
    (received : self.readPipe impl doRecv = (.data bytes, read)) :
    (read.decipherRead (aeadCryptor aead nonceSize) bytes).1 = .ok true ∧
      ∃ cryptor', Decrypting impl stream aead key plaintext returned
        (read.decipherRead (aeadCryptor aead nonceSize) bytes).2 cryptor' := by
  rcases CryptoPipe.readPipe_data source received with ⟨pipe, rfl, isOpen, handed⟩
  exact decrypting.deciphered nonceSize (isOpen decrypting.isOpen) handed

theorem settle (source : Source impl stream)
    (decrypting : Decrypting impl stream aead key plaintext returned self cryptor) :
    Decrypting impl stream aead key plaintext returned (self.settle impl) cryptor := by
  rcases CryptoPipe.settle_eq impl self with ⟨pipe, settled, isOpen⟩
  have below := CryptoPipe.below_settle source self
  rw [settled] at below ⊢
  exact decrypting.of_below (isOpen decrypting.isOpen) below

/-- A read that hands nothing over loses the rest of the stream at most. -/
theorem stopped (source : Source impl stream)
    (decrypting : Decrypting impl stream aead key plaintext returned self cryptor)
    {next : CryptoPipe P (AeadCryptor State)} {doRecv : Bool} {result : RecvRslt}
    (received : self.readPipe impl doRecv = (result, next))
    (other : ∀ bytes, result ≠ .data bytes) :
    Decrypting impl stream aead key plaintext returned next cryptor := by
  simp only [CryptoPipe.readPipe] at received
  split at received
  · rcases Option.isSome_iff_exists.mp decrypting.isOpen with ⟨pipe, there⟩
    rcases call : impl.recv pipe tempSize with ⟨outcome, rest⟩
    simp only [there, call] at received
    cases received
    rcases source.recv_other call other with same | lost
    · exact decrypting.of_below rfl (by simpa [CryptoPipe.below, there] using same)
    · have nothing : ({ self with pipe := some rest } :
          CryptoPipe P (AeadCryptor State)).below stream = [] := lost
      have isPrefix := decrypting.isPrefix
      refine ⟨rfl, decrypting.decryptor, decrypting.wellFormed, decrypting.ready,
        decrypting.waiting, decrypting.isInit, ?_, ?_, fun intact => ?_⟩
      · rw [nothing, decodingWith_nil decrypting.waiting]
      · rw [nothing, decodingWith_nil decrypting.waiting, List.append_nil]
        exact (List.prefix_append _ _).trans isPrefix
      · have same := intact call other
        have whole := decrypting.whole intact
        simp only [CryptoPipe.below, there] at whole ⊢
        rw [same]
        exact whole
  · cases received
    exact absurd rfl (other [])

/-- What a call of `recv` returns is the next of the plaintext. -/
theorem recvLoop (source : Source impl stream)
    (decrypting : Decrypting impl stream aead key plaintext returned self cryptor)
    (fuel : ℕ) (size : ℤ) (doRecv : Bool) :
    let call := (self.settle impl).recvLoop impl (aeadCryptor aead nonceSize) fuel size doRecv
    (∃ cryptor', Decrypting impl stream aead key plaintext (returned ++ call.1.bytes) call.2
      cryptor') ∧ (size < 0 → ∀ bytes, call.1 = .data bytes → (bytes.length : ℤ) = -size) := by
  have quiet : ∀ {self : CryptoPipe P (AeadCryptor State)} {result : RecvRslt},
      (∀ bytes, result ≠ .data bytes) →
      (∃ cryptor, Decrypting impl stream aead key plaintext returned self cryptor) →
      (∃ cryptor, Decrypting impl stream aead key plaintext (returned ++ result.bytes) self
        cryptor) ∧ (size < 0 → ∀ bytes, result = .data bytes → (bytes.length : ℤ) = -size) := by
    intro self result other still
    rw [RecvRslt.bytes_eq_nil other, List.append_nil]
    exact ⟨still, fun _ bytes same => absurd same (other bytes)⟩
  have handed : ∀ {self read next : CryptoPipe P (AeadCryptor State)} {doRecv : Bool}
      {bytes : List UInt8} {outcome : Except Exception Bool},
      (∃ cryptor, Decrypting impl stream aead key plaintext returned self cryptor) →
      self.readPipe impl doRecv = (.data bytes, read) →
      read.decipherRead (aeadCryptor aead nonceSize) bytes = (outcome, next) →
      outcome = .ok true ∧
        ∃ cryptor, Decrypting impl stream aead key plaintext returned next cryptor := by
    rintro self read next doRecv bytes outcome ⟨cryptor, decrypting⟩ received deciphered
    have call := decrypting.deciphered_read nonceSize source received
    rwa [deciphered] at call
  refine CryptoPipe.recvLoop_rule_of_accepts impl (aeadCryptor aead nonceSize)
    (fun self _ => ∃ cryptor, Decrypting impl stream aead key plaintext returned self cryptor)
    (fun self => ∃ cryptor, Decrypting impl stream aead key plaintext returned self cryptor)
    (fun result self => (∃ cryptor, Decrypting impl stream aead key plaintext
      (returned ++ result.bytes) self cryptor) ∧
        (size < 0 → ∀ bytes, result = .data bytes → (bytes.length : ℤ) = -size))
    (fun still => quiet (by simp) still) ?_ handed (fun still _ _ => still) ?_ fuel
    ⟨cryptor, decrypting.settle source⟩
  · rintro self next doRecv result ⟨cryptor, decrypting⟩ received other
    exact quiet other ⟨cryptor, decrypting.stopped source received other⟩
  · rintro self bytes buffer ⟨cryptor, decrypting⟩ delivers
    exact ⟨⟨cryptor, decrypting.delivered delivers⟩,
      fun negative _ => delivers.whole decrypting.wellFormed negative⟩

end Decrypting

variable (impl stream aead nonceSize) in
/-- A receiver that has not read the salt of its peer. -/
structure Salted (masterKey salt : List UInt8)
    (deriveAeadSubkey : List UInt8 → List UInt8 → List UInt8) (payloads : List (List UInt8))
    (receiver : CryptoPipe P (AeadCryptor State)) : Prop where
  isOpen : receiver.pipe.isSome
  decryptor : receiver.crypto.decryptor = none
  wellFormed : receiver.decryptedData.WellFormed
  content : receiver.decryptedData.content = []
  sameKey : receiver.masterKey = masterKey
  keySize : receiver.keySize = salt.length
  wire : receiver.below stream = salt ++
      frames aead (deriveAeadSubkey masterKey salt) (firstNonce nonceSize) payloads ∨
    receiver.below stream = [] ∧ (Lossless impl stream → payloads = [])

section

variable {masterKey salt : List UInt8}
  {deriveAeadSubkey : List UInt8 → List UInt8 → List UInt8} {payloads : List (List UInt8)}
  {self : CryptoPipe P (AeadCryptor State)}

theorem Salted.stopped (source : Source impl stream)
    (salted : Salted impl stream aead nonceSize masterKey salt deriveAeadSubkey payloads self)
    {pipe next : P} (there : self.pipe = some pipe) {result : RecvRslt}
    (call : impl.recv pipe (-self.keySize) = (result, next))
    (other : ∀ bytes, result ≠ .data bytes) :
    Salted impl stream aead nonceSize masterKey salt deriveAeadSubkey payloads
      { self with pipe := some next } := by
  have wire := salted.wire
  simp only [CryptoPipe.below, there] at wire
  refine ⟨rfl, salted.decryptor, salted.wellFormed, salted.content, salted.sameKey,
    salted.keySize, ?_⟩
  simp only [CryptoPipe.below]
  rcases source.recv_other call other with same | lost
  · rw [same]
    exact wire
  · refine Or.inr ⟨lost, fun intact => ?_⟩
    have same := intact call other
    rw [← same, lost] at wire
    rcases wire with full | ⟨-, none⟩
    · exact frames_eq_nil aead _ (List.append_eq_nil_iff.mp full.symm).2
    · exact none intact

/-- A call that returns bytes: they are the salt, and what is left are the frames. -/
theorem Salted.handed (source : Source impl stream)
    (salted : Salted impl stream aead nonceSize masterKey salt deriveAeadSubkey payloads self)
    {pipe next : P} (there : self.pipe = some pipe) {bytes : List UInt8}
    (call : impl.recv pipe (-self.keySize) = (.data bytes, next)) :
    bytes = salt ∧ (stream next = frames aead (deriveAeadSubkey masterKey salt)
      (firstNonce nonceSize) payloads ∨
        stream next = [] ∧ (Lossless impl stream → payloads = [])) := by
  have wire := salted.wire
  have keySize := salted.keySize
  simp only [CryptoPipe.below, there] at wire
  rcases source.recv_data call with ⟨handed, atMost, exactly⟩
  have length : bytes.length = salt.length := by
    by_cases zero : self.keySize = 0
    · have := atMost (by omega)
      omega
    · have := exactly (by omega)
      omega
  rw [handed] at wire
  rcases wire with full | ⟨lost, why⟩
  · rcases List.append_inj full length with ⟨salt', rest⟩
    exact ⟨salt', Or.inl rest⟩
  · rcases List.append_eq_nil_iff.mp lost with ⟨none, rest⟩
    rw [none, List.length_nil] at length
    exact ⟨by rw [none, List.length_eq_zero_iff.mp length.symm], Or.inr ⟨rest, why⟩⟩

theorem Salted.prepare (source : Source impl stream)
    (counts : 0 < nonceSize)
    (small : ∀ payload ∈ payloads, payload.length ≤ aeadChunkSizeMask ∧ payload ≠ [])
    (salted : Salted impl stream aead nonceSize masterKey salt deriveAeadSubkey payloads self)
    {pipe : P} (there : self.pipe = some pipe) :
    let prepared := self.prepare impl (aeadCryptor aead nonceSize) deriveAeadSubkey pipe
    (∃ bytes, prepared.1 = .data bytes ∧
      Decrypting impl stream aead (deriveAeadSubkey masterKey salt) payloads.flatten []
        prepared.2 (freshReceiver aead (deriveAeadSubkey masterKey salt) nonceSize)) ∨
    ((∀ bytes, prepared.1 ≠ .data bytes) ∧
      Salted impl stream aead nonceSize masterKey salt deriveAeadSubkey payloads
        prepared.2) := by
  have fresh : (aeadCryptor aead nonceSize).isDecryptorInit self.crypto = false := by
    simp [aeadCryptor, salted.decryptor]
  rcases call : impl.recv pipe (-self.keySize) with ⟨result, next⟩
  have still := salted.stopped source there call
  cases result with
  | data bytes =>
      rcases salted.handed source there call with ⟨salt', rest⟩
      have prepared : self.prepare impl (aeadCryptor aead nonceSize) deriveAeadSubkey pipe =
          (.data [], { self with
            pipe := some next
            crypto := { self.crypto with
              decryptor := some (freshReceiver aead (deriveAeadSubkey masterKey salt)
                nonceSize) } }) := by
        simp only [CryptoPipe.prepare, fresh, call, Bool.false_eq_true, if_false]
        rw [if_pos ((congrArg List.length salt').trans salted.keySize.symm), salt',
          salted.sameKey]
        rfl
      have isInit : (freshReceiver aead (deriveAeadSubkey masterKey salt)
          nonceSize).decryptor.isInit = true := by
        simp only [freshReceiver, KeyedFilter.isInit, KeyedFilter.setup, List.length_replicate]
        simp
        omega
      refine Or.inl ⟨[], ?_⟩
      rw [prepared]
      refine ⟨rfl, rfl, rfl, salted.wellFormed, freshReceiver_ready, freshReceiver_waiting,
        isInit, ?_, ?_, ?_⟩
      all_goals
        simp only [CryptoPipe.below, salted.content]
        rcases rest with full | ⟨lost, why⟩
      · rw [full, decodingWith_freshReceiver small]
      · rw [lost, decodingWith_nil freshReceiver_waiting]
      · rw [full, decodingWith_freshReceiver small]
        exact List.prefix_rfl
      · rw [lost, decodingWith_nil freshReceiver_waiting]
        exact List.nil_prefix
      · intro _
        rw [full, decodingWith_freshReceiver small]
        rfl
      · intro intact
        rw [lost, decodingWith_nil freshReceiver_waiting, why intact]
        rfl
  | failed =>
      refine Or.inr ?_
      simp only [CryptoPipe.prepare, fresh, call]
      exact ⟨by simp, still (by simp)⟩
  | threw exception =>
      refine Or.inr ?_
      simp only [CryptoPipe.prepare, fresh, call]
      exact ⟨by simp, still (by simp)⟩
  | blocked =>
      refine Or.inr ?_
      simp only [CryptoPipe.prepare, fresh, call]
      exact ⟨by simp, still (by simp)⟩

variable (impl stream aead nonceSize) in
/-- A receiver in the course of a session, and what it has returned. -/
inductive Receiving (masterKey salt : List UInt8)
    (deriveAeadSubkey : List UInt8 → List UInt8 → List UInt8) (payloads : List (List UInt8)) :
    List UInt8 → CryptoPipe P (AeadCryptor State) → Prop where
  | salted {receiver : CryptoPipe P (AeadCryptor State)}
      (salted : Salted impl stream aead nonceSize masterKey salt deriveAeadSubkey payloads
        receiver) :
      Receiving masterKey salt deriveAeadSubkey payloads [] receiver
  | decrypting {returned : List UInt8} {receiver : CryptoPipe P (AeadCryptor State)}
      {cryptor : AeadDecryptor State}
      (decrypting : Decrypting impl stream aead (deriveAeadSubkey masterKey salt)
        payloads.flatten returned receiver cryptor) :
      Receiving masterKey salt deriveAeadSubkey payloads returned receiver

theorem receiving_create {pipe : P} {ownSalt : List UInt8} (sameSize : ownSalt.length = salt.length)
    (wire : stream pipe = salt ++
        frames aead (deriveAeadSubkey masterKey salt) (firstNonce nonceSize) payloads ∨
      stream pipe = [] ∧ payloads = []) :
    Receiving impl stream aead nonceSize masterKey salt deriveAeadSubkey payloads []
      (.create (aeadCryptor aead nonceSize) pipe deriveAeadSubkey masterKey ownSalt) := by
  refine .salted ⟨rfl, rfl, ChunkBuffer.wellFormed_empty, ChunkBuffer.content_empty, rfl,
    sameSize, ?_⟩
  rcases wire with full | ⟨nothing, none⟩
  · exact Or.inl full
  · exact Or.inr ⟨nothing, fun _ => none⟩

theorem Receiving.isOpen {returned : List UInt8}
    (receiving : Receiving impl stream aead nonceSize masterKey salt deriveAeadSubkey payloads
      returned self) : self.pipe.isSome := by
  cases receiving with
  | salted salted => exact salted.isOpen
  | decrypting decrypting => exact decrypting.isOpen

/-- The first part of `recv` gets the key set up, or the call returns nothing. -/
theorem Receiving.prepare (source : Source impl stream)
    (counts : 0 < nonceSize)
    (small : ∀ payload ∈ payloads, payload.length ≤ aeadChunkSizeMask ∧ payload ≠ [])
    {returned : List UInt8}
    (receiving : Receiving impl stream aead nonceSize masterKey salt deriveAeadSubkey payloads
      returned self) {pipe : P} (there : self.pipe = some pipe) :
    let prepared := self.prepare impl (aeadCryptor aead nonceSize) deriveAeadSubkey pipe
    (∃ bytes cryptor, prepared.1 = .data bytes ∧
      Decrypting impl stream aead (deriveAeadSubkey masterKey salt) payloads.flatten returned
        prepared.2 cryptor) ∨
    ((∀ bytes, prepared.1 ≠ .data bytes) ∧
      Receiving impl stream aead nonceSize masterKey salt deriveAeadSubkey payloads returned
        prepared.2) := by
  cases receiving with
  | salted salted =>
      rcases salted.prepare source counts small there with
        ⟨bytes, prepared, decrypting⟩ | ⟨other, still⟩
      · exact Or.inl ⟨bytes, _, prepared, decrypting⟩
      · exact Or.inr ⟨other, .salted still⟩
  | @decrypting _ _ cryptor decrypting =>
      have initialized : (aeadCryptor aead nonceSize).isDecryptorInit self.crypto = true := by
        simp only [aeadCryptor, decrypting.decryptor]
        exact decrypting.isInit
      simp only [CryptoPipe.prepare, initialized, if_true]
      exact Or.inl ⟨[], cryptor, rfl, decrypting⟩

/-- One call of `recv`: what it returns is the next of the plaintext. -/
theorem Receiving.recv (source : Source impl stream)
    (counts : 0 < nonceSize)
    (small : ∀ payload ∈ payloads, payload.length ≤ aeadChunkSizeMask ∧ payload ≠ [])
    {returned : List UInt8}
    (receiving : Receiving impl stream aead nonceSize masterKey salt deriveAeadSubkey payloads
      returned self) (fuel : ℕ) (size : ℤ) :
    let call := self.recv impl (aeadCryptor aead nonceSize) deriveAeadSubkey fuel size
    Receiving impl stream aead nonceSize masterKey salt deriveAeadSubkey payloads
        (returned ++ call.1.bytes) call.2 ∧
      (size < 0 → ∀ bytes, call.1 = .data bytes → (bytes.length : ℤ) = -size) := by
  rcases Option.isSome_iff_exists.mp receiving.isOpen with ⟨pipe, there⟩
  simp only [CryptoPipe.recv, there]
  rcases receiving.prepare source counts small there with
    ⟨bytes, cryptor, prepared, decrypting⟩ | ⟨other, still⟩
  · rw [prepared]
    rcases decrypting.recvLoop source fuel size _ with ⟨⟨cryptor', after⟩, exactly⟩
    exact ⟨.decrypting after, exactly⟩
  · generalize self.prepare impl (aeadCryptor aead nonceSize) deriveAeadSubkey pipe = prepared
      at other still
    rcases prepared with ⟨result, next⟩
    cases result with
    | data bytes => exact absurd rfl (other bytes)
    | failed => exact ⟨by simpa [RecvRslt.bytes] using still, by simp⟩
    | threw exception => exact ⟨by simpa [RecvRslt.bytes] using still, by simp⟩
    | blocked => exact ⟨by simpa [RecvRslt.bytes] using still, by simp⟩

/-- None of the calls of `decipher` that `recv` makes fails. -/
theorem Receiving.deciphers (source : Source impl stream)
    (counts : 0 < nonceSize)
    (small : ∀ payload ∈ payloads, payload.length ≤ aeadChunkSizeMask ∧ payload ≠ [])
    {returned : List UInt8}
    (receiving : Receiving impl stream aead nonceSize masterKey salt deriveAeadSubkey payloads
      returned self) {size : ℤ} {last : CryptoPipe P (AeadCryptor State)} {bytes : List UInt8}
    (deciphers : self.Deciphers impl (aeadCryptor aead nonceSize) deriveAeadSubkey size last
      bytes) : (last.decipherRead (aeadCryptor aead nonceSize) bytes).1 = .ok true := by
  rcases deciphers with ⟨pipe, salt', ready, there, prepared, hands⟩
  rcases receiving.prepare source counts small there with
    ⟨bytes', cryptor, -, decrypting⟩ | ⟨other, -⟩
  · rw [prepared] at decrypting
    rcases hands.invariant
      (fun self => ∃ cryptor, Decrypting impl stream aead (deriveAeadSubkey masterKey salt)
        payloads.flatten returned self cryptor) (by
          rintro self read next doRecv bytes ⟨cryptor, decrypting⟩ received deciphered
          have call := decrypting.deciphered_read nonceSize source received
          rw [deciphered] at call
          exact call.2) ⟨cryptor, decrypting.settle source⟩ with
      ⟨before, again, ⟨cryptor', decrypting'⟩, received⟩
    exact (decrypting'.deciphered_read nonceSize source received).1
  · rw [prepared] at other
    exact absurd rfl (other salt')

end

theorem Receiving.recvAll {masterKey salt : List UInt8}
    {deriveAeadSubkey : List UInt8 → List UInt8 → List UInt8} {payloads : List (List UInt8)}
    {self : CryptoPipe P (AeadCryptor State)} (source : Source impl stream)
    (counts : 0 < nonceSize)
    (small : ∀ payload ∈ payloads, payload.length ≤ aeadChunkSizeMask ∧ payload ≠ [])
    {returned : List UInt8}
    (receiving : Receiving impl stream aead nonceSize masterKey salt deriveAeadSubkey payloads
      returned self) (calls : List (ℕ × ℤ)) :
    let run := self.recvAll impl (aeadCryptor aead nonceSize) deriveAeadSubkey calls
    Receiving impl stream aead nonceSize masterKey salt deriveAeadSubkey payloads
      (returned ++ run.1) run.2 := by
  induction calls generalizing self returned with
  | nil => simpa [CryptoPipe.recvAll] using receiving
  | cons call calls ih =>
      rcases call with ⟨fuel, size⟩
      have rest := ih (receiving.recv source counts small fuel size).1
      simp only [List.append_assoc] at rest
      exact rest

/-- What has been returned is a prefix of the plaintext, and once everything is handed over
without loss it is all of it but for what `decrypted_data` holds. -/
theorem Receiving.returned_spec {masterKey salt : List UInt8}
    {deriveAeadSubkey : List UInt8 → List UInt8 → List UInt8} {payloads : List (List UInt8)}
    {self : CryptoPipe P (AeadCryptor State)} {returned : List UInt8}
    (receiving : Receiving impl stream aead nonceSize masterKey salt deriveAeadSubkey payloads
      returned self) :
    returned <+: payloads.flatten ∧ (Lossless impl stream → self.below stream = [] →
      returned ++ self.decryptedData.content = payloads.flatten) := by
  cases receiving with
  | salted salted =>
      refine ⟨List.nil_prefix, fun intact exhausted => ?_⟩
      have none : payloads = [] := by
        have wire := salted.wire
        rw [exhausted] at wire
        rcases wire with full | ⟨-, none⟩
        · exact frames_eq_nil aead _ (List.append_eq_nil_iff.mp full.symm).2
        · exact none intact
      rw [salted.content, none]
      rfl
  | @decrypting _ _ cryptor decrypting =>
      have isPrefix := decrypting.isPrefix
      rw [List.append_assoc] at isPrefix
      refine ⟨(List.prefix_append _ _).trans isPrefix, fun intact exhausted => ?_⟩
      have whole := decrypting.whole intact
      rwa [exhausted, decodingWith_nil decrypting.waiting, List.append_nil] at whole

section

variable {Q : Type} {out : PipeImpl Q} {taken : Q → List UInt8}
  {deriveAeadSubkey : List UInt8 → List UInt8 → List UInt8} {masterKey salt : List UInt8}

/-- What a new sender has got the pipe below to take: nothing yet, or the salt and the
frames. -/
theorem wire_of_sent (sink : Sink out taken)
    (accepts : ∀ pipe bytes, (out.send pipe (some bytes)).1 = .ok ∨
      (out.send pipe (some bytes)).1 = .bufferfull)
    (plains : List (List UInt8)) {outPipe : Q} (nothing : taken outPipe = []) :
    let wire := ((CryptoPipe.create (aeadCryptor aead nonceSize) outPipe deriveAeadSubkey
      masterKey salt).sendAll out (aeadCryptor aead nonceSize) plains).below taken
    wire = salt ++ frames aead (deriveAeadSubkey masterKey salt) (firstNonce nonceSize)
      (framed plains) ∨ wire = [] ∧ framed plains = [] := by
  have created : Sending taken aead nonceSize (deriveAeadSubkey masterKey salt) salt []
      (.create (aeadCryptor aead nonceSize) outPipe deriveAeadSubkey masterKey salt) :=
    sending_create nothing
  rcases (created.sendAll sink accepts plains).below_eq with full | ⟨none, nil⟩
  · exact Or.inl full
  · exact Or.inr ⟨none, by rw [show plains = [] from nil]; rfl⟩

theorem receiving_of_sent (source : Source impl stream) (counts : 0 < nonceSize)
    {ownSalt : List UInt8} (sameSize : ownSalt.length = salt.length) {plains : List (List UInt8)}
    (nonempty : [] ∉ plains) {inPipe : P}
    (wire : stream inPipe = salt ++ frames aead (deriveAeadSubkey masterKey salt)
      (firstNonce nonceSize) (framed plains) ∨ stream inPipe = [] ∧ framed plains = [])
    (calls : List (ℕ × ℤ)) :
    let run := (CryptoPipe.create (aeadCryptor aead nonceSize) inPipe deriveAeadSubkey masterKey
      ownSalt).recvAll impl (aeadCryptor aead nonceSize) deriveAeadSubkey calls
    Receiving impl stream aead nonceSize masterKey salt deriveAeadSubkey (framed plains) run.1
      run.2 := by
  have start : Receiving impl stream aead nonceSize masterKey salt deriveAeadSubkey
      (framed plains) []
      (.create (aeadCryptor aead nonceSize) inPipe deriveAeadSubkey masterKey ownSalt) :=
    receiving_create sameSize wire
  exact start.recvAll source counts (wellFormed_framed nonempty) calls

/-- Calls of `decipher` on all that has been sent, in any segments. -/
theorem feed_of_sent {plains : List (List UInt8)} (nonempty : [] ∉ plains)
    {wire : List UInt8} (sent : wire = salt ++ frames aead (deriveAeadSubkey masterKey salt)
      (firstNonce nonceSize) (framed plains) ∨ wire = [] ∧ framed plains = [])
    {segments : List (List UInt8)} (all : salt ++ segments.flatten = wire) :
    let fed := feed (freshReceiver aead (deriveAeadSubkey masterKey salt) nonceSize) {} segments
    fed.ending = .running ∧ fed.plain.content = plains.flatten := by
  have whole : segments.flatten = frames aead (deriveAeadSubkey masterKey salt)
      (firstNonce nonceSize) (framed plains) := by
    rcases sent with full | ⟨none, nil⟩
    · rw [full] at all
      exact List.append_cancel_left all
    · rw [none, List.append_eq_nil_iff] at all
      rw [all.2, nil]
      rfl
  simpa using feed_all_frames ChunkBuffer.wellFormed_empty (wellFormed_framed nonempty) whole

end

/-- The round trip. However what has been sent is cut into segments, no call of `decipher`
on them fails, the payloads of the frames that are complete are appended and `unprocessed`
holds less than one frame more; and however the peer calls `recv`, what it returns is the
beginning of what has been sent, and all of it but for what `decrypted_data` holds once
everything is handed over. -/
theorem round_trip {Q : Type} {out : PipeImpl Q} {taken : Q → List UInt8} (sink : Sink out taken)
    (accepts : ∀ pipe bytes, (out.send pipe (some bytes)).1 = .ok ∨
      (out.send pipe (some bytes)).1 = .bufferfull)
    (source : Source impl stream) (counts : 0 < nonceSize)
    {deriveAeadSubkey : List UInt8 → List UInt8 → List UInt8} {masterKey salt ownSalt : List UInt8}
    (sameSize : ownSalt.length = salt.length) {plains : List (List UInt8)}
    (nonempty : [] ∉ plains) {outPipe : Q} (nothing : taken outPipe = []) {inPipe : P}
    (connected : stream inPipe = ((CryptoPipe.create (aeadCryptor aead nonceSize) outPipe
      deriveAeadSubkey masterKey salt).sendAll out (aeadCryptor aead nonceSize) plains).below
        taken) :
    (∀ segments : List (List UInt8), salt ++ segments.flatten <+: stream inPipe →
      let fed := feed (freshReceiver aead (deriveAeadSubkey masterKey salt) nonceSize) {} segments
      fed.ending = .running ∧
      (∃ complete rest, framed plains = complete ++ rest ∧
        fed.plain.content = complete.flatten ∧
        segments.flatten.length = (frames aead (deriveAeadSubkey masterKey salt)
          (firstNonce nonceSize) complete).length + fed.cryptor.unprocessed.data.length ∧
        (rest = [] → fed.cryptor.unprocessed.data = []) ∧
        ∀ next ∈ rest.head?, fed.cryptor.unprocessed.data.length < lengthOfFrame next) ∧
      (salt ++ segments.flatten = stream inPipe → fed.plain.content = plains.flatten)) ∧
    ∀ calls : List (ℕ × ℤ),
      let run := (CryptoPipe.create (aeadCryptor aead nonceSize) inPipe deriveAeadSubkey masterKey
        ownSalt).recvAll impl (aeadCryptor aead nonceSize) deriveAeadSubkey calls
      run.1 <+: plains.flatten ∧
      (Lossless impl stream → run.2.below stream = [] →
        run.1 ++ run.2.decryptedData.content = plains.flatten) ∧
      ∀ (fuel : ℕ) (size : ℤ),
        (size < 0 → ∀ bytes, (run.2.recv impl (aeadCryptor aead nonceSize) deriveAeadSubkey fuel
          size).1 = .data bytes → (bytes.length : ℤ) = -size) ∧
        ∀ last bytes, run.2.Deciphers impl (aeadCryptor aead nonceSize) deriveAeadSubkey size last
          bytes → (last.decipherRead (aeadCryptor aead nonceSize) bytes).1 = .ok true := by
  have small := wellFormed_framed nonempty
  have wire : stream inPipe = salt ++ frames aead (deriveAeadSubkey masterKey salt)
      (firstNonce nonceSize) (framed plains) ∨ stream inPipe = [] ∧ framed plains = [] := by
    rw [connected]
    exact wire_of_sent sink accepts plains nothing
  refine ⟨?_, ?_⟩
  · intro segments arrived
    have isPrefix : segments.flatten <+: frames aead (deriveAeadSubkey masterKey salt)
        (firstNonce nonceSize) (framed plains) := by
      rcases wire with full | ⟨none, nil⟩
      · rw [full] at arrived
        exact (List.prefix_append_right_inj salt).mp arrived
      · rw [none, List.prefix_nil, List.append_eq_nil_iff] at arrived
        rw [arrived.2]
        exact List.nil_prefix
    rcases feed_frames ChunkBuffer.wellFormed_empty small isPrefix with
      ⟨running, complete, rest, whole, content, fed, ending, bound⟩
    exact ⟨running, ⟨complete, rest, whole, by simpa using content, fed, ending, bound⟩,
      fun all => (feed_of_sent nonempty wire all).2⟩
  · intro calls
    have receiving := receiving_of_sent source counts sameSize nonempty wire calls
    rcases receiving.returned_spec with ⟨isPrefix, whole⟩
    rw [flatten_framed] at isPrefix whole
    exact ⟨isPrefix, whole, fun fuel size => ⟨(receiving.recv source counts small fuel size).2,
      fun last bytes deciphers => receiving.deciphers source counts small deciphers⟩⟩

end

/-- The sending end of a session on the stand-in for the ciphers. -/
def plainSender (plains : List (List UInt8)) : CryptoPipe MemoryPipe (AeadCryptor Message) :=
  (CryptoPipe.create (aeadCryptor (gcm fun _ => .plain) 12) {} (fun _ _ => []) []
    [1, 2]).sendAll memoryPipe (aeadCryptor (gcm fun _ => .plain) 12) plains

theorem round_trip_plain :
    ((CryptoPipe.create (aeadCryptor (gcm fun _ => .plain) 12)
        { incoming := [(plainSender [[1, 2, 3], [4]]).below MemoryPipe.outgoing] }
        (fun _ _ => []) [] [3, 4]).recvAll memoryPipe (aeadCryptor (gcm fun _ => .plain) 12)
      (fun _ _ => []) [(1, -2), (1, 5)]).1 <+: [1, 2, 3, 4] :=
  ((round_trip sink_memoryPipe (fun _ _ => Or.inl rfl) source_memoryPipe
    (show 0 < 12 by decide) (show [3, 4].length = [1, 2].length from rfl)
    (show [] ∉ [[1, 2, 3], [4]] by decide) (show MemoryPipe.outgoing {} = [] from rfl)
    (List.append_nil _)).2 [(1, -2), (1, 5)]).1

end Imconee.Shadowsocks
