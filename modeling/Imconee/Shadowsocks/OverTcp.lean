import Imconee.Netkit.TcpPipe
import Imconee.Shadowsocks.CryptoPipe

/-!
# A `crypto_pipe` over a `tcp_pipe`

`recv` of a `tcp_pipe` leaves nothing in `rcvbuf` if it is asked for as much as it gets.
`recv` of a `crypto_pipe` always asks for more than `rcvbuf` can hold, but for the salt, and
what comes with the salt it reads right after.
-/

set_option autoImplicit false

namespace Imconee.Netkit

open Imconee.Tools

namespace TcpPipe

variable {K : Type} {kernel : Kernel K} {incoming accepted : K → List UInt8} {fuel : ℕ}

variable (kernel incoming fuel) in
/-- A call of `recv` asks for as much as there is in `rcvbuf` and the socket hands over in the
course of it. -/
def Fits (self : TcpPipe K) (size : ℤ) : Prop :=
  self.rcvbuf.content.length + ((incoming self.socket).length -
    (incoming (self.recv kernel fuel size).2.socket).length) ≤ size.natAbs

/-- What a call leaves in `rcvbuf` that asks for all of it. -/
theorem drained_of_receives {size : ℤ} {self next : TcpPipe K} {result : RecvRslt}
    (receives : Receives incoming accepted size self result next)
    (returns : result ≠ .blocked)
    (fits : ∀ out, result = .data out → self.rcvbuf.content.length +
      ((incoming self.socket).length - (incoming next.socket).length) ≤ size.natAbs) :
    next.rcvbuf.content = [] := by
  cases result with
  | data out =>
      rcases receives with ⟨bytes, moved, -, length⟩
      have content := congrArg List.length moved.content
      have fits := fits out rfl
      rw [moved.incoming, List.length_append] at fits
      rw [List.length_append, List.length_append] at content
      rw [← List.length_eq_zero_iff]
      split at length
      · omega
      · rw [List.length_append] at length
        omega
  | failed =>
      rcases receives with ⟨between, bytes, moved, rfl⟩
      rfl
  | threw exception => exact receives.elim
  | blocked => exact absurd rfl returns

theorem recv_returns {size : ℤ} (any : 0 ≤ size) (self : TcpPipe K) :
    (self.recv kernel fuel size).1 ≠ .blocked := by
  rw [recv, if_neg (by omega)]
  generalize (if (self.rcvbuf.datasize : ℤ) < size then self.rcvAll kernel
    else (true, self)) = received
  dsimp only
  split
  · split
    · simp
    · simp
  · simp

/-- A read for more than `rcvbuf` can hold empties it. -/
theorem drained_of_large (stream : kernel.Stream incoming accepted) {self : TcpPipe K}
    (wellFormed : self.WellFormed) {size : ℤ} (large : 49152 ≤ size) :
    (self.recv kernel fuel size).2.WellFormed ∧
      (self.recv kernel fuel size).2.rcvbuf.content = [] := by
  have receives := recv_receives stream fuel wellFormed.rcvbuf size
  have returns : (self.recv kernel fuel size).1 ≠ .blocked := recv_returns (by omega) self
  refine ⟨receives.wellFormed wellFormed, drained_of_receives receives returns fun out result => ?_⟩
  rw [result] at receives
  rcases receives with ⟨bytes, moved, bound, -⟩
  rw [List.length_append] at bound
  rw [moved.incoming, List.length_append]
  omega

variable (fuel) in
/-- A read of no bytes from an empty `rcvbuf` does nothing. -/
theorem recv_zero {self : TcpPipe K} (drained : self.rcvbuf.content = []) :
    self.recv kernel fuel 0 = (.data [], self) := by
  simp [recv, drained]

end TcpPipe

end Imconee.Netkit

namespace Imconee.Shadowsocks

open Imconee.Botan Imconee.Netkit Imconee.Tools

variable {K C : Type} {kernel : Kernel K} {incoming accepted : K → List UInt8} {fuel : ℕ}
  {cryptor : Cryptor C} {deriveAeadSubkey : List UInt8 → List UInt8 → List UInt8}

/-- A class of cryptors whose key for the way in stays once it is set up. -/
structure Cryptor.Lasting (cryptor : Cryptor C) : Prop where
  initDecryptor : ∀ crypto key, cryptor.isDecryptorInit (cryptor.initDecryptor crypto key) = true
  encipher : ∀ crypto plain cipher, cryptor.isDecryptorInit crypto = true →
    cryptor.isDecryptorInit (cryptor.encipher crypto plain cipher).2.2 = true
  decipher : ∀ crypto plain cipher, cryptor.isDecryptorInit crypto = true →
    cryptor.isDecryptorInit (cryptor.decipher crypto plain cipher).2.2 = true

section

variable {State : Type}

theorem KeyedFilter.length_iv_process (filter : KeyedFilter State) (report : ℕ → Bool)
    (input : List UInt8) : (filter.process report input).filter.iv.length = filter.iv.length := by
  rw [process]
  dsimp only
  split
  · rfl
  · split
    · rfl
    · rename_i next ended
      rw [endMsg] at ended
      split at ended
      · cases ended
      · cases ended
        exact length_nonceIncrement _

namespace AeadDecryptor

theorem length_iv_decode (cryptor : AeadDecryptor State) (skip capacity : ℕ) :
    (cryptor.decode skip capacity).2.2.decryptor.iv.length = cryptor.decryptor.iv.length := by
  rw [decode]
  split
  · rfl
  · exact KeyedFilter.length_iv_process _ _ _

theorem length_iv_decryptPayload (cryptor : AeadDecryptor State)
    (fromOffset fromCurrent payloadsize : ℕ) :
    (cryptor.decryptPayload fromOffset fromCurrent payloadsize).cryptor.decryptor.iv.length =
      cryptor.decryptor.iv.length := by
  have same := cryptor.length_iv_decode fromCurrent payloadsize
  rw [decryptPayload]
  split
  · rfl
  · split <;> simpa [*] using same

theorem length_iv_decrypt (cryptor : AeadDecryptor State) (fromOffset : ℕ) :
    (cryptor.decrypt fromOffset).cryptor.decryptor.iv.length = cryptor.decryptor.iv.length := by
  have same := cryptor.length_iv_decode fromOffset 2
  rw [decrypt]
  split
  · exact length_iv_decryptPayload _ _ _ _
  · split
    · simpa [*] using same
    · rename_i handled delta next decoded
      rw [decoded] at same
      dsimp only
      split
      · exact same
      · split
        · exact same
        · exact (length_iv_decryptPayload _ _ _ _).trans same

theorem length_iv_decipherLoop (fuel : ℕ) (cryptor : AeadDecryptor State) (fromOffset : ℕ)
    (decr : ℤ) : (decipherLoop fuel cryptor fromOffset decr).cryptor.decryptor.iv.length =
      cryptor.decryptor.iv.length := by
  induction fuel generalizing cryptor fromOffset decr with
  | zero => rfl
  | succ fuel ih =>
      have same := cryptor.length_iv_decrypt fromOffset
      rw [decipherLoop]
      split
      · dsimp only
        split
        · exact same
        · split
          · exact same
          · split
            · exact same
            · exact (ih _ _ _).trans same
      · rfl

theorem length_iv_run (cryptor : AeadDecryptor State) (cipher : List UInt8) :
    (cryptor.run cipher).cryptor.decryptor.iv.length = cryptor.decryptor.iv.length := by
  rw [run, afterLoop]
  dsimp only
  generalize unprocessed : cryptor.unprocessed.append cipher = buffer
  have same := length_iv_decipherLoop buffer.size { cryptor with unprocessed := buffer } 0 0
  repeat' split
  all_goals exact same

end AeadDecryptor

/-- Deciphering counts nonces up, which keeps the key set up. -/
theorem lasting_aeadCryptor (aead : Aead State) {nonceSize : ℕ} (counts : 0 < nonceSize) :
    (aeadCryptor aead nonceSize).Lasting where
  initDecryptor crypto key := by
    simp only [aeadCryptor, KeyedFilter.isInit, KeyedFilter.setup, List.length_replicate]
    simp
    omega
  encipher crypto plain cipher init := init
  decipher crypto plain cipher init := by
    simp only [aeadCryptor] at init ⊢
    cases there : crypto.decryptor with
    | none =>
        rw [there] at init
        cases init
    | some cryptor =>
        simp only [there, KeyedFilter.isInit, decide_eq_true_eq] at init ⊢
        exact fun zero => init ((AeadDecryptor.length_iv_run cryptor cipher).symm.trans zero)

end

namespace CryptoPipe

/-- The pipe below holds nothing back. -/
def Drained (self : CryptoPipe (TcpPipe K) C) : Prop :=
  ∀ pipe, self.pipe = some pipe → pipe.rcvbuf.content = []

instance (self : CryptoPipe (TcpPipe K) C) : Decidable self.Drained :=
  inferInstanceAs (Decidable (∀ pipe ∈ self.pipe, pipe.rcvbuf.content = []))

def Formed (self : CryptoPipe (TcpPipe K) C) : Prop :=
  ∀ pipe, self.pipe = some pipe → pipe.WellFormed

variable (cryptor) in
/-- The key is set up, or there is no salt to wait for. -/
def Keyed (self : CryptoPipe (TcpPipe K) C) : Prop :=
  cryptor.isDecryptorInit self.crypto = true ∨ self.keySize = 0

variable (cryptor) in
/-- What holds between the calls. -/
structure Settled (pipe : CryptoPipe (TcpPipe K) C) : Prop where
  formed : pipe.Formed
  drained : pipe.Drained
  lasting : cryptor.Lasting ∨ pipe.keySize = 0
  keyed : pipe.Keyed cryptor ∨ pipe.decryptedData.isEmpty = true

/-- The pipe below marked. -/
def marked (self : CryptoPipe (TcpPipe K) C) (mark : Waitable → Waitable) :
    CryptoPipe (TcpPipe K) C :=
  { self with pipe := self.pipe.map fun pipe => { pipe with waitable := mark pipe.waitable } }

variable (kernel fuel) in
/-- `get_waitable` marks the pipe below by what has been decrypted. -/
theorem getWaitable_eq (self : CryptoPipe (TcpPipe K) C) :
    (self.getWaitable (tcpPipe kernel fuel)).2 = self.marked fun w =>
      if self.decryptedData.isEmpty then w.clearReady readyPipe else w.makeReady readyPipe := by
  rcases self with ⟨pipe, crypto, encryptedData, decryptedData, masterKey, keySize⟩
  cases pipe with
  | none => rfl
  | some pipe => rfl

variable (kernel fuel) in
theorem exists_marked_settle (self : CryptoPipe (TcpPipe K) C) :
    ∃ mark, self.settle (tcpPipe kernel fuel) = self.marked mark := by
  rcases self with ⟨pipe, crypto, encryptedData, decryptedData, masterKey, keySize⟩
  rw [settle]
  split
  · refine ⟨fun w => (if decryptedData.isEmpty then w.clearReady readyPipe
      else w.makeReady readyPipe).clearReady readyPipe, ?_⟩
    cases pipe with
    | none => rfl
    | some pipe => rfl
  · refine ⟨id, ?_⟩
    cases pipe with
    | none => rfl
    | some pipe => rfl

variable {self : CryptoPipe (TcpPipe K) C}

theorem Formed.marked (formed : self.Formed) (mark : Waitable → Waitable) :
    (self.marked mark).Formed := by
  intro pipe there
  rcases Option.map_eq_some_iff.mp there with ⟨below, same, rfl⟩
  exact ⟨(formed below same).rcvbuf, (formed below same).outbuf⟩

theorem Drained.marked (drained : self.Drained) (mark : Waitable → Waitable) :
    (self.marked mark).Drained := by
  intro pipe there
  rcases Option.map_eq_some_iff.mp there with ⟨below, same, rfl⟩
  exact drained below same

theorem Settled.marked (settled : self.Settled cryptor) (mark : Waitable → Waitable) :
    (self.marked mark).Settled cryptor :=
  ⟨settled.formed.marked mark, settled.drained.marked mark, settled.lasting, settled.keyed⟩

theorem settled_create {pipe : TcpPipe K} (wellFormed : pipe.WellFormed)
    (drained : pipe.rcvbuf.content = []) {masterKey salt : List UInt8}
    (lasting : cryptor.Lasting ∨ salt = []) :
    (create cryptor pipe deriveAeadSubkey masterKey salt).Settled cryptor where
  formed := by rintro _ ⟨⟩; exact wellFormed
  drained := by rintro _ ⟨⟩; exact drained
  lasting := lasting.imp_right fun nil => by rw [nil]; rfl
  keyed := Or.inr rfl

theorem Settled.send (stream : kernel.Stream incoming accepted) (settled : self.Settled cryptor)
    (data : Option (List UInt8)) :
    (self.send (tcpPipe kernel fuel) cryptor data).2.Settled cryptor := by
  simp only [CryptoPipe.send]
  split
  · exact settled
  · rename_i pipe there
    have sent : ∀ data, ((tcpPipe kernel fuel).send pipe data).2.WellFormed ∧
        ((tcpPipe kernel fuel).send pipe data).2.rcvbuf.content = [] := by
      intro data
      have sends := TcpPipe.send_sends stream (settled.formed pipe there).outbuf data
      refine ⟨⟨sends.rcvbuf ▸ (settled.formed pipe there).rcvbuf, sends.outbuf⟩, ?_⟩
      rw [show ((tcpPipe kernel fuel).send pipe data).2.rcvbuf = pipe.rcvbuf from sends.rcvbuf]
      exact settled.drained pipe there
    split
    · exact ⟨by rintro _ ⟨⟩; exact (sent none).1, by rintro _ ⟨⟩; exact (sent none).2,
        settled.lasting, settled.keyed⟩
    · rename_i plain
      have keyed : cryptor.isDecryptorInit
            (cryptor.encipher self.crypto plain self.encryptedData).2.2 = true ∨
          self.keySize = 0 ∨ self.decryptedData.isEmpty = true := by
        rcases settled.lasting, settled.keyed with ⟨lasting | none, (init | none) | empty⟩
        · exact Or.inl (lasting.encipher _ _ _ init)
        all_goals simp [*]
      split
      · exact ⟨settled.formed, settled.drained, settled.lasting, or_assoc.mpr keyed⟩
      · exact ⟨by rintro _ ⟨⟩; exact (sent _).1, by rintro _ ⟨⟩; exact (sent _).2,
          settled.lasting, or_assoc.mpr keyed⟩

theorem readPipe_drained (stream : kernel.Stream incoming accepted) (formed : self.Formed)
    {next : CryptoPipe (TcpPipe K) C} {doRecv : Bool} {result : RecvRslt}
    (drained : doRecv = false → self.Drained)
    (received : self.readPipe (tcpPipe kernel fuel) doRecv = (result, next)) :
    ∃ pipe, next = { self with pipe } ∧ next.Formed ∧ next.Drained := by
  cases doRecv with
  | false =>
      cases received
      exact ⟨self.pipe, rfl, formed, drained rfl⟩
  | true =>
      cases there : self.pipe with
      | none =>
          simp only [readPipe, there, if_true] at received
          cases received
          exact ⟨self.pipe, rfl, formed, by simp [Drained, there]⟩
      | some pipe =>
          obtain ⟨whole, empty⟩ : (pipe.recv kernel fuel tempSize).2.WellFormed ∧
              (pipe.recv kernel fuel tempSize).2.rcvbuf.content = [] :=
            TcpPipe.drained_of_large stream (formed pipe there) (by rw [tempSize]; omega)
          simp only [readPipe, there, if_true, tcpPipe] at received
          generalize pipe.recv kernel fuel tempSize = read at whole empty received
          cases received
          refine ⟨_, rfl, ?_, ?_⟩
          · rintro _ ⟨⟩
            exact whole
          · rintro _ ⟨⟩
            exact empty

variable (cryptor) in
/-- What holds at the head of the loop of `recv`. -/
structure Reading (pipe : CryptoPipe (TcpPipe K) C) (doRecv : Bool) : Prop where
  formed : pipe.Formed
  drained : doRecv = false → pipe.Drained
  lasting : cryptor.Lasting ∨ pipe.keySize = 0
  keyed : pipe.Keyed cryptor

namespace Reading

theorem settled (reading : self.Reading cryptor false) : self.Settled cryptor :=
  ⟨reading.formed, reading.drained rfl, reading.lasting, Or.inl reading.keyed⟩

theorem read (stream : kernel.Stream incoming accepted) {doRecv : Bool}
    (reading : self.Reading cryptor doRecv) {next : CryptoPipe (TcpPipe K) C} {result : RecvRslt}
    (received : self.readPipe (tcpPipe kernel fuel) doRecv = (result, next)) :
    next.Reading cryptor false := by
  rcases readPipe_drained stream reading.formed reading.drained received with
    ⟨pipe, rfl, formed, drained⟩
  exact ⟨formed, fun _ => drained, reading.lasting, reading.keyed⟩

theorem decipherRead (reading : self.Reading cryptor false) {next : CryptoPipe (TcpPipe K) C}
    {bytes : List UInt8} {outcome : Except Exception Bool}
    (deciphered : self.decipherRead cryptor bytes = (outcome, next)) :
    next.Reading cryptor false := by
  rw [CryptoPipe.decipherRead] at deciphered
  split at deciphered
  · cases deciphered
    refine ⟨reading.formed, reading.drained, reading.lasting, ?_⟩
    rcases reading.lasting, reading.keyed with ⟨lasting | none, init | none⟩
    · exact Or.inl (lasting.decipher _ _ _ init)
    all_goals exact Or.inr none
  · cases deciphered
    exact reading

end Reading

variable (fuel deriveAeadSubkey) in
/-- The first part of `recv`. What comes with the salt stays below, but then there is nothing
decrypted yet, and the loop goes on to read it. -/
theorem Settled.prepare (stream : kernel.Stream incoming accepted)
    (settled : self.Settled cryptor) {pipe : TcpPipe K} (there : self.pipe = some pipe) :
    let prepared := self.prepare (tcpPipe kernel fuel) cryptor deriveAeadSubkey pipe
    match prepared.1 with
    | .data _ => prepared.2.Reading cryptor prepared.2.decryptedData.isEmpty
    | .blocked => True
    | _ => prepared.2.Settled cryptor := by
  have whole := settled.formed pipe there
  have empty := settled.drained pipe there
  cases init : cryptor.isDecryptorInit self.crypto with
  | true =>
      simp only [CryptoPipe.prepare, init, if_true]
      exact ⟨settled.formed, fun _ => settled.drained, settled.lasting, Or.inl init⟩
  | false =>
      simp only [CryptoPipe.prepare, init, Bool.false_eq_true, if_false]
      by_cases zero : self.keySize = 0
      · have read : (tcpPipe kernel fuel).recv pipe (-(self.keySize : ℤ)) = (.data [], pipe) := by
          rw [zero]
          exact TcpPipe.recv_zero fuel empty
        have exactly : ([] : List UInt8).length = self.keySize := zero.symm
        simp only [read, exactly, if_true]
        refine ⟨?_, fun _ => ?_, Or.inr zero, Or.inr zero⟩
        · rintro _ ⟨⟩
          exact whole
        · rintro _ ⟨⟩
          exact empty
      · have nothing : self.decryptedData.isEmpty = true := by
          rcases settled.keyed with (initialized | none) | nothing
          · rw [init] at initialized
            cases initialized
          · exact absurd none zero
          · exact nothing
        have lasting := settled.lasting.resolve_right zero
        have receives := TcpPipe.recv_receives stream fuel whole.rcvbuf (-(self.keySize : ℤ))
        rcases read : (tcpPipe kernel fuel).recv pipe (-(self.keySize : ℤ)) with ⟨result, next⟩
        rw [show pipe.recv kernel fuel (-(self.keySize : ℤ)) = (result, next) from read] at receives
        have nextFormed := receives.wellFormed whole
        cases result with
        | data salt =>
            rcases receives with ⟨bytes, moved, -, length⟩
            rw [if_pos (by omega)] at length
            have exactly : salt.length = self.keySize := by omega
            simp only [exactly, if_true]
            refine ⟨?_, ?_, Or.inl lasting, Or.inl (lasting.initDecryptor _ _)⟩
            · rintro _ ⟨⟩
              exact nextFormed
            · intro some
              rw [nothing] at some
              cases some
        | failed =>
            rcases receives with ⟨between, bytes, moved, rfl⟩
            refine ⟨?_, ?_, settled.lasting, settled.keyed⟩
            · rintro _ ⟨⟩
              exact nextFormed
            · rintro _ ⟨⟩
              rfl
        | threw exception => exact receives.elim
        | blocked => trivial

theorem Settled.recv (stream : kernel.Stream incoming accepted) (settled : self.Settled cryptor)
    (loopFuel : ℕ) (size : ℤ)
    (returns : (self.recv (tcpPipe kernel fuel) cryptor deriveAeadSubkey loopFuel size).1 ≠
      .blocked) :
    (self.recv (tcpPipe kernel fuel) cryptor deriveAeadSubkey loopFuel size).2.Settled
      cryptor := by
  cases there : self.pipe with
  | none => simpa only [CryptoPipe.recv, there] using settled
  | some pipe =>
      simp only [CryptoPipe.recv, there] at returns ⊢
      have prepared := settled.prepare fuel deriveAeadSubkey stream there
      generalize self.prepare (tcpPipe kernel fuel) cryptor deriveAeadSubkey pipe = start
        at prepared returns ⊢
      rcases start with ⟨result, start⟩
      cases result with
      | data salt =>
          simp only at prepared returns ⊢
          rcases exists_marked_settle kernel fuel start with ⟨mark, marked⟩
          rw [marked] at returns ⊢
          revert returns
          have begins : (start.marked mark).Reading cryptor start.decryptedData.isEmpty :=
            ⟨prepared.formed.marked mark, fun some => (prepared.drained some).marked mark,
              prepared.lasting, prepared.keyed⟩
          have deciphers : ∀ {self read next : CryptoPipe (TcpPipe K) C} {doRecv : Bool}
              {bytes : List UInt8} {outcome : Except Exception Bool},
              self.Reading cryptor doRecv →
              self.readPipe (tcpPipe kernel fuel) doRecv = (.data bytes, read) →
              read.decipherRead cryptor bytes = (outcome, next) → next.Reading cryptor false :=
            fun reading received deciphered =>
              (reading.read stream received).decipherRead deciphered
          refine recvLoop_rule (tcpPipe kernel fuel) cryptor
            (fun self doRecv => self.Reading cryptor doRecv)
            (fun self => self.Reading cryptor false)
            (fun result self => result ≠ .blocked → self.Settled cryptor)
            (fun _ blocked => absurd rfl blocked)
            (fun reading received _ _ => (reading.read stream received).settled)
            (fun reading received deciphered _ => (deciphers reading received deciphered).settled)
            (fun reading received deciphered _ => (deciphers reading received deciphered).settled)
            deciphers ?_ ?_ loopFuel begins
          · intro self reading _ _
            exact ⟨reading.formed, by simp, reading.lasting, reading.keyed⟩
          · intro self bytes buffer reading delivers _
            exact ⟨reading.formed, reading.drained rfl, reading.lasting, Or.inl reading.keyed⟩
      | failed => exact prepared
      | threw exception => exact prepared
      | blocked => exact absurd rfl returns

end CryptoPipe

end Imconee.Shadowsocks
