import Imconee.Netkit.Pipe
import Imconee.Shadowsocks.AeadCryptor

/-!
# `ss::core::crypto_pipe`

A pipe that enciphers what is sent through it and deciphers what is received, over another
pipe and with one of two cryptors. The loop of `recv` only ends when the pipe below
delivers enough, so it runs on fuel and is `blocked` where that runs out.
-/

set_option autoImplicit false

namespace Imconee.Shadowsocks

open Imconee.Botan Imconee.Netkit Imconee.Tools

/-- A class of cryptors. `initEncryptor` is applied to a new one. -/
structure Cryptor (C : Type) where
  initEncryptor : List UInt8 → C
  isDecryptorInit : C → Bool
  initDecryptor : C → List UInt8 → C
  encipher : C → List UInt8 → List UInt8 → Except Exception ℤ × List UInt8 × C
  decipher : C → Outbuffer → List UInt8 → Except Exception ℤ × Outbuffer × C

/-- `aead_cryptor` once its encryptor is set up. -/
structure AeadCryptor (State : Type) where
  encryptor : KeyedFilter State
  decryptor : Option (AeadDecryptor State) := none

/-- `aead_cryptor`. A call of `decipher` before `init_decryptor` does not happen. -/
def aeadCryptor {State : Type} (aead : Aead State) (nonceSize : ℕ) :
    Cryptor (AeadCryptor State) where
  initEncryptor key := { encryptor := .setup (aead.encryption key) nonceSize }
  isDecryptorInit crypto :=
    match crypto.decryptor with
    | some cryptor => cryptor.decryptor.isInit
    | none => false
  initDecryptor crypto key :=
    { crypto with decryptor := some { decryptor := .setup (aead.decryption key) nonceSize } }
  encipher crypto plain cipher :=
    let enciphered := encipher crypto.encryptor plain cipher
    (enciphered.result, enciphered.cipher, { crypto with encryptor := enciphered.encryptor })
  decipher crypto plain cipher :=
    match crypto.decryptor with
    | some cryptor =>
        let deciphered := cryptor.decipher plain cipher
        (deciphered.1, deciphered.2.1, { crypto with decryptor := some deciphered.2.2 })
    | none => (.ok (-1), plain, crypto)

/-- `none_cryptor`; `is_decryptor_init` is the one of `cryptor`. -/
def noneCryptor : Cryptor Unit where
  initEncryptor _ := ()
  isDecryptorInit _ := false
  initDecryptor crypto _ := crypto
  encipher crypto plain _ := (.ok plain.length, plain, crypto)
  decipher crypto plain cipher := (.ok cipher.length, plain.assign cipher, crypto)

/-- `crypto_pipe` -/
structure CryptoPipe (P C : Type) where
  pipe : Option P
  crypto : C
  encryptedData : List UInt8
  decryptedData : Outbuffer := {}
  masterKey : List UInt8
  keySize : ℕ

/-- `sizeof(temp)` -/
def tempSize : ℤ := 65536

namespace CryptoPipe

variable {P C : Type} (impl : PipeImpl P) (cryptor : Cryptor C)

/-- The constructor, with the salt that it draws: it is what is sent first. -/
def create (pipe : P) (deriveAeadSubkey : List UInt8 → List UInt8 → List UInt8)
    (masterKey salt : List UInt8) : CryptoPipe P C :=
  { pipe := some pipe
    crypto := cryptor.initEncryptor (deriveAeadSubkey masterKey salt)
    encryptedData := salt
    masterKey
    keySize := salt.length }

def send (self : CryptoPipe P C) (data : Option (List UInt8)) : SendRslt × CryptoPipe P C :=
  match self.pipe with
  | none => (.fail, self)
  | some pipe =>
      match data with
      | none => -- check allow send
          let sent := impl.send pipe none
          (sent.1, { self with pipe := some sent.2 })
      | some data =>
          let enciphered := cryptor.encipher self.crypto data self.encryptedData
          match enciphered.1 with
          | .error exception => (.threw exception,
              { self with encryptedData := enciphered.2.1, crypto := enciphered.2.2 })
          | .ok _ =>
              let sent := impl.send pipe (some enciphered.2.1)
              -- IMPORTANT: clear after send, not before (due encrypted_data contains salt
              -- before 1st send)
              (sent.1, { self with
                pipe := some sent.2
                crypto := enciphered.2.2
                encryptedData := [] })

def getWaitable (self : CryptoPipe P C) : Option Waitable × CryptoPipe P C :=
  match self.pipe with
  | none => (none, self)
  | some pipe =>
      let r := impl.getWaitable pipe
      match r.1 with
      | none => (none, { self with pipe := some r.2 })
      | some w =>
          let w :=
            if self.decryptedData.isEmpty then w.clearReady readyPipe else w.makeReady readyPipe
          (some w, { self with pipe := some (impl.setWaitable r.2 w) })

def setWaitable (self : CryptoPipe P C) (w : Waitable) : CryptoPipe P C :=
  { self with pipe := self.pipe.map fun pipe => impl.setWaitable pipe w }

/-- `clear_ready(get_waitable(), READY_PIPE)` -/
def clearPipeReady (self : CryptoPipe P C) : CryptoPipe P C :=
  let w := self.getWaitable impl
  match w.1 with
  | none => w.2
  | some waitable => w.2.setWaitable impl (waitable.clearReady readyPipe)

/-- The end of `recv`, for what is read in whole or in part. -/
def deliver (self : CryptoPipe P C) (maxdatasz : ℕ) : RecvRslt × CryptoPipe P C :=
  let peeked :=
    if self.decryptedData.enoughFor maxdatasz then self.decryptedData.peekAll
    else self.decryptedData.peek maxdatasz
  (.data peeked.1, { self with decryptedData := peeked.2 })

/-- One read of the loop of `recv`: `pipe->recv` unless `do_recv` is false. -/
def readPipe (self : CryptoPipe P C) (doRecv : Bool) : RecvRslt × CryptoPipe P C :=
  if doRecv then
    match self.pipe with
    | none => (.failed, self)
    | some pipe =>
        let read := impl.recv pipe tempSize
        (read.1, { self with pipe := some read.2 })
  else (.data [], self)

/-- One call of `decipher` by `recv`, which is not made for no bytes: false if it returns
-1. -/
def decipherRead (self : CryptoPipe P C) (bytes : List UInt8) :
    Except Exception Bool × CryptoPipe P C :=
  if 0 < bytes.length then
    let deciphered := cryptor.decipher self.crypto self.decryptedData bytes
    (deciphered.1.map fun d => 0 ≤ d,
      { self with crypto := deciphered.2.2, decryptedData := deciphered.2.1 })
  else (.ok true, self)

/-- The loop of `recv`. -/
def recvLoop : ℕ → CryptoPipe P C → ℤ → Bool → RecvRslt × CryptoPipe P C
  | 0, self, _, _ => (.blocked, self)
  | fuel + 1, self, maxdatasz, doRecv =>
      let read := self.readPipe impl doRecv
      match read.1 with
      | .data bytes =>
          let deciphered := read.2.decipherRead cryptor bytes
          match deciphered.1 with
          | .error exception => (.threw exception, deciphered.2)
          | .ok false => (.failed, deciphered.2)
          | .ok true =>
              if maxdatasz < 0 then
                let required := (-maxdatasz).toNat
                if deciphered.2.decryptedData.enough required then
                  let peeked := deciphered.2.decryptedData.peek required
                  (.data peeked.1, { deciphered.2 with decryptedData := peeked.2 })
                else recvLoop fuel deciphered.2 maxdatasz true -- not enough data
              else deciphered.2.deliver maxdatasz.toNat
      | result => (result, read.2)

/-- The first part of `recv`: the salt of the peer. The value is false if `recv` returns
-1. -/
def prepare (deriveAeadSubkey : List UInt8 → List UInt8 → List UInt8) (self : CryptoPipe P C)
    (pipe : P) : RecvRslt × CryptoPipe P C :=
  if cryptor.isDecryptorInit self.crypto then (.data [], self)
  else
    let read := impl.recv pipe (-self.keySize)
    let self := { self with pipe := some read.2 }
    match read.1 with
    | .data salt =>
        if salt.length = self.keySize then
          (.data [], { self with
            crypto := cryptor.initDecryptor self.crypto (deriveAeadSubkey self.masterKey salt) })
        else (.failed, self)
    | result => (result, self)

/-- `READY_PIPE` is cleared before the pipe below is read. -/
def settle (self : CryptoPipe P C) : CryptoPipe P C :=
  if self.decryptedData.isEmpty then self.clearPipeReady impl else self

def recv (deriveAeadSubkey : List UInt8 → List UInt8 → List UInt8) (fuel : ℕ)
    (self : CryptoPipe P C) (maxdatasz : ℤ) : RecvRslt × CryptoPipe P C :=
  match self.pipe with
  | none => (.failed, self)
  | some pipe =>
      let prepared := self.prepare impl cryptor deriveAeadSubkey pipe
      match prepared.1 with
      | .data _ =>
          (prepared.2.settle impl).recvLoop impl cryptor fuel maxdatasz
            prepared.2.decryptedData.isEmpty
      | result => (result, prepared.2)

def close (self : CryptoPipe P C) : CryptoPipe P C := { self with pipe := none }

section

variable (self : CryptoPipe P C)

/-- Marking a waitable touches nothing but the pipe below. -/
theorem settle_eq : ∃ pipe, self.settle impl = { self with pipe } ∧
    (self.pipe.isSome → pipe.isSome) := by
  rw [settle]
  split
  · simp only [clearPipeReady, getWaitable]
    cases below : self.pipe with
    | none => exact ⟨none, by simp [← below], by simp⟩
    | some pipe =>
        cases w : (impl.getWaitable pipe).1 with
        | none => exact ⟨some (impl.getWaitable pipe).2, by simp [w], by simp⟩
        | some waitable => exact ⟨_, by simp [w, setWaitable]; rfl, by simp⟩
  · exact ⟨self.pipe, rfl, id⟩

@[simp]
theorem settle_crypto : (self.settle impl).crypto = self.crypto := by
  rcases settle_eq impl self with ⟨pipe, settled, -⟩
  rw [settled]

@[simp]
theorem settle_decryptedData : (self.settle impl).decryptedData = self.decryptedData := by
  rcases settle_eq impl self with ⟨pipe, settled, -⟩
  rw [settled]

end

/-- The pipe below, by what is known of a pipe. -/
def below (known : P → List UInt8) (self : CryptoPipe P C) : List UInt8 :=
  match self.pipe with
  | some pipe => known pipe
  | none => []

section

variable {impl} {stream : P → List UInt8}

theorem below_settle (source : Source impl stream) (self : CryptoPipe P C) :
    (self.settle impl).below stream = self.below stream := by
  rw [settle]
  split
  · simp only [clearPipeReady, getWaitable]
    cases there : self.pipe with
    | none => simp [below, there]
    | some pipe =>
        cases w : (impl.getWaitable pipe).1 with
        | none => simp [w, below, there, source.getWaitable]
        | some waitable =>
            simp [w, below, there, setWaitable, source.setWaitable, source.getWaitable]
  · rfl

theorem readPipe_data (source : Source impl stream) {self next : CryptoPipe P C}
    {doRecv : Bool} {bytes : List UInt8}
    (received : self.readPipe impl doRecv = (.data bytes, next)) :
    ∃ pipe, next = { self with pipe } ∧ (self.pipe.isSome → pipe.isSome) ∧
      self.below stream = bytes ++ next.below stream := by
  simp only [readPipe] at received
  split at received
  · split at received
    · cases received
    · rename_i pipe there
      rcases call : impl.recv pipe tempSize with ⟨result, rest⟩
      rw [call] at received
      cases received
      rcases source.recv_data call with ⟨handed, -⟩
      exact ⟨some rest, rfl, fun _ => rfl, by simpa [below, there] using handed⟩
  · cases received
    exact ⟨self.pipe, rfl, id, rfl⟩

end

/-- What a call for `size` bytes takes out of `decrypted_data`: the front, of the length
asked for, or of any length up to it. -/
def Delivers (size : ℤ) (before : Outbuffer) (bytes : List UInt8) (behind : Outbuffer) : Prop :=
  before.WellFormed → behind.WellFormed ∧ before.content = bytes ++ behind.content ∧
    if size < 0 then (bytes.length : ℤ) = -size
    else bytes.length = min size.toNat before.content.length

theorem delivers_peek {buffer : Outbuffer} {required : ℕ} {size : ℤ}
    (enough : buffer.enough required = true) (asked : size < 0)
    (whole : required = (-size).toNat) :
    Delivers size buffer (buffer.peek required).1 (buffer.peek required).2 := by
  intro wellFormed
  rcases ChunkBuffer.peek_spec wellFormed required with ⟨bytes, behind, content⟩
  have there := (ChunkBuffer.enough_iff wellFormed required).mp enough
  refine ⟨behind, by rw [bytes, content, List.take_append_drop], ?_⟩
  rw [if_pos asked, bytes, List.length_take]
  omega

theorem Delivers.whole {size : ℤ} {before behind : Outbuffer} {bytes : List UInt8}
    (delivers : Delivers size before bytes behind) (wellFormed : before.WellFormed)
    (negative : size < 0) {bytes' : List UInt8} (same : RecvRslt.data bytes = .data bytes') :
    (bytes'.length : ℤ) = -size := by
  cases same
  rcases delivers wellFormed with ⟨-, -, length⟩
  rwa [if_pos negative] at length

theorem deliver_spec (self : CryptoPipe P C) {size : ℤ} (asked : ¬size < 0) :
    ∃ bytes buffer, self.deliver size.toNat = (.data bytes, { self with decryptedData := buffer }) ∧
      Delivers size self.decryptedData bytes buffer := by
  refine ⟨_, _, rfl, fun wellFormed => ?_⟩
  have fits := ChunkBuffer.enoughFor_iff wellFormed size.toNat
  rw [if_neg asked]
  split
  · rename_i whole
    rcases ChunkBuffer.peekAll_spec wellFormed with ⟨bytes, behind, content⟩
    refine ⟨behind, by rw [bytes, content, List.append_nil], ?_⟩
    rw [bytes, Nat.min_eq_right (fits.mp whole)]
  · rcases ChunkBuffer.peek_spec wellFormed size.toNat with ⟨bytes, behind, content⟩
    exact ⟨behind, by rw [bytes, content, List.take_append_drop], by rw [bytes, List.length_take]⟩

/-- The rule for the loop of `recv`: what holds at its head, what each read that is accepted
makes of it, and what holds where the loop ends. -/
theorem recvLoop_rule (invariant : CryptoPipe P C → Bool → Prop)
    (accepted : CryptoPipe P C → Prop) (post : RecvRslt → CryptoPipe P C → Prop) {size : ℤ}
    (blocked : ∀ {self doRecv}, invariant self doRecv → post .blocked self)
    (stops : ∀ {self next : CryptoPipe P C} {doRecv result}, invariant self doRecv →
      self.readPipe impl doRecv = (result, next) → (∀ bytes, result ≠ .data bytes) →
        post result next)
    (throws : ∀ {self read next : CryptoPipe P C} {doRecv bytes exception},
      invariant self doRecv → self.readPipe impl doRecv = (.data bytes, read) →
      read.decipherRead cryptor bytes = (.error exception, next) → post (.threw exception) next)
    (rejects : ∀ {self read next : CryptoPipe P C} {doRecv bytes}, invariant self doRecv →
      self.readPipe impl doRecv = (.data bytes, read) →
      read.decipherRead cryptor bytes = (.ok false, next) → post .failed next)
    (accepts : ∀ {self read next : CryptoPipe P C} {doRecv bytes}, invariant self doRecv →
      self.readPipe impl doRecv = (.data bytes, read) →
      read.decipherRead cryptor bytes = (.ok true, next) → accepted next)
    (continues : ∀ {self}, accepted self → size < 0 →
      self.decryptedData.enough (-size).toNat = false → invariant self true)
    (delivers : ∀ {self bytes buffer}, accepted self →
      Delivers size self.decryptedData bytes buffer →
        post (.data bytes) { self with decryptedData := buffer })
    (fuel : ℕ) {self : CryptoPipe P C} {doRecv : Bool} (start : invariant self doRecv) :
    post (recvLoop impl cryptor fuel self size doRecv).1
      (recvLoop impl cryptor fuel self size doRecv).2 := by
  induction fuel generalizing self doRecv with
  | zero => exact blocked start
  | succ fuel ih =>
      rw [recvLoop]
      rcases received : self.readPipe impl doRecv with ⟨result, read⟩
      cases result with
      | data bytes =>
          rcases deciphered : read.decipherRead cryptor bytes with ⟨outcome, next⟩
          simp only [deciphered]
          cases outcome with
          | error exception => exact throws start received deciphered
          | ok fine =>
              cases fine with
              | false => exact rejects start received deciphered
              | true =>
                  have kept := accepts start received deciphered
                  by_cases asked : size < 0
                  · simp only [asked, if_true]
                    split
                    · rename_i enough
                      exact delivers kept (delivers_peek enough asked rfl)
                    · rename_i missing
                      exact ih (continues kept asked (by simpa using missing))
                  · rcases deliver_spec next asked with ⟨bytes, buffer, result, taken⟩
                    simp only [asked, if_false, result]
                    exact delivers kept taken
      | failed => exact stops start received (by simp)
      | threw exception => exact stops start received (by simp)
      | blocked => exact stops start received (by simp)

/-- The rule for the loop of `recv` where every read is deciphered and accepted. -/
theorem recvLoop_rule_of_accepts (invariant : CryptoPipe P C → Bool → Prop)
    (accepted : CryptoPipe P C → Prop) (post : RecvRslt → CryptoPipe P C → Prop) {size : ℤ}
    (blocked : ∀ {self doRecv}, invariant self doRecv → post .blocked self)
    (stops : ∀ {self next : CryptoPipe P C} {doRecv result}, invariant self doRecv →
      self.readPipe impl doRecv = (result, next) → (∀ bytes, result ≠ .data bytes) →
        post result next)
    (accepts : ∀ {self read next : CryptoPipe P C} {doRecv bytes outcome},
      invariant self doRecv → self.readPipe impl doRecv = (.data bytes, read) →
      read.decipherRead cryptor bytes = (outcome, next) → outcome = .ok true ∧ accepted next)
    (continues : ∀ {self}, accepted self → size < 0 →
      self.decryptedData.enough (-size).toNat = false → invariant self true)
    (delivers : ∀ {self bytes buffer}, accepted self →
      Delivers size self.decryptedData bytes buffer →
        post (.data bytes) { self with decryptedData := buffer })
    (fuel : ℕ) {self : CryptoPipe P C} {doRecv : Bool} (start : invariant self doRecv) :
    post (recvLoop impl cryptor fuel self size doRecv).1
      (recvLoop impl cryptor fuel self size doRecv).2 := by
  refine recvLoop_rule impl cryptor invariant accepted post blocked stops ?_ ?_ ?_ continues
    delivers fuel start
  · intro self read next doRecv bytes exception holds received deciphered
    cases (accepts holds received deciphered).1
  · intro self read next doRecv bytes holds received deciphered
    cases (accepts holds received deciphered).1
  · intro self read next doRecv bytes holds received deciphered
    exact (accepts holds received deciphered).2

/-- Calls of `send` one after the other. -/
def sendAll (self : CryptoPipe P C) (plains : List (List UInt8)) : CryptoPipe P C :=
  plains.foldl (fun self plain => (self.send impl cryptor (some plain)).2) self

/-- Calls of `recv` one after the other, each with the fuel of its loop and the size asked
for: what they return, and the pipe behind them. -/
def recvAll (deriveAeadSubkey : List UInt8 → List UInt8 → List UInt8) :
    CryptoPipe P C → List (ℕ × ℤ) → List UInt8 × CryptoPipe P C
  | self, [] => ([], self)
  | self, (fuel, size) :: calls =>
      let call := self.recv impl cryptor deriveAeadSubkey fuel size
      let rest := recvAll deriveAeadSubkey call.2 calls
      (call.1.bytes ++ rest.1, rest.2)

/-- The pipes that calls in any order lead to. -/
inductive Reachable (deriveAeadSubkey : List UInt8 → List UInt8 → List UInt8) :
    CryptoPipe P C → Prop where
  | create (pipe : P) (masterKey salt : List UInt8) :
      Reachable deriveAeadSubkey (create cryptor pipe deriveAeadSubkey masterKey salt)
  | send {self : CryptoPipe P C} (data : Option (List UInt8))
      (reachable : Reachable deriveAeadSubkey self) :
      Reachable deriveAeadSubkey (self.send impl cryptor data).2
  | recv {self : CryptoPipe P C} (fuel : ℕ) (maxdatasz : ℤ)
      (reachable : Reachable deriveAeadSubkey self) :
      Reachable deriveAeadSubkey (self.recv impl cryptor deriveAeadSubkey fuel maxdatasz).2
  | getWaitable {self : CryptoPipe P C} (reachable : Reachable deriveAeadSubkey self) :
      Reachable deriveAeadSubkey (self.getWaitable impl).2
  | setWaitable {self : CryptoPipe P C} (w : Waitable)
      (reachable : Reachable deriveAeadSubkey self) :
      Reachable deriveAeadSubkey (self.setWaitable impl w)
  | close {self : CryptoPipe P C} (reachable : Reachable deriveAeadSubkey self) :
      Reachable deriveAeadSubkey self.close

section

variable {impl cryptor} {deriveAeadSubkey : List UInt8 → List UInt8 → List UInt8}

@[simp]
theorem getWaitable_crypto (self : CryptoPipe P C) :
    (self.getWaitable impl).2.crypto = self.crypto := by
  simp only [getWaitable]
  repeat' split
  all_goals rfl

@[simp]
theorem readPipe_crypto (self : CryptoPipe P C) (doRecv : Bool) :
    (self.readPipe impl doRecv).2.crypto = self.crypto := by
  simp only [readPipe]
  repeat' split
  all_goals rfl

theorem decipherRead_crypto {invariant : C → Prop}
    (decipher : ∀ crypto plain cipher, invariant crypto →
      invariant (cryptor.decipher crypto plain cipher).2.2)
    {self : CryptoPipe P C} (bytes : List UInt8) (holds : invariant self.crypto) :
    invariant (self.decipherRead cryptor bytes).2.crypto := by
  rw [decipherRead]
  split
  · exact decipher _ _ _ holds
  · exact holds

theorem prepare_crypto {invariant : C → Prop}
    (initDecryptor : ∀ crypto key, invariant crypto → invariant (cryptor.initDecryptor crypto key))
    {self : CryptoPipe P C} (pipe : P) (holds : invariant self.crypto) :
    invariant (self.prepare impl cryptor deriveAeadSubkey pipe).2.crypto := by
  simp only [prepare]
  repeat' split
  all_goals first | exact holds | exact initDecryptor _ _ holds

/-- What every operation of a cryptor keeps holds of the cryptor of every pipe. -/
theorem Reachable.crypto {invariant : C → Prop}
    (initEncryptor : ∀ key, invariant (cryptor.initEncryptor key))
    (initDecryptor : ∀ crypto key, invariant crypto → invariant (cryptor.initDecryptor crypto key))
    (encipher : ∀ crypto plain cipher, invariant crypto →
      invariant (cryptor.encipher crypto plain cipher).2.2)
    (decipher : ∀ crypto plain cipher, invariant crypto →
      invariant (cryptor.decipher crypto plain cipher).2.2)
    {self : CryptoPipe P C} (reachable : Reachable impl cryptor deriveAeadSubkey self) :
    invariant self.crypto := by
  induction reachable with
  | create pipe masterKey salt => exact initEncryptor _
  | send data reachable ih =>
      simp only [CryptoPipe.send]
      repeat' split
      all_goals first | exact ih | exact encipher _ _ _ ih
  | recv fuel maxdatasz reachable ih =>
      simp only [CryptoPipe.recv]
      split
      · exact ih
      · rename_i pipe below
        have prepared :
            invariant (CryptoPipe.prepare impl cryptor deriveAeadSubkey _ pipe).2.crypto :=
          prepare_crypto initDecryptor pipe ih
        split
        · have read : ∀ {self next : CryptoPipe P C} {doRecv : Bool} {result : RecvRslt},
              invariant self.crypto → self.readPipe impl doRecv = (result, next) →
                invariant next.crypto := by
            intro self next doRecv result holds received
            have same : (self.readPipe impl doRecv).2.crypto = self.crypto :=
              readPipe_crypto self doRecv
            rw [received] at same
            rwa [← same] at holds
          have handed : ∀ {self read next : CryptoPipe P C} {doRecv : Bool} {bytes : List UInt8}
              {outcome : Except Exception Bool}, invariant self.crypto →
                self.readPipe impl doRecv = (.data bytes, read) →
                read.decipherRead cryptor bytes = (outcome, next) → invariant next.crypto := by
            intro self between next doRecv bytes outcome holds received deciphered
            have kept := decipherRead_crypto decipher bytes (read holds received)
            rwa [deciphered] at kept
          exact recvLoop_rule impl cryptor (fun self _ => invariant self.crypto)
            (fun self => invariant self.crypto) (fun _ self => invariant self.crypto) id
            (fun holds received _ => read holds received) handed handed handed
            (fun holds _ _ => holds) (fun holds _ => holds) fuel (by simpa using prepared)
        · exact prepared
  | getWaitable reachable ih => simpa using ih
  | setWaitable w reachable ih => exact ih
  | close reachable ih => exact ih

end

/-- A `crypto_pipe` as a pipe. -/
def pipeImpl (deriveAeadSubkey : List UInt8 → List UInt8 → List UInt8) (fuel : ℕ) :
    PipeImpl (CryptoPipe P C) where
  send := send impl cryptor
  recv := recv impl cryptor deriveAeadSubkey fuel
  getWaitable := getWaitable impl
  setWaitable := setWaitable impl

end CryptoPipe

end Imconee.Shadowsocks
