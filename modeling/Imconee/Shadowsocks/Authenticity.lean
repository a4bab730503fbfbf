import Imconee.Botan.Aead
import Imconee.Shadowsocks.CryptoPipe
import Imconee.Shadowsocks.Decoder

/-!
# Tampered input

A size block that does not verify is an error return, but the payload block behind it is
opened outside the handler: its exception leaves `decipher` and `recv`. The mode has then
released the blocks it updated before it came to the tag.
-/

set_option autoImplicit false

namespace Imconee.Shadowsocks

open Imconee.Lib Imconee.Botan Imconee.Netkit Imconee.Tools

variable {State : Type}

section

variable {aead : Aead State} {key : List UInt8} {cryptor : AeadDecryptor State}

namespace AeadDecryptor

variable (aead key) in
/-- The states of a decryptor under a key, whatever it is given. -/
inductive Reachable (nonceSize : ℕ) : AeadDecryptor State → Prop where
  | setup : Reachable nonceSize { decryptor := .setup (aead.decryption key) nonceSize }
  | decipher {cryptor : AeadDecryptor State} (cipher : List UInt8)
      (reachable : Reachable nonceSize cryptor) : Reachable nonceSize (cryptor.run cipher).cryptor

theorem Reachable.ready {nonceSize : ℕ} (reachable : cryptor.Reachable aead key nonceSize) :
    cryptor.Ready aead key := by
  induction reachable with
  | setup => exact ⟨rfl, SkipBuf.wellFormed_empty, Nat.le_refl _⟩
  | decipher cipher _ ih => exact (run_spec ih cipher).ready

/-- An exception leaves `decipher` where the decoder meets a forged payload block. -/
theorem decipher_threw_iff (ready : cryptor.Ready aead key) (plain : Outbuffer)
    (cipher : List UInt8) :
    (∃ exception, (cryptor.decipher plain cipher).1 = .error exception) ↔
      meetsForgery aead key (cryptor.decodingWith aead key cipher) = true := by
  have spec := run_spec ready cipher
  constructor
  · rintro ⟨exception, thrown⟩
    by_contra forgery
    have returned := spec.returns (by simpa using forgery)
    rw [decipher, returned] at thrown
    cases thrown
  · exact spec.throws

end AeadDecryptor

/-- `decipher` appends the payloads of the blocks that verify and nothing else, exactly
unless it meets a payload block that does not verify and is long enough to be released in
part. -/
theorem released_iff (ready : cryptor.Ready aead key) {plain : Outbuffer}
    (wellFormed : plain.WellFormed) (cipher : List UInt8) :
    (cryptor.decipher plain cipher).2.1.content =
        plain.content ++ (cryptor.decodingWith aead key cipher).output ↔
      ¬∃ nonce length, (cryptor.decodingWith aead key cipher).halted = some .forged ∧
        (cryptor.decodingWith aead key cipher).state = .payload nonce length ∧
        (aead.decryption key).idealGranularity ≤ length := by
  rcases (AeadDecryptor.run_spec ready cipher).released with ⟨leak, appended, leakLength⟩
  rcases foldl_append_spec wellFormed (cryptor.run cipher).appended with ⟨-, content⟩
  have positive := (aead.decryption_computes key).idealGranularity_pos
  rw [AeadDecryptor.decipher, content, appended, List.append_right_inj, List.append_right_eq_self,
    ← List.length_eq_zero_iff, leakLength, AeadDecryptor.leaked]
  generalize cryptor.decodingWith aead key cipher = decoding
  constructor
  · rintro nothing ⟨nonce, length, halted, state, large⟩
    simp only [halted, state] at nothing
    have some := Nat.div_pos large positive
    have product := Nat.mul_pos positive some
    omega
  · intro none
    split
    · rename_i nonce length halted state
      have small : length < (aead.decryption key).idealGranularity := by
        by_contra large
        exact none ⟨nonce, length, halted, state, by omega⟩
      rw [Nat.div_eq_of_lt small, Nat.mul_zero]
    · rfl

end

namespace CryptoPipe

variable {P C : Type} (impl : PipeImpl P) (cryptor : Cryptor C)

/-- The bytes that the loop of `recv` comes to hand to `decipher`, and the pipe it does so
in. -/
inductive Hands (size : ℤ) : CryptoPipe P C → Bool → CryptoPipe P C → List UInt8 → Prop where
  | here {self read : CryptoPipe P C} {doRecv : Bool} {bytes : List UInt8}
      (received : self.readPipe impl doRecv = (.data bytes, read)) :
      Hands size self doRecv read bytes
  | later {self read next last : CryptoPipe P C} {doRecv : Bool} {bytes lastBytes : List UInt8}
      (received : self.readPipe impl doRecv = (.data bytes, read))
      (deciphered : read.decipherRead cryptor bytes = (.ok true, next)) (negative : size < 0)
      (missing : next.decryptedData.enough (-size).toNat = false)
      (rest : Hands size next true last lastBytes) : Hands size self doRecv last lastBytes

variable {impl cryptor} in
/-- What each accepted read keeps holds where the loop comes to. -/
theorem Hands.invariant {self last : CryptoPipe P C} {size : ℤ} {doRecv : Bool}
    {bytes : List UInt8} (hands : Hands impl cryptor size self doRecv last bytes)
    (invariant : CryptoPipe P C → Prop)
    (accepts : ∀ {self read next : CryptoPipe P C} {doRecv bytes}, invariant self →
      self.readPipe impl doRecv = (.data bytes, read) →
      read.decipherRead cryptor bytes = (.ok true, next) → invariant next)
    (start : invariant self) :
    ∃ before again, invariant before ∧ before.readPipe impl again = (.data bytes, last) := by
  induction hands with
  | here received => exact ⟨_, _, start, received⟩
  | later received deciphered _ _ _ ih => exact ih (accepts start received deciphered)

/-- The loop lets an exception through exactly where a call of `decipher` throws. -/
theorem recvLoop_threw_iff {self : CryptoPipe P C} {size : ℤ} {doRecv : Bool}
    (quiet : ∀ pipe size exception, (impl.recv pipe size).1 ≠ .threw exception) :
    (∃ fuel exception, (recvLoop impl cryptor fuel self size doRecv).1 = .threw exception) ↔
      ∃ last bytes exception, Hands impl cryptor size self doRecv last bytes ∧
        (last.decipherRead cryptor bytes).1 = .error exception := by
  constructor
  · rintro ⟨fuel, exception, thrown⟩
    induction fuel generalizing self doRecv with
    | zero => simp [recvLoop] at thrown
    | succ fuel ih =>
        rw [recvLoop] at thrown
        rcases read : self.readPipe impl doRecv with ⟨result, next⟩
        cases result with
        | data bytes =>
            rcases call : next.decipherRead cryptor bytes with ⟨outcome, last⟩
            simp only [read, call] at thrown
            cases outcome with
            | error other => exact ⟨next, bytes, other, .here read, by rw [call]⟩
            | ok accepted =>
                cases accepted with
                | false => cases thrown
                | true =>
                    simp only at thrown
                    split at thrown
                    · rename_i negative
                      split at thrown
                      · cases thrown
                      · rename_i missing
                        rcases ih thrown with ⟨final, bytes', other, rest, threw⟩
                        exact ⟨final, bytes', other,
                          .later read call negative (by simpa using missing) rest, threw⟩
                    · cases thrown
        | threw other =>
            simp only [readPipe] at read
            split at read
            · split at read
              · cases read
              · rename_i pipe _
                exact absurd (congrArg Prod.fst read) (quiet pipe tempSize other)
            · cases read
        | failed =>
            simp only [read] at thrown
            cases thrown
        | blocked =>
            simp only [read] at thrown
            cases thrown
  · rintro ⟨last, bytes, exception, hands, threw⟩
    induction hands with
    | here received =>
        exact ⟨1, exception, by simp only [recvLoop, received, threw]⟩
    | later received deciphered negative missing _ ih =>
        rcases ih threw with ⟨fuel, exception, rest⟩
        refine ⟨fuel + 1, exception, ?_⟩
        simp only [recvLoop, received, deciphered, negative, if_true, missing]
        exact rest

/-- The bytes that `recv` comes to hand to `decipher`, and the pipe it does so in. -/
def Deciphers (deriveAeadSubkey : List UInt8 → List UInt8 → List UInt8) (self : CryptoPipe P C)
    (size : ℤ) (last : CryptoPipe P C) (bytes : List UInt8) : Prop :=
  ∃ pipe salt ready, self.pipe = some pipe ∧
    self.prepare impl cryptor deriveAeadSubkey pipe = (.data salt, ready) ∧
    Hands impl cryptor size (ready.settle impl) ready.decryptedData.isEmpty last bytes

theorem recv_threw_iff {self : CryptoPipe P C} {size : ℤ}
    {deriveAeadSubkey : List UInt8 → List UInt8 → List UInt8}
    (quiet : ∀ pipe size exception, (impl.recv pipe size).1 ≠ .threw exception) :
    (∃ fuel exception,
        (recv impl cryptor deriveAeadSubkey fuel self size).1 = .threw exception) ↔
      ∃ last bytes exception, self.Deciphers impl cryptor deriveAeadSubkey size last bytes ∧
        (last.decipherRead cryptor bytes).1 = .error exception := by
  cases below : self.pipe with
  | none => simp [recv, Deciphers, below]
  | some pipe =>
      rcases prepared : self.prepare impl cryptor deriveAeadSubkey pipe with ⟨result, ready⟩
      cases result with
      | data salt =>
          simp only [recv, Deciphers, below, prepared, Option.some.injEq]
          rw [recvLoop_threw_iff impl cryptor quiet]
          constructor
          · rintro ⟨last, bytes, exception, hands, threw⟩
            exact ⟨last, bytes, exception, ⟨pipe, salt, ready, rfl, prepared, hands⟩, threw⟩
          · rintro ⟨last, bytes, exception, ⟨pipe', salt', ready', rfl, same, hands⟩, threw⟩
            rw [prepared, Prod.mk.injEq] at same
            rcases same with ⟨-, rfl⟩
            exact ⟨last, bytes, exception, hands, threw⟩
      | threw exception =>
          simp only [prepare] at prepared
          split at prepared
          · cases prepared
          · split at prepared
            · split at prepared <;> cases prepared
            · rw [Prod.mk.injEq] at prepared
              exact absurd prepared.1 (quiet pipe _ exception)
      | failed => simp [recv, Deciphers, below, prepared]
      | blocked => simp [recv, Deciphers, below, prepared]

end CryptoPipe

section

variable {P : Type} {impl : PipeImpl P} {aead : Aead State} {nonceSize : ℕ}
  {deriveAeadSubkey : List UInt8 → List UInt8 → List UInt8}

/-- The decryptor, if there is one, has only been set up and given segments. -/
def AeadCryptor.Keyed (aead : Aead State) (nonceSize : ℕ) (crypto : AeadCryptor State) : Prop :=
  ∀ cryptor, crypto.decryptor = some cryptor → ∃ key, cryptor.Reachable aead key nonceSize

theorem AeadCryptor.Keyed.initDecryptor (crypto : AeadCryptor State) (key : List UInt8) :
    ((aeadCryptor aead nonceSize).initDecryptor crypto key).Keyed aead nonceSize := by
  intro cryptor same
  cases same
  exact ⟨key, .setup⟩

theorem AeadCryptor.Keyed.decipher (crypto : AeadCryptor State) (plain : Outbuffer)
    (cipher : List UInt8) (keyed : crypto.Keyed aead nonceSize) :
    ((aeadCryptor aead nonceSize).decipher crypto plain cipher).2.2.Keyed aead nonceSize := by
  intro cryptor same
  simp only [aeadCryptor] at same
  split at same
  · rename_i before there
    rcases keyed before there with ⟨key, reachable⟩
    cases same
    exact ⟨key, reachable.decipher cipher⟩
  · rename_i none
    simp [none] at same

theorem CryptoPipe.Reachable.keyed {self : CryptoPipe P (AeadCryptor State)}
    (reachable : self.Reachable impl (aeadCryptor aead nonceSize) deriveAeadSubkey) :
    self.crypto.Keyed aead nonceSize :=
  reachable.crypto (fun _ _ none => by cases none)
    (fun crypto key _ => AeadCryptor.Keyed.initDecryptor crypto key)
    (fun _ _ _ keyed => keyed) AeadCryptor.Keyed.decipher

theorem CryptoPipe.Hands.keyed {self last : CryptoPipe P (AeadCryptor State)} {size : ℤ}
    {doRecv : Bool} {bytes : List UInt8}
    (hands : Hands impl (aeadCryptor aead nonceSize) size self doRecv last bytes)
    (keyed : self.crypto.Keyed aead nonceSize) : last.crypto.Keyed aead nonceSize := by
  have read : ∀ {self next : CryptoPipe P (AeadCryptor State)} {doRecv : Bool}
      {bytes : List UInt8}, self.readPipe impl doRecv = (.data bytes, next) →
        self.crypto.Keyed aead nonceSize → next.crypto.Keyed aead nonceSize := by
    intro self next doRecv bytes received keyed
    have same : (self.readPipe impl doRecv).2.crypto = self.crypto := readPipe_crypto self doRecv
    rw [received] at same
    rwa [← same] at keyed
  rcases hands.invariant
    (fun self => self.crypto.Keyed aead nonceSize) (by
      intro self between next doRecv bytes keyed received deciphered
      have kept : (between.decipherRead (aeadCryptor aead nonceSize) bytes).2.crypto.Keyed
          aead nonceSize :=
        decipherRead_crypto AeadCryptor.Keyed.decipher bytes (read received keyed)
      rwa [deciphered] at kept) keyed with ⟨before, again, kept, received⟩
  exact read received kept

theorem CryptoPipe.Deciphers.keyed {self last : CryptoPipe P (AeadCryptor State)} {size : ℤ}
    {bytes : List UInt8}
    (deciphers : self.Deciphers impl (aeadCryptor aead nonceSize) deriveAeadSubkey size last bytes)
    (keyed : self.crypto.Keyed aead nonceSize) : last.crypto.Keyed aead nonceSize := by
  rcases deciphers with ⟨pipe, salt, ready, -, prepared, hands⟩
  have kept : (self.prepare impl (aeadCryptor aead nonceSize) deriveAeadSubkey pipe).2.crypto.Keyed
      aead nonceSize :=
    prepare_crypto (fun crypto key _ => AeadCryptor.Keyed.initDecryptor crypto key) pipe keyed
  rw [prepared] at kept
  exact hands.keyed (by simpa using kept)

/-- One read of `recv` that a forged payload block is met in. -/
theorem decipherRead_threw_iff {self : CryptoPipe P (AeadCryptor State)}
    (keyed : self.crypto.Keyed aead nonceSize) (bytes : List UInt8) :
    (∃ exception, (self.decipherRead (aeadCryptor aead nonceSize) bytes).1 = .error exception) ↔
      bytes ≠ [] ∧ ∃ cryptor key, self.crypto.decryptor = some cryptor ∧
        cryptor.Reachable aead key nonceSize ∧
        AeadDecryptor.meetsForgery aead key (cryptor.decodingWith aead key bytes) = true := by
  by_cases some : 0 < bytes.length
  · have nonempty := List.length_pos_iff.mp some
    cases there : self.crypto.decryptor with
    | none => simp [CryptoPipe.decipherRead, some, aeadCryptor, there, Except.map]
    | some cryptor =>
        have result : (self.decipherRead (aeadCryptor aead nonceSize) bytes).1 =
            (cryptor.decipher self.decryptedData bytes).1.map fun d => decide (0 ≤ d) := by
          simp only [CryptoPipe.decipherRead, some, if_true, aeadCryptor, there]
        have same : (∃ exception, (self.decipherRead (aeadCryptor aead nonceSize) bytes).1 =
            .error exception) ↔ ∃ exception,
              (cryptor.decipher self.decryptedData bytes).1 = .error exception := by
          rw [result]
          cases (cryptor.decipher self.decryptedData bytes).1 <;> simp [Except.map]
        rw [same]
        constructor
        · intro threw
          rcases keyed cryptor there with ⟨key, reachable⟩
          exact ⟨nonempty, cryptor, key, rfl, reachable,
            (AeadDecryptor.decipher_threw_iff reachable.ready _ bytes).mp threw⟩
        · rintro ⟨-, cryptor', key, found, reachable, forgery⟩
          cases found
          exact (AeadDecryptor.decipher_threw_iff reachable.ready _ bytes).mpr forgery
  · have empty : bytes = [] := List.length_eq_zero_iff.mp (by omega)
    simp [CryptoPipe.decipherRead, empty]

variable (deriveAeadSubkey) in
/-- No exception leaves `decipher` or `recv`, exactly as long as no bytes make the decoder
meet a payload block that is complete and does not verify. -/
theorem returns_iff (quiet : ∀ pipe size exception, (impl.recv pipe size).1 ≠ .threw exception) :
    (∀ {cryptor : AeadDecryptor State} {key : List UInt8} (plain : Outbuffer)
        (cipher : List UInt8), cryptor.Reachable aead key nonceSize →
      ((∀ exception, (cryptor.decipher plain cipher).1 ≠ .error exception) ↔
        AeadDecryptor.meetsForgery aead key (cryptor.decodingWith aead key cipher) = false)) ∧
    ∀ {self : CryptoPipe P (AeadCryptor State)} (size : ℤ),
      self.Reachable impl (aeadCryptor aead nonceSize) deriveAeadSubkey →
      ((∀ fuel exception, (self.recv impl (aeadCryptor aead nonceSize) deriveAeadSubkey fuel
          size).1 ≠ .threw exception) ↔
        ∀ last bytes cryptor key,
          self.Deciphers impl (aeadCryptor aead nonceSize) deriveAeadSubkey size last bytes →
          bytes ≠ [] → last.crypto.decryptor = some cryptor →
          cryptor.Reachable aead key nonceSize →
          AeadDecryptor.meetsForgery aead key (cryptor.decodingWith aead key bytes) = false) := by
  refine ⟨?_, ?_⟩
  · intro cryptor key plain cipher reachable
    rw [← not_iff_not, Bool.not_eq_false, ← AeadDecryptor.decipher_threw_iff reachable.ready plain]
    simp
  · intro self size reachable
    constructor
    · intro returns last bytes cryptor key deciphers nonempty there reached
      by_contra forgery
      rcases (decipherRead_threw_iff (deciphers.keyed reachable.keyed)
        bytes).mpr ⟨nonempty, cryptor, key, there, reached, by simpa using forgery⟩ with
        ⟨exception, threw⟩
      rcases (CryptoPipe.recv_threw_iff impl _ quiet).mpr ⟨last, bytes, exception, deciphers, threw⟩
        with ⟨fuel, exception, thrown⟩
      exact returns fuel exception thrown
    · intro genuine fuel exception thrown
      rcases (CryptoPipe.recv_threw_iff impl _ quiet).mp ⟨fuel, exception, thrown⟩ with
        ⟨last, bytes, exception, deciphers, threw⟩
      rcases (decipherRead_threw_iff (deciphers.keyed reachable.keyed) bytes).mp ⟨exception, threw⟩
        with ⟨nonempty, cryptor, key, there, reached, forgery⟩
      rw [genuine last bytes cryptor key deciphers nonempty there reached] at forgery
      cases forgery

/-- A frame whose tags are those of the stand-in for the ciphers, but for the payload's. -/
def forgedFrame (payload : List UInt8) : List UInt8 :=
  toNe payload.length ++ List.replicate aeadTagSize 0 ++
    (payload ++ List.replicate aeadTagSize 0)

/-- The receiving end of a session on the stand-in for the ciphers: salt and frames are
there to be read. -/
def plainPipe (frames : List UInt8) : CryptoPipe MemoryPipe (AeadCryptor Message) :=
  .create (aeadCryptor (gcm fun _ => .plain) 12) { incoming := [[1, 2] ++ frames] }
    (fun _ _ => []) [] [3, 4]

theorem returns_iff_plain :
    ((∀ exception, (plainReceiver.decipher {} (forgedFrame [7])).1 ≠ .error exception) ↔
      AeadDecryptor.meetsForgery (gcm fun _ => .plain) []
        (plainReceiver.decodingWith (gcm fun _ => .plain) [] (forgedFrame [7])) = false) ∧
    ((∀ fuel exception, ((plainPipe (forgedFrame [7])).recv memoryPipe
          (aeadCryptor (gcm fun _ => .plain) 12) (fun _ _ => []) fuel (-1)).1 ≠
            .threw exception) ↔
      ∀ last bytes cryptor key, (plainPipe (forgedFrame [7])).Deciphers memoryPipe
          (aeadCryptor (gcm fun _ => .plain) 12) (fun _ _ => []) (-1) last bytes →
        bytes ≠ [] → last.crypto.decryptor = some cryptor →
        cryptor.Reachable (gcm fun _ => .plain) key 12 →
        AeadDecryptor.meetsForgery (gcm fun _ => .plain) key
          (cryptor.decodingWith (gcm fun _ => .plain) key bytes) = false) :=
  ⟨(returns_iff (fun _ _ => []) quiet_memoryPipe).1 {} (forgedFrame [7]) .setup,
    (returns_iff (fun _ _ => []) quiet_memoryPipe).2 (-1) (.create _ _ _)⟩

/-- One altered bit in the tag of a payload block is an exception. -/
theorem escape_of_forgedFrame :
    ¬∀ (cryptor : AeadDecryptor Message) (plain : Outbuffer) (cipher : List UInt8),
      cryptor.Reachable (gcm fun _ => .plain) [] 12 →
        ∀ exception, (cryptor.decipher plain cipher).1 ≠ .error exception := by
  intro returns
  have thrown : (plainReceiver.decipher {} (forgedFrame [7])).1 =
      .error .invalidAuthenticationTag := by decide
  exact returns plainReceiver {} (forgedFrame [7]) .setup _ thrown

theorem released_iff_plain :
    (plainReceiver.decipher {} (forgedFrame [7])).2.1.content =
        [] ++ (plainReceiver.decodingWith (gcm fun _ => .plain) [] (forgedFrame [7])).output ↔
      ¬∃ nonce length, (plainReceiver.decodingWith (gcm fun _ => .plain) []
          (forgedFrame [7])).halted = some .forged ∧
        (plainReceiver.decodingWith (gcm fun _ => .plain) [] (forgedFrame [7])).state =
          .payload nonce length ∧ 64 ≤ length :=
  released_iff plainReceiver_ready ChunkBuffer.wellFormed_empty (forgedFrame [7])

/-- A payload of one granule is released although its tag is altered. -/
theorem release_of_forgedFrame :
    ¬∀ (cryptor : AeadDecryptor Message) (plain : Outbuffer) (cipher : List UInt8),
      cryptor.Ready (gcm fun _ => .plain) [] → plain.WellFormed →
        (cryptor.decipher plain cipher).2.1.content = plain.content ++
          (cryptor.decodingWith (gcm fun _ => .plain) [] cipher).output := by
  intro authentic
  have same := authentic plainReceiver {} (forgedFrame (List.replicate 64 7)) plainReceiver_ready
    ChunkBuffer.wellFormed_empty
  have content : (plainReceiver.decipher {} (forgedFrame (List.replicate 64 7))).2.1.content =
      List.replicate 64 7 := by decide
  have size : (Decoder.reader (gcm fun _ => .plain) []).look plainReceiver.position
      (plainReceiver.pending 0 ++ forgedFrame (List.replicate 64 7)) =
        .take 18 (.payload (nonceIncrement (List.replicate 12 0)) 64) [] := by rfl
  have payload : (Decoder.reader (gcm fun _ => .plain) []).look
      (.payload (nonceIncrement (List.replicate 12 0)) 64)
      ((plainReceiver.pending 0 ++ forgedFrame (List.replicate 64 7)).drop 18) =
        .halt .forged := by rfl
  rw [content, AeadDecryptor.decodingWith, Reader.drain_of_take size,
    Reader.drain_of_halt payload] at same
  revert same
  decide

end

end Imconee.Shadowsocks
