import Imconee.Botan.Aead
import Imconee.Botan.ChaChaStream
import Imconee.Botan.Poly1305Tag

/-!
# `Botan::ChaCha20Poly1305_Mode`

The mode over the stream cipher and the authenticator that it owns. Every message starts the
stream anew under its nonce; the first block of it is the key of the authenticator and the
message is encrypted with what follows. Nonces of 12 and 24 bytes select the version of the
CFRG, which pads to blocks and puts the lengths behind, nonces of 8 bytes the older one.

In the end both directions are the encryption and the decryption of `Primitives`, with the
keystream of `ChaCha` and the tag of `Poly1305` in the places of its parameters.
-/

set_option autoImplicit false

namespace Imconee.Botan

open Imconee.Lib

/-- `ChaCha20Poly1305_Mode`, behind `set_key` -/
structure ChaCha20Poly1305Mode where
  chacha : ChaCha
  poly1305 : Poly1305
  ad : List UInt8
  nonceLen : ℕ
  ctextLen : ℕ

namespace ChaCha20Poly1305Mode

/-- The `ChaCha` that the constructor makes -/
def chacha20 : ChaCha.Rounds := ⟨20, by decide⟩

variable (cpu : ChaCha.Cpu)

/-- The constructor and `set_key`, where 32 bytes are required -/
def new (key : List UInt8) : Option ChaCha20Poly1305Mode :=
  if key.length = 32 then do
    let chacha ← ChaCha.setKey cpu chacha20 key
    return {
      chacha, poly1305 := ⟨none, ⟨List.replicate 16 0, 0⟩⟩, ad := [], nonceLen := 0, ctextLen := 0 }
  else none

/-- `valid_nonce_length` -/
def validNonceLength (n : ℕ) : Bool := n == 8 || n == 12 || n == 24

/-- `set_associated_data_n` with index 0 -/
def setAssociatedData (self : ChaCha20Poly1305Mode) (ad : List UInt8) :
    Option ChaCha20Poly1305Mode :=
  if self.ctextLen > 0 ∨ self.nonceLen > 0 then none else some { self with ad }

/-- `cfrg_version` -/
def cfrgVersion (self : ChaCha20Poly1305Mode) : Bool := self.nonceLen == 12 || self.nonceLen == 24

/-- `m_poly1305->update` -/
def updateMac (self : ChaCha20Poly1305Mode) (input : List UInt8) : Option ChaCha20Poly1305Mode :=
  (self.poly1305.addData input).map fun poly1305 => { self with poly1305 }

/-- `update_len` -/
def updateLen (self : ChaCha20Poly1305Mode) (len : ℕ) : Option ChaCha20Poly1305Mode :=
  self.updateMac (LittleEndian.encode 8 len)

/-- The zeros that fill the last block, if there are any to fill in -/
def updatePad (self : ChaCha20Poly1305Mode) (size : ℕ) : Option ChaCha20Poly1305Mode :=
  if size % 16 ≠ 0 then self.updateMac (List.replicate (16 - size % 16) 0) else some self

/-- `start_msg`; `none` is an exception. -/
def startMsg (self : ChaCha20Poly1305Mode) (nonce : List UInt8) : Option ChaCha20Poly1305Mode :=
  if validNonceLength nonce.length then do
    let chacha ← self.chacha.setIv cpu nonce
    let firstBlock := chacha.generateKeystream cpu 64
    let poly1305 ← self.poly1305.setKey (firstBlock.1.take 32)
    let self := { self with
      chacha := firstBlock.2, poly1305, nonceLen := nonce.length, ctextLen := 0 }
    let self ← self.updateMac self.ad
    if self.cfrgVersion then self.updatePad self.ad.length else self.updateLen self.ad.length
  else none

/-- `ChaCha20Poly1305_Encryption::process_msg` -/
def encryptProcess (self : ChaCha20Poly1305Mode) (buf : List UInt8) :
    Option (List UInt8 × ChaCha20Poly1305Mode) := do
  let ciphered := self.chacha.cipherBytes cpu buf
  let self ← { self with chacha := ciphered.2 }.updateMac ciphered.1
  return (ciphered.1, { self with ctextLen := self.ctextLen + buf.length })

/-- `ChaCha20Poly1305_Decryption::process_msg` -/
def decryptProcess (self : ChaCha20Poly1305Mode) (buf : List UInt8) :
    Option (List UInt8 × ChaCha20Poly1305Mode) := do
  let self ← self.updateMac buf
  let ciphered := self.chacha.cipherBytes cpu buf
  return (ciphered.1,
    { self with chacha := ciphered.2, ctextLen := self.ctextLen + buf.length })

/-- What the version of the CFRG puts behind the ciphertext, but for its length -/
def updateCfrg (self : ChaCha20Poly1305Mode) : Option ChaCha20Poly1305Mode :=
  if self.cfrgVersion then do
    let self ← self.updatePad self.ctextLen
    self.updateLen self.ad.length
  else some self

/-- What both versions of `finish_msg` do for the tag -/
def finishMac (self : ChaCha20Poly1305Mode) : Option (List UInt8 × ChaCha20Poly1305Mode) := do
  let self ← self.updateCfrg
  let self ← self.updateLen self.ctextLen
  let final ← self.poly1305.finalResult
  return (final.1, { self with poly1305 := final.2, nonceLen := 0, ctextLen := 0 })

/-- `ChaCha20Poly1305_Encryption::finish_msg` -/
def encryptFinish (self : ChaCha20Poly1305Mode) (buffer : List UInt8) (offset : ℕ) :
    Option (List UInt8 × ChaCha20Poly1305Mode) :=
  if offset ≤ buffer.length then do
    let processed ← self.encryptProcess cpu (buffer.drop offset)
    let mac ← processed.2.finishMac
    return (buffer.take offset ++ processed.1 ++ mac.1, mac.2)
  else none

/-- What `finish_msg` decrypts, if there is anything left in front of the tag -/
def decryptRemaining (self : ChaCha20Poly1305Mode) (buf : List UInt8) :
    Option (List UInt8 × ChaCha20Poly1305Mode) :=
  if buf.length ≠ 0 then self.decryptProcess cpu buf else some ([], self)

/-- `ChaCha20Poly1305_Decryption::finish_msg`: what becomes of the buffer, and the object -/
def decryptFinish (self : ChaCha20Poly1305Mode) (buffer : List UInt8) (offset : ℕ) :
    Option (Except Exception (List UInt8) × ChaCha20Poly1305Mode) :=
  let sz := buffer.length - offset
  let remaining := sz - aeadTagSize
  if offset ≤ buffer.length ∧ aeadTagSize ≤ sz then do
    let processed ← self.decryptRemaining cpu ((buffer.drop offset).take remaining)
    let mac ← processed.2.finishMac
    let includedTag := (buffer.drop offset).drop remaining
    if (ctIsEqual (mac.1.map UInt8.toBitVec) (includedTag.map UInt8.toBitVec)).asBool then
      return (.ok (buffer.take offset ++ processed.1), mac.2)
    else return (.error .invalidAuthenticationTag, mac.2)
  else some (.error .invalidArgument, self)

/-! ### The primitives -/

/-- The keystream of a message -/
def stream (key nonce : List UInt8) : ℕ → UInt8 :=
  ChaCha.keystream 20 (ChaCha.ivState chacha20 (ChaCha.keyWords key) nonce)

/-- The key of Poly1305 is the beginning of the keystream. -/
def polyKey (key nonce : List UInt8) : List UInt8 := firsts (stream key nonce) 32

/-- Whether this is the version of the CFRG -/
def cfrg (nonce : List UInt8) : Bool := nonce.length == 12 || nonce.length == 24

/-- The zeros behind a text of this size -/
def pad (size : ℕ) : List UInt8 :=
  if size % 16 ≠ 0 then List.replicate (16 - size % 16) 0 else []

/-- What is authenticated in front of the ciphertext -/
def header (ad nonce : List UInt8) : List UInt8 :=
  ad ++ if cfrg nonce then pad ad.length else LittleEndian.encode 8 ad.length

/-- What is authenticated behind the ciphertext -/
def trailer (ad nonce : List UInt8) (ctextLen : ℕ) : List UInt8 :=
  (if cfrg nonce then pad ctextLen ++ LittleEndian.encode 8 ad.length else []) ++
    LittleEndian.encode 8 ctextLen

/-- The ciphers of the mode under a key, with some associated data -/
def primitives (ad key : List UInt8) : Primitives where
  keystream nonce index := stream key nonce (64 + index)
  mac nonce ciphertext := Poly1305.tag (polyKey key nonce)
    (header ad nonce ++ ciphertext ++ trailer ad nonce ciphertext.length)
  length_mac _ _ := LittleEndian.length_encode _ _

/-! ### One message -/

/-- The object has this key. -/
structure Keyed (key : List UInt8) (mode : ChaCha20Poly1305Mode) : Prop where
  rounds : mode.chacha.rounds = chacha20
  words : mode.chacha.key = ChaCha.keyWords key

/-- The object is in the middle of a message, which has come to this ciphertext so far. -/
structure Within (key associated nonce ciphertext : List UInt8) (mode : ChaCha20Poly1305Mode) :
    Prop where
  keyed : Keyed key mode
  ad : mode.ad = associated
  nonceLen : mode.nonceLen = nonce.length
  ctextLen : mode.ctextLen = ciphertext.length
  ahead : mode.chacha.ahead = fun index => stream key nonce (64 + (ciphertext.length + index))
  holds : mode.poly1305.Holds (polyKey key nonce) (header associated nonce ++ ciphertext)

theorem keyed_new {key : List UInt8} (full : key.length = 32) :
    ∃ mode, new cpu key = some mode ∧ Keyed key mode ∧ mode.ad = [] := by
  rcases @ChaCha.setIvBytes_spec cpu chacha20 (ChaCha.keyWords key) [] rfl with
    ⟨chacha, set, rounds, words, -⟩
  have keyed : ChaCha.setKey cpu chacha20 key = some chacha := (if_pos (.inr full)).trans set
  refine ⟨⟨chacha, ⟨none, ⟨List.replicate 16 0, 0⟩⟩, [], 0, 0⟩, ?_, ⟨rounds, words⟩, rfl⟩
  rw [new, if_pos full, keyed]
  rfl

variable {key associated nonce ciphertext authenticated : List UInt8}
  {mode : ChaCha20Poly1305Mode}

/-- Bytes that go through the authenticator only -/
theorem updateMac_spec (holds : mode.poly1305.Holds (polyKey key nonce) authenticated)
    (input : List UInt8) :
    ∃ poly1305, mode.updateMac input = some { mode with poly1305 } ∧
      poly1305.Holds (polyKey key nonce) (authenticated ++ input) := by
  rcases holds.addData input with ⟨poly1305, added, next⟩
  exact ⟨poly1305, by rw [updateMac, added, Option.map_some], next⟩

/-- The zeros are authenticated as well. -/
theorem updatePad_spec (holds : mode.poly1305.Holds (polyKey key nonce) authenticated)
    (size : ℕ) :
    ∃ poly1305, mode.updatePad size = some { mode with poly1305 } ∧
      poly1305.Holds (polyKey key nonce) (authenticated ++ pad size) := by
  rw [updatePad, pad]
  split
  · exact updateMac_spec holds _
  · exact ⟨mode.poly1305, rfl, by rwa [List.append_nil]⟩

/-- What `start_msg` gives to the authenticator -/
theorem header_spec (holds : mode.poly1305.Holds (polyKey key nonce) [])
    (nonceLen : mode.nonceLen = nonce.length) :
    ∃ poly1305,
      ((mode.updateMac mode.ad).bind fun self =>
        if self.cfrgVersion then self.updatePad self.ad.length else self.updateLen self.ad.length) =
          some { mode with poly1305 } ∧
      poly1305.Holds (polyKey key nonce) (header mode.ad nonce) := by
  rcases updateMac_spec holds mode.ad with ⟨first, updated, first_holds⟩
  rw [List.nil_append] at first_holds
  have version : cfrgVersion { mode with poly1305 := first } = cfrg nonce := by
    rw [cfrgVersion, nonceLen, cfrg]
  rw [updated, Option.bind_some, version, header]
  by_cases cfrg : cfrg nonce = true
  · simp only [cfrg, if_true]
    exact updatePad_spec first_holds _
  · simp only [cfrg]
    exact updateMac_spec first_holds _

/-- A message begins if its nonce is valid. -/
theorem startMsg_spec (keyed : Keyed key mode) (valid : validNonceLength nonce.length) :
    ∃ next, mode.startMsg cpu nonce = some next ∧ Within key mode.ad nonce [] next := by
  have validIv : ChaCha.validIvLength nonce.length := by
    simp [validNonceLength, ChaCha.validIvLength] at valid ⊢
    tauto
  rcases ChaCha.setIvBytes_spec cpu mode.chacha.rounds mode.chacha.key validIv with
    ⟨chacha, set, rounds, words, ahead⟩
  rcases ChaCha.generateKeystream_spec cpu chacha 64 with
    ⟨first, firstRounds, firstWords, left⟩
  have whole : chacha.ahead = stream key nonce := by
    rw [ahead, keyed.rounds, keyed.words]
    rfl
  have polyKey_eq : (chacha.generateKeystream cpu 64).1.take 32 = polyKey key nonce := by
    rw [first, whole, take_firsts _ (by norm_num)]
    rfl
  rcases @Poly1305.holds_setKey mode.poly1305 (polyKey key nonce) (length_firsts _ _) with
    ⟨poly1305, polySet, holds⟩
  rcases @header_spec key nonce ⟨(chacha.generateKeystream cpu 64).2, poly1305, mode.ad,
    nonce.length, 0⟩ holds rfl with ⟨last, updated, last_holds⟩
  refine ⟨⟨(chacha.generateKeystream cpu 64).2, last, mode.ad, nonce.length, 0⟩, ?_, ?_⟩
  · simp only [startMsg, valid, if_true, ChaCha.setIv, set, Option.bind_eq_bind,
      Option.bind_some, polyKey_eq, polySet]
    exact updated
  · constructor
    · exact ⟨firstRounds.trans (rounds.trans keyed.rounds),
        firstWords.trans (words.trans keyed.words)⟩
    · rfl
    · rfl
    · rfl
    · funext index
      rw [left, whole, List.length_nil, Nat.zero_add]
    · rwa [List.append_nil]

theorem cipher_eq_zipWith (primitives : Primitives) (nonce : List UInt8) (offset : ℕ)
    (bytes : List UInt8) :
    primitives.cipher nonce offset bytes = List.zipWith (· ^^^ ·) bytes
      (firsts (fun index => primitives.keystream nonce (offset + index)) bytes.length) := by
  induction bytes generalizing offset with
  | nil => rfl
  | cons byte bytes ih =>
      have next : (fun index => primitives.keystream nonce (offset + (index + 1))) =
          fun index => primitives.keystream nonce (offset + 1 + index) := by
        funext index
        congr 1
        omega
      rw [Primitives.cipher, ih, List.length_cons, firsts_succ, List.zipWith_cons_cons, next]
      rfl

/-- `cipher1` in the middle of a message -/
theorem cipherBytes_spec (within : Within key associated nonce ciphertext mode)
    (buf : List UInt8) :
    (mode.chacha.cipherBytes cpu buf).1 =
        (primitives associated key).cipher nonce ciphertext.length buf ∧
      (mode.chacha.cipherBytes cpu buf).2.rounds = chacha20 ∧
      (mode.chacha.cipherBytes cpu buf).2.key = ChaCha.keyWords key ∧
      (mode.chacha.cipherBytes cpu buf).2.ahead = fun index =>
        stream key nonce (64 + (ciphertext.length + buf.length + index)) := by
  rcases ChaCha.cipherBytes_spec cpu mode.chacha buf with ⟨got, rounds, words, left⟩
  refine ⟨?_, rounds.trans within.keyed.rounds, words.trans within.keyed.words, ?_⟩
  · rw [got, within.ahead, cipher_eq_zipWith]
    rfl
  · funext index
    rw [left, within.ahead, Nat.add_assoc]

/-- `process_msg` of the encryption -/
theorem encryptProcess_spec (within : Within key associated nonce ciphertext mode)
    (buf : List UInt8) :
    ∃ next, mode.encryptProcess cpu buf =
        some ((primitives associated key).cipher nonce ciphertext.length buf, next) ∧
      Within key associated nonce
        (ciphertext ++ (primitives associated key).cipher nonce ciphertext.length buf) next := by
  rcases cipherBytes_spec cpu within buf with ⟨got, rounds, words, left⟩
  rcases @updateMac_spec key nonce _ { mode with chacha := (mode.chacha.cipherBytes cpu buf).2 }
    within.holds ((primitives associated key).cipher nonce ciphertext.length buf) with
    ⟨poly1305, updated, holds⟩
  refine ⟨⟨(mode.chacha.cipherBytes cpu buf).2, poly1305, mode.ad, mode.nonceLen,
    mode.ctextLen + buf.length⟩, ?_, ⟨rounds, words⟩, within.ad, within.nonceLen, ?_, ?_, ?_⟩
  · rw [encryptProcess, got, updated]
    rfl
  · rw [List.length_append, Primitives.length_cipher, within.ctextLen]
  · rw [left, List.length_append, Primitives.length_cipher]
  · rwa [← List.append_assoc]

/-- `process_msg` of the decryption -/
theorem decryptProcess_spec (within : Within key associated nonce ciphertext mode)
    (buf : List UInt8) :
    ∃ next, mode.decryptProcess cpu buf =
        some ((primitives associated key).cipher nonce ciphertext.length buf, next) ∧
      Within key associated nonce (ciphertext ++ buf) next := by
  rcases cipherBytes_spec cpu within buf with ⟨got, rounds, words, left⟩
  rcases updateMac_spec within.holds buf with ⟨poly1305, updated, holds⟩
  refine ⟨⟨(mode.chacha.cipherBytes cpu buf).2, poly1305, mode.ad, mode.nonceLen,
    mode.ctextLen + buf.length⟩, ?_, ⟨rounds, words⟩, within.ad, within.nonceLen, ?_, ?_, ?_⟩
  · rw [decryptProcess, updated, ← got]
    rfl
  · rw [List.length_append, within.ctextLen]
  · rw [left, List.length_append]
  · rwa [← List.append_assoc]

/-- The tag of a message whose ciphertext is complete -/
theorem finishMac_spec (within : Within key associated nonce ciphertext mode) :
    ∃ next, mode.finishMac = some ((primitives associated key).mac nonce ciphertext, next) ∧
      Keyed key next ∧ next.ad = associated := by
  have full : (polyKey key nonce).length = 32 := length_firsts _ _
  have version : mode.cfrgVersion = cfrg nonce := by
    rw [cfrgVersion, within.nonceLen, cfrg]
  have padded : ∃ poly1305, mode.updateCfrg = some { mode with poly1305 } ∧
      poly1305.Holds (polyKey key nonce) (header associated nonce ++ ciphertext ++
        if cfrg nonce then
          pad ciphertext.length ++ LittleEndian.encode 8 associated.length else []) := by
    rw [updateCfrg, version]
    by_cases cfrg : cfrg nonce = true
    · rcases updatePad_spec within.holds mode.ctextLen with ⟨first, updated, first_holds⟩
      rcases @updateMac_spec key nonce _ { mode with poly1305 := first } first_holds
        (LittleEndian.encode 8 mode.ad.length) with ⟨second, lengths, second_holds⟩
      simp only [cfrg, if_true]
      refine ⟨second, ?_, ?_⟩
      · rw [updated, Option.bind_eq_bind, Option.bind_some]
        exact lengths
      · rwa [List.append_assoc, within.ad, within.ctextLen] at second_holds
    · refine ⟨mode.poly1305, by simp only [cfrg]; rfl, ?_⟩
      simp only [cfrg]
      simpa using within.holds
  rcases padded with ⟨poly1305, updated, holds⟩
  rcases @updateMac_spec key nonce _ { mode with poly1305 } holds
    (LittleEndian.encode 8 mode.ctextLen) with ⟨complete, lengths, complete_holds⟩
  rcases complete_holds.finalResult full with ⟨last, final, -⟩
  refine ⟨⟨mode.chacha, last, mode.ad, 0, 0⟩, ?_, ⟨within.keyed.rounds, within.keyed.words⟩,
    within.ad⟩
  simp only [finishMac, updated, updateLen, lengths, final, Option.bind_eq_bind,
    Option.bind_some, primitives, trailer, List.append_assoc]
  rw [within.ctextLen]
  rfl

/-- `finish_msg` of the encryption -/
theorem encryptFinish_spec (within : Within key associated nonce ciphertext mode)
    {buffer : List UInt8} {offset : ℕ} (inside : offset ≤ buffer.length) :
    ∃ output next, mode.encryptFinish cpu buffer offset =
        some (buffer.take offset ++ output, next) ∧
      ((primitives associated key).encryption 1 128).finish ⟨nonce, ciphertext⟩
        (buffer.drop offset) = .ok output ∧
      Keyed key next ∧ next.ad = associated := by
  rcases encryptProcess_spec cpu within (buffer.drop offset) with ⟨processed, eq, next_within⟩
  rcases finishMac_spec next_within with ⟨last, mac, keyed, ad⟩
  refine ⟨_, last, ?_, rfl, keyed, ad⟩
  simp only [encryptFinish, inside, if_true, eq, mac, Option.bind_eq_bind, Option.bind_some,
    List.append_assoc]
  rfl

theorem decryptRemaining_spec (within : Within key associated nonce ciphertext mode)
    (buf : List UInt8) :
    ∃ next, mode.decryptRemaining cpu buf =
        some ((primitives associated key).cipher nonce ciphertext.length buf, next) ∧
      Within key associated nonce (ciphertext ++ buf) next := by
  rw [decryptRemaining]
  split
  · exact decryptProcess_spec cpu within buf
  · rename_i empty
    have nothing : buf = [] := List.eq_nil_of_length_eq_zero (not_not.mp empty)
    subst nothing
    exact ⟨mode, rfl, by rwa [List.append_nil]⟩

/-- `finish_msg` of the decryption, with the tag at the end of the buffer -/
theorem decryptFinish_spec (within : Within key associated nonce ciphertext mode)
    {buffer : List UInt8} {offset : ℕ} (inside : offset + aeadTagSize ≤ buffer.length) :
    ∃ next, mode.decryptFinish cpu buffer offset =
        some ((((primitives associated key).decryption 1 128).finish ⟨nonce, ciphertext⟩
          (buffer.drop offset)).map (buffer.take offset ++ ·), next) ∧
      Keyed key next ∧ next.ad = associated := by
  generalize input : buffer.drop offset = bytes
  have size : buffer.length - offset = bytes.length := by rw [← input, List.length_drop]
  have enough : aeadTagSize ≤ bytes.length := by omega
  have guard : offset ≤ buffer.length ∧ aeadTagSize ≤ bytes.length := ⟨by omega, enough⟩
  rcases decryptRemaining_spec cpu within (bytes.take (bytes.length - aeadTagSize)) with
    ⟨processed, eq, next_within⟩
  rcases finishMac_spec next_within with ⟨last, mac, keyed, ad⟩
  refine ⟨last, ?_, keyed, ad⟩
  have equal := @asBool_ctIsEqual 8
    (((primitives associated key).mac nonce
      (ciphertext ++ bytes.take (bytes.length - aeadTagSize))).map UInt8.toBitVec)
    ((bytes.drop (bytes.length - aeadTagSize)).map UInt8.toBitVec) (by norm_num) (by
      simp only [List.length_map, Primitives.length_mac, List.length_drop]
      omega)
  rw [List.map_inj_right fun x y same => UInt8.toBitVec_inj.mp same] at equal
  simp only [decryptFinish, size, input, guard, and_self, if_true, eq, mac, Option.bind_eq_bind,
    Option.bind_some, equal, Primitives.decryption, Primitives.tag, Primitives.absorb]
  by_cases same : (primitives associated key).mac nonce
      (ciphertext ++ bytes.take (bytes.length - aeadTagSize)) =
        bytes.drop (bytes.length - aeadTagSize)
  · simp only [same, if_true]
    rfl
  · simp only [same, if_false]
    rfl

/-! ### Messages one after another -/

/-- A message as the caller hands it over: pieces for `process` and a last one for `finish` -/
structure Cut where
  nonce : List UInt8
  pieces : List (List UInt8)
  last : List UInt8

/-- The message in one piece -/
def Cut.whole (cut : Cut) : List UInt8 := cut.pieces.flatten ++ cut.last

/-- `process` of all pieces -/
def processAll
    (process : ChaCha20Poly1305Mode → List UInt8 → Option (List UInt8 × ChaCha20Poly1305Mode)) :
    ChaCha20Poly1305Mode → List (List UInt8) → Option (List UInt8 × ChaCha20Poly1305Mode)
  | self, [] => some ([], self)
  | self, piece :: pieces => do
      let processed ← process self piece
      let others ← processAll process processed.2 pieces
      return (processed.1 ++ others.1, others.2)

/-- `start`, `process` and `finish` of the encryption -/
def encrypt (self : ChaCha20Poly1305Mode) (cut : Cut) :
    Option (List UInt8 × ChaCha20Poly1305Mode) := do
  let self ← self.startMsg cpu cut.nonce
  let processed ← processAll (encryptProcess cpu) self cut.pieces
  let finished ← processed.2.encryptFinish cpu cut.last 0
  return (processed.1 ++ finished.1, finished.2)

/-- `start`, `process` and `finish` of the decryption -/
def decrypt (self : ChaCha20Poly1305Mode) (cut : Cut) :
    Option (Except Exception (List UInt8) × ChaCha20Poly1305Mode) := do
  let self ← self.startMsg cpu cut.nonce
  let processed ← processAll (decryptProcess cpu) self cut.pieces
  let finished ← processed.2.decryptFinish cpu cut.last 0
  return (finished.1.map (processed.1 ++ ·), finished.2)

/-- Messages one after another -/
def each {ρ : Type} (message : ChaCha20Poly1305Mode → Cut → Option (ρ × ChaCha20Poly1305Mode)) :
    ChaCha20Poly1305Mode → List Cut → Option (List ρ × ChaCha20Poly1305Mode)
  | self, [] => some ([], self)
  | self, cut :: cuts => do
      let first ← message self cut
      let others ← each message first.2 cuts
      return (first.1 :: others.1, others.2)

/-- The pieces together are encrypted as one message. -/
theorem encryptAll_spec (within : Within key associated nonce ciphertext mode)
    (pieces : List (List UInt8)) :
    ∃ next, processAll (encryptProcess cpu) mode pieces =
        some ((primitives associated key).cipher nonce ciphertext.length pieces.flatten, next) ∧
      Within key associated nonce
        (ciphertext ++ (primitives associated key).cipher nonce ciphertext.length pieces.flatten)
        next := by
  induction pieces generalizing mode ciphertext with
  | nil => exact ⟨mode, rfl, by simpa [Primitives.cipher] using within⟩
  | cons piece pieces ih =>
      rcases encryptProcess_spec cpu within piece with ⟨first, processed, first_within⟩
      rcases ih first_within with ⟨last, others, last_within⟩
      rw [List.length_append, Primitives.length_cipher] at others last_within
      rw [List.flatten_cons, Primitives.cipher_append, ← List.append_assoc]
      refine ⟨last, ?_, last_within⟩
      simp only [processAll, processed, others, Option.bind_eq_bind, Option.bind_some]
      rfl

theorem decryptAll_spec (within : Within key associated nonce ciphertext mode)
    (pieces : List (List UInt8)) :
    ∃ next, processAll (decryptProcess cpu) mode pieces =
        some ((primitives associated key).cipher nonce ciphertext.length pieces.flatten, next) ∧
      Within key associated nonce (ciphertext ++ pieces.flatten) next := by
  induction pieces generalizing mode ciphertext with
  | nil => exact ⟨mode, rfl, by simpa using within⟩
  | cons piece pieces ih =>
      rcases decryptProcess_spec cpu within piece with ⟨first, processed, first_within⟩
      rcases ih first_within with ⟨last, others, last_within⟩
      rw [List.length_append] at others
      rw [List.flatten_cons, Primitives.cipher_append, ← List.append_assoc]
      refine ⟨last, ?_, last_within⟩
      simp only [processAll, processed, others, Option.bind_eq_bind, Option.bind_some]
      rfl

/-- The last piece behind others that have been encrypted -/
theorem sealed_append (primitives : Primitives) (nonce front last : List UInt8) :
    ((primitives.encryption 1 128).finish ⟨nonce, primitives.cipher nonce 0 front⟩ last).map
        (primitives.cipher nonce 0 front ++ ·) = .ok (primitives.sealed nonce (front ++ last)) := by
  simp [Primitives.encryption, Primitives.sealed, Primitives.cipher_append, Primitives.absorb,
    Primitives.tag, Except.map]

/-- The last piece, with the tag, behind others that have been decrypted -/
theorem opened_append (primitives : Primitives) (nonce front : List UInt8) {last : List UInt8}
    (tagged : aeadTagSize ≤ last.length) :
    ((primitives.decryption 1 128).finish ⟨nonce, front⟩ last).map
        (primitives.cipher nonce 0 front ++ ·) = primitives.opened nonce (front ++ last) := by
  have remaining : (front ++ last).length - aeadTagSize =
      front.length + (last.length - aeadTagSize) := by
    rw [List.length_append]
    omega
  have tagged' : aeadTagSize ≤ (front ++ last).length := by
    rw [List.length_append]
    omega
  simp only [Primitives.decryption, Primitives.opened, tagged, tagged', if_true, remaining,
    List.take_length_add_append, List.drop_length_add_append, Primitives.tag, Primitives.absorb,
    Primitives.cipher_append, Nat.zero_add]
  by_cases same : primitives.mac nonce (front ++ last.take (last.length - aeadTagSize)) =
      last.drop (last.length - aeadTagSize)
  · simp only [same, if_true]
    rfl
  · simp only [same, if_false]
    rfl

/-- However the message is cut, the encryption seals it. -/
theorem encrypt_spec (keyed : Keyed key mode) {cut : Cut}
    (valid : validNonceLength cut.nonce.length) :
    ∃ next, mode.encrypt cpu cut =
        some ((primitives mode.ad key).sealed cut.nonce cut.whole, next) ∧
      Keyed key next ∧ next.ad = mode.ad := by
  rcases startMsg_spec cpu keyed valid with ⟨started, start, started_within⟩
  rcases encryptAll_spec cpu started_within cut.pieces with ⟨middle, pieces, middle_within⟩
  rcases encryptFinish_spec cpu middle_within (Nat.zero_le cut.last.length) with
    ⟨output, last, finish, finished, last_keyed, ad⟩
  refine ⟨last, ?_, last_keyed, ad⟩
  have whole := sealed_append (primitives mode.ad key) cut.nonce cut.pieces.flatten cut.last
  rw [List.nil_append, List.length_nil, List.drop_zero] at finished
  rw [finished, Except.map, Except.ok.injEq] at whole
  simp only [encrypt, start, pieces, finish, Option.bind_eq_bind, Option.bind_some, Cut.whole,
    ← whole]
  rfl

/-- However what has been sealed is cut, the decryption opens it, as long as the tag is not
cut. -/
theorem decrypt_spec (keyed : Keyed key mode) {cut : Cut}
    (valid : validNonceLength cut.nonce.length) (tagged : aeadTagSize ≤ cut.last.length) :
    ∃ next, mode.decrypt cpu cut =
        some ((primitives mode.ad key).opened cut.nonce cut.whole, next) ∧
      Keyed key next ∧ next.ad = mode.ad := by
  rcases startMsg_spec cpu keyed valid with ⟨started, start, started_within⟩
  rcases decryptAll_spec cpu started_within cut.pieces with ⟨middle, pieces, middle_within⟩
  rcases @decryptFinish_spec cpu _ _ _ _ _ middle_within cut.last 0 (by omega) with
    ⟨last, finish, last_keyed, ad⟩
  refine ⟨last, ?_, last_keyed, ad⟩
  simp only [decrypt, start, pieces, finish, Option.bind_eq_bind, Option.bind_some, Cut.whole,
    ← opened_append _ _ _ tagged, List.nil_append, List.drop_zero, List.take_zero,
    List.length_nil]
  cases ((primitives mode.ad key).decryption 1 128).finish ⟨cut.nonce, cut.pieces.flatten⟩
    cut.last <;> rfl

/-- What each message does to a keyed object, all of them do one after another. -/
theorem each_spec {ρ : Type}
    {message : ChaCha20Poly1305Mode → Cut → Option (ρ × ChaCha20Poly1305Mode)} {result : Cut → ρ}
    {Admissible : Cut → Prop}
    (one : ∀ mode, Keyed key mode → mode.ad = associated → ∀ cut, Admissible cut →
      ∃ next, message mode cut = some (result cut, next) ∧ Keyed key next ∧
        next.ad = associated)
    (keyed : Keyed key mode) (ad : mode.ad = associated) {cuts : List Cut}
    (admissible : ∀ cut ∈ cuts, Admissible cut) :
    ∃ next, each message mode cuts = some (cuts.map result, next) ∧ Keyed key next := by
  induction cuts generalizing mode with
  | nil => exact ⟨mode, rfl, keyed⟩
  | cons cut cuts ih =>
      rcases one mode keyed ad cut (admissible cut List.mem_cons_self) with
        ⟨first, done, first_keyed, first_ad⟩
      rcases ih first_keyed first_ad
        (fun other mem => admissible other (List.mem_cons_of_mem _ mem)) with
        ⟨last, others, last_keyed⟩
      refine ⟨last, ?_, last_keyed⟩
      simp only [each, done, others, Option.bind_eq_bind, Option.bind_some]
      rfl

/-- Two objects under one key, on any processors: one seals messages, the other opens what it
is given, and both as the abstract mode with this keystream and this tag does. Where the
second is given what the first has made, in whatever pieces, it gets the messages back. -/
theorem opened_of_encrypt (sealing opening : ChaCha.Cpu) {key : List UInt8}
    (full : key.length = 32) {sent received : List Cut}
    (validSent : ∀ cut ∈ sent, validNonceLength cut.nonce.length)
    (validReceived : ∀ cut ∈ received,
      validNonceLength cut.nonce.length ∧ aeadTagSize ≤ cut.last.length) :
    ∃ encryptor decryptor, new sealing key = some encryptor ∧ new opening key = some decryptor ∧
      (each (encrypt sealing) encryptor sent).map Prod.fst =
        some (sent.map fun cut =>
          (chaCha20Poly1305 (primitives [])).sealed key cut.nonce cut.whole) ∧
      (each (decrypt opening) decryptor received).map Prod.fst =
        some (received.map fun cut =>
          (chaCha20Poly1305 (primitives [])).opened key cut.nonce cut.whole) ∧
      ((received.map fun cut => (cut.nonce, cut.whole)) = (sent.map fun cut =>
          (cut.nonce, (chaCha20Poly1305 (primitives [])).sealed key cut.nonce cut.whole)) →
        (each (decrypt opening) decryptor received).map Prod.fst =
          some (sent.map fun cut => .ok cut.whole)) := by
  rcases keyed_new sealing full with ⟨encryptor, created, encryptor_keyed, encryptor_ad⟩
  rcases keyed_new opening full with ⟨decryptor, created', decryptor_keyed, decryptor_ad⟩
  rcases each_spec (fun mode keyed ad cut valid => ad ▸ encrypt_spec sealing keyed valid)
    encryptor_keyed encryptor_ad validSent with ⟨last, encrypted, -⟩
  rcases each_spec (fun mode keyed ad cut admissible =>
    ad ▸ decrypt_spec opening keyed admissible.1 admissible.2) decryptor_keyed decryptor_ad
    validReceived with ⟨last', decrypted, -⟩
  have results := congrArg (Option.map Prod.fst) decrypted
  refine ⟨encryptor, decryptor, created, created', congrArg (Option.map Prod.fst) encrypted,
    results, ?_⟩
  intro same
  have opened := congrArg
    (List.map fun pair => (chaCha20Poly1305 (primitives [])).opened key pair.1 pair.2) same
  rw [List.map_map, List.map_map] at opened
  rw [results]
  refine congrArg some (opened.trans ?_)
  apply List.map_congr_left
  intro cut _
  exact (chaCha20Poly1305 (primitives [])).opened_sealed key cut.nonce cut.whole

/-- Two bytes sealed in two pieces with registers for sixteen blocks, and opened in two others
without any -/
theorem opened_of_encrypt_two :
    ∃ encryptor decryptor,
      new ⟨true, true, true⟩ ((List.range 32).map UInt8.ofNat) = some encryptor ∧
      new ⟨false, false, false⟩ ((List.range 32).map UInt8.ofNat) = some decryptor ∧
      (each (encrypt ⟨true, true, true⟩) encryptor
        [⟨[7, 0, 0, 0, 64, 65, 66, 67, 68, 69, 70, 71], [[104]], [105]⟩]).map Prod.fst =
          some [[33, 133, 101, 91, 200, 71, 252, 175, 87, 81, 122, 181, 120, 143, 217, 22, 30,
            141]] ∧
      (each (decrypt ⟨false, false, false⟩) decryptor
        [⟨[7, 0, 0, 0, 64, 65, 66, 67, 68, 69, 70, 71], [[], [33]], [133, 101, 91, 200, 71, 252,
          175, 87, 81, 122, 181, 120, 143, 217, 22, 30, 141]⟩]).map Prod.fst =
            some [.ok [104, 105]] := by
  rcases @opened_of_encrypt ⟨true, true, true⟩ ⟨false, false, false⟩
    ((List.range 32).map UInt8.ofNat) rfl
    [⟨[7, 0, 0, 0, 64, 65, 66, 67, 68, 69, 70, 71], [[104]], [105]⟩]
    [⟨[7, 0, 0, 0, 64, 65, 66, 67, 68, 69, 70, 71], [[], [33]], [133, 101, 91, 200, 71, 252, 175,
      87, 81, 122, 181, 120, 143, 217, 22, 30, 141]⟩] (by simp; rfl) (by simp; decide) with
    ⟨encryptor, decryptor, created, created', encrypted, -, back⟩
  refine ⟨encryptor, decryptor, created, created', encrypted.trans (by decide +kernel), ?_⟩
  exact back (by decide +kernel)

end ChaCha20Poly1305Mode

end Imconee.Botan
