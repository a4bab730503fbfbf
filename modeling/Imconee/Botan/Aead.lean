import Imconee.Botan.CipherMode

/-!
# GCM and ChaCha20-Poly1305

Both modes of the library xor the message with a keystream that starts at the nonce and
authenticate nonce and ciphertext with a tag of 16 bytes; no associated data is ever set.
The block cipher, the stream cipher and the polynomial hashes are parameters: a keystream
byte for each position and a tag for each ciphertext. What the two modes do with them is
the same up to granularities.
-/

set_option autoImplicit false

namespace Imconee.Botan

/-- What a mode takes from its ciphers under one key. -/
structure Primitives where
  keystream : List UInt8 → ℕ → UInt8
  mac : List UInt8 → List UInt8 → List UInt8
  length_mac : ∀ nonce ciphertext, (mac nonce ciphertext).length = aeadTagSize

/-- A message under way: its nonce and the ciphertext that has gone through the mode. -/
structure Message where
  nonce : List UInt8
  ciphertext : List UInt8

namespace Primitives

variable (primitives : Primitives)

/-- `cipher1`: xor with the keystream, from a position on. -/
def cipher (nonce : List UInt8) : ℕ → List UInt8 → List UInt8
  | _, [] => []
  | offset, byte :: bytes =>
      (byte ^^^ primitives.keystream nonce offset) :: cipher nonce (offset + 1) bytes

variable (nonce : List UInt8)

@[simp]
theorem length_cipher (offset : ℕ) (bytes : List UInt8) :
    (primitives.cipher nonce offset bytes).length = bytes.length := by
  induction bytes generalizing offset with
  | nil => rfl
  | cons byte bytes ih => simp [cipher, ih]

theorem cipher_append (offset : ℕ) (first second : List UInt8) :
    primitives.cipher nonce offset (first ++ second) =
      primitives.cipher nonce offset first ++
        primitives.cipher nonce (offset + first.length) second := by
  induction first generalizing offset with
  | nil => simp [cipher]
  | cons byte first ih =>
      rw [List.cons_append, cipher, cipher, ih, List.cons_append, List.length_cons,
        Nat.add_right_comm, Nat.add_assoc offset]

theorem cipher_cipher (offset : ℕ) (bytes : List UInt8) :
    primitives.cipher nonce offset (primitives.cipher nonce offset bytes) = bytes := by
  induction bytes generalizing offset with
  | nil => rfl
  | cons byte bytes ih =>
      rw [cipher, cipher, ih, UInt8.xor_assoc, UInt8.xor_self, UInt8.xor_zero]

/-- The message after some more bytes of ciphertext. -/
def absorb (message : Message) (ciphertext : List UInt8) : Message :=
  { message with ciphertext := message.ciphertext ++ ciphertext }

/-- The tag of a message whose ciphertext is complete. -/
def tag (message : Message) : List UInt8 := primitives.mac message.nonce message.ciphertext

/-- `GCM_Encryption` and `ChaCha20Poly1305_Encryption`. -/
def encryption (updateGranularity idealGranularity : ℕ) : CipherMode Message where
  idealGranularity := idealGranularity
  minimumFinalSize := 0
  start nonce := { nonce, ciphertext := [] }
  update message bytes :=
    if bytes.length % updateGranularity = 0 then
      let output := primitives.cipher message.nonce message.ciphertext.length bytes
      .ok (absorb message output, output)
    else .error .invalidArgument
  finish message bytes :=
    let output := primitives.cipher message.nonce message.ciphertext.length bytes
    .ok (output ++ primitives.tag (absorb message output))

/-- `GCM_Decryption` and `ChaCha20Poly1305_Decryption`. -/
def decryption (updateGranularity idealGranularity : ℕ) : CipherMode Message where
  idealGranularity := idealGranularity
  minimumFinalSize := aeadTagSize
  start nonce := { nonce, ciphertext := [] }
  update message bytes :=
    if bytes.length % updateGranularity = 0 then
      .ok (absorb message bytes,
        primitives.cipher message.nonce message.ciphertext.length bytes)
    else .error .invalidArgument
  finish message bytes :=
    if aeadTagSize ≤ bytes.length then
      let remaining := bytes.length - aeadTagSize
      if primitives.tag (absorb message (bytes.take remaining)) = bytes.drop remaining then
        .ok (primitives.cipher message.nonce message.ciphertext.length (bytes.take remaining))
      else .error .invalidAuthenticationTag
    else .error .invalidArgument

/-- What encryption computes. -/
def sealed (message : List UInt8) : List UInt8 :=
  primitives.cipher nonce 0 message ++ primitives.mac nonce (primitives.cipher nonce 0 message)

/-- What decryption computes. -/
def opened (message : List UInt8) : Except Exception (List UInt8) :=
  if aeadTagSize ≤ message.length then
    let remaining := message.length - aeadTagSize
    if primitives.mac nonce (message.take remaining) = message.drop remaining then
      .ok (primitives.cipher nonce 0 (message.take remaining))
    else .error .invalidAuthenticationTag
  else .error .invalidArgument

@[simp]
theorem length_sealed (message : List UInt8) :
    (primitives.sealed nonce message).length = message.length + aeadTagSize := by
  simp [sealed, primitives.length_mac]

/-- What has been sealed is opened again. -/
theorem opened_sealed (message : List UInt8) :
    primitives.opened nonce (primitives.sealed nonce message) = .ok message := by
  have front : (primitives.sealed nonce message).take message.length =
      primitives.cipher nonce 0 message := by
    rw [sealed, List.take_left' (by simp)]
  have back : (primitives.sealed nonce message).drop message.length =
      primitives.mac nonce (primitives.cipher nonce 0 message) := by
    rw [sealed, List.drop_left' (by simp)]
  simp [opened, front, back, cipher_cipher]

/-- The tag is behind the text. -/
theorem length_opened {message plain : List UInt8}
    (success : primitives.opened nonce message = .ok plain) :
    message.length = plain.length + aeadTagSize := by
  simp only [opened] at success
  split at success
  · split at success
    · simp only [Except.ok.injEq] at success
      rw [← success, length_cipher, List.length_take]
      omega
    · cases success
  · cases success

variable {updateGranularity idealGranularity : ℕ}

/-- However the object takes its blocks, it makes the same ciphertext. -/
theorem encryption_computes (positive : 0 < idealGranularity)
    (multiple : idealGranularity % updateGranularity = 0) :
    (primitives.encryption updateGranularity idealGranularity).Computes
      fun nonce message => .ok (primitives.sealed nonce message) where
  idealGranularity_pos := positive
  finish_start nonce message _ := rfl
  update_block message block full := by
    have whole : block.length % updateGranularity = 0 := by
      rw [full]
      exact multiple
    refine ⟨_, _, if_pos whole, by simpa using full, ?_⟩
    intro rest _
    simp [encryption, cipher_append, absorb, Except.map]

/-- And it opens what it would open in one piece. -/
theorem decryption_computes (positive : 0 < idealGranularity)
    (multiple : idealGranularity % updateGranularity = 0) :
    (primitives.decryption updateGranularity idealGranularity).Computes primitives.opened where
  idealGranularity_pos := positive
  finish_start nonce message _ := rfl
  update_block message block full := by
    have whole : block.length % updateGranularity = 0 := by
      rw [full]
      exact multiple
    refine ⟨_, _, if_pos whole, by simpa using full, ?_⟩
    intro rest enough
    have enough : aeadTagSize ≤ rest.length := enough
    have enough' : aeadTagSize ≤ (block ++ rest).length := by
      rw [List.length_append]
      omega
    have remaining : (block ++ rest).length - aeadTagSize =
        block.length + (rest.length - aeadTagSize) := by
      rw [List.length_append]
      omega
    simp only [decryption, enough, enough', if_true, remaining, List.take_length_add_append,
      List.drop_length_add_append, absorb, List.append_assoc, cipher_append]
    simp only [List.length_append]
    split <;> rfl

end Primitives

/-- An authenticated mode from the ciphers it rests on. -/
def Aead.ofPrimitives (updateGranularity idealGranularity : ℕ)
    (large : 2 < idealGranularity) (multiple : idealGranularity % updateGranularity = 0)
    (primitives : List UInt8 → Primitives) : Aead Message where
  encryption key := (primitives key).encryption updateGranularity idealGranularity
  decryption key := (primitives key).decryption updateGranularity idealGranularity
  sealed key := (primitives key).sealed
  opened key := (primitives key).opened
  encryption_computes key :=
    (primitives key).encryption_computes (Nat.zero_lt_of_lt large) multiple
  decryption_computes key :=
    (primitives key).decryption_computes (Nat.zero_lt_of_lt large) multiple
  encryption_minimumFinalSize _ := rfl
  decryption_minimumFinalSize _ := rfl
  decryption_idealGranularity _ := large
  opened_sealed key := (primitives key).opened_sealed
  length_sealed key := (primitives key).length_sealed
  length_opened success := Primitives.length_opened _ _ success

/-- AES/GCM: blocks of 16 bytes, four at a time. -/
def gcm : (List UInt8 → Primitives) → Aead Message :=
  .ofPrimitives 16 64 (by decide) (by decide)

/-- ChaCha20-Poly1305: any number of bytes, 128 at a time. -/
def chaCha20Poly1305 : (List UInt8 → Primitives) → Aead Message :=
  .ofPrimitives 1 128 (by decide) (by decide)

/-- A stand-in for the ciphers to run the model with: an empty keystream, and the nonce for
a tag. -/
def Primitives.plain : Primitives where
  keystream _ _ := 0
  mac nonce _ := (nonce ++ List.replicate aeadTagSize 0).take aeadTagSize
  length_mac _ _ := by simp

end Imconee.Botan
