import Imconee.Shadowsocks.Filter
import Imconee.Tools.ChunkBuffer

/-!
# `ss::core::aead_cryptor`

The stream of one direction is a sequence of frames: a length of two bytes and a payload of
that many bytes, each enciphered as a message of its own. `encipher` produces frames and
`decipher` takes them apart again as the bytes arrive. The two directions share nothing,
so each half of the cryptor is a structure of its own.
-/

set_option autoImplicit false

namespace Imconee.Shadowsocks

open Imconee.Botan Imconee.Tools

/-- `AEAD_CHUNK_SIZE_MASK` -/
def aeadChunkSizeMask : ℕ := 0x3FFF

abbrev Outbuffer := ChunkBuffer 16384

/-- `skip_buf`: a byte vector whose first `skip` bytes are spent. -/
structure SkipBuf where
  bytes : List UInt8 := []
  cap : ℕ := 32
  skip : ℕ := 0

namespace SkipBuf

/-- `data()`, with `size()` bytes. -/
def data (buffer : SkipBuf) : List UInt8 := buffer.bytes.drop buffer.skip

def size (buffer : SkipBuf) : ℕ := buffer.bytes.length - buffer.skip

def clear (buffer : SkipBuf) : SkipBuf := { buffer with bytes := [], skip := 0 }

def erase (buffer : SkipBuf) (szerase : ℕ) : SkipBuf :=
  { buffer with skip := buffer.skip + szerase }

/-- `secure_vector::capsize` -/
def capsize (sz : ℕ) : ℕ := (sz + 31) / 32 * 32

/-- `operator+=`: before the vector would grow, a long spent front is dropped. -/
def append (buffer : SkipBuf) (d : List UInt8) : SkipBuf :=
  let buffer :=
    if 500 * 1024 < buffer.skip ∧ buffer.cap < buffer.bytes.length + d.length then
      { buffer with bytes := buffer.data, skip := 0 }
    else buffer
  { buffer with
    bytes := buffer.bytes ++ d
    cap :=
      if d.length + buffer.bytes.length ≤ buffer.cap then buffer.cap
      else capsize (buffer.bytes.length + d.length) }

@[simp]
theorem size_eq (buffer : SkipBuf) : buffer.size = buffer.data.length := by
  simp [size, data]

@[simp]
theorem data_clear (buffer : SkipBuf) : buffer.clear.data = [] := by
  simp [clear, data]

@[simp]
theorem data_erase (buffer : SkipBuf) (szerase : ℕ) :
    (buffer.erase szerase).data = buffer.data.drop szerase := by
  simp [erase, data]

/-- What is spent lies inside the vector. -/
def WellFormed (buffer : SkipBuf) : Prop := buffer.skip ≤ buffer.bytes.length

theorem wellFormed_empty : ({} : SkipBuf).WellFormed := Nat.zero_le _

theorem wellFormed_clear (buffer : SkipBuf) : buffer.clear.WellFormed := Nat.zero_le _

theorem wellFormed_erase {buffer : SkipBuf} (wellFormed : buffer.WellFormed) {szerase : ℕ}
    (inside : szerase ≤ buffer.data.length) : (buffer.erase szerase).WellFormed := by
  simp only [data, List.length_drop] at inside
  simp only [WellFormed, erase] at wellFormed ⊢
  omega

theorem append_spec {buffer : SkipBuf} (wellFormed : buffer.WellFormed) (d : List UInt8) :
    (buffer.append d).WellFormed ∧ (buffer.append d).data = buffer.data ++ d := by
  simp only [WellFormed] at wellFormed
  simp only [append]
  split
  · simp [WellFormed, data]
  · refine ⟨by simp only [WellFormed, List.length_append]; omega, ?_⟩
    simp only [data]
    rw [List.drop_append_of_le_length wellFormed]

end SkipBuf

variable {State : Type}

/-- `size_be`: what goes over the wire for a length. -/
def toNe (inLen : ℕ) : List UInt8 := [UInt8.ofNat (inLen / 256), UInt8.ofNat (inLen % 256)]

/-- `u16acpt` and `to_he`: the length that the block handled last stands for. -/
def toHe (handled : List (List UInt8)) : ℕ :=
  match handled.getLast? with
  | some (high :: low :: _) => high.toNat * 256 + low.toNat
  | _ => 0

/-- What `encipher` did: `cipher` as it stands after, the value returned and the encryptor. -/
structure Enciphered (State : Type) where
  cipher : List UInt8
  result : Except Exception ℤ
  encryptor : KeyedFilter State

/-- How many bytes of `plain` go into the next frame. -/
def frameLength (plain : List UInt8) : ℕ :=
  if aeadChunkSizeMask < plain.length then aeadChunkSizeMask else plain.length

/-- The recursion of `encipher`; `fuel` bounds its depth. -/
def encipherLoop : ℕ → KeyedFilter State → List UInt8 → List UInt8 → Enciphered State
  | 0, encryptor, _, cipher => ⟨cipher, .ok 0, encryptor⟩
  | fuel + 1, encryptor, plain, cipher =>
      let inLen := frameLength plain
      let size := CipherEnc.process encryptor (toNe inLen)
      let cipher := cipher ++ size.sent.flatten
      match size.result with
      | .error exception => ⟨cipher, .error exception, size.filter⟩
      | .ok _ =>
          let payload := CipherEnc.process size.filter (plain.take inLen)
          let cipher := cipher ++ payload.sent.flatten
          match payload.result with
          | .error exception => ⟨cipher, .error exception, payload.filter⟩
          | .ok _ =>
              if inLen < plain.length then
                let rest := encipherLoop fuel payload.filter (plain.drop inLen) cipher
                { rest with result := rest.result.map fun _ => inLen }
              else ⟨cipher, .ok inLen, payload.filter⟩

def encipher (encryptor : KeyedFilter State) (plain cipher : List UInt8) : Enciphered State :=
  encipherLoop (plain.length + 1) encryptor plain cipher

/-- The receiving half of `aead_cryptor`. -/
structure AeadDecryptor (State : Type) where
  decryptor : KeyedFilter State
  unprocessed : SkipBuf := {}
  lastBlockPayloadSize : ℕ := 0

/-- What `decrypt` did: the blocks appended to `plain`, the value returned, `from` and the
decryptor. -/
structure Decrypted (State : Type) where
  appended : List (List UInt8)
  result : Except Exception ℤ
  fromOffset : ℕ
  cryptor : AeadDecryptor State

/-- What the loop of `decipher` did; the value is `none` where it returns -1, else `from`
and `decr`. -/
structure LoopEnd (State : Type) where
  appended : List (List UInt8)
  result : Except Exception (Option (ℕ × ℤ))
  cryptor : AeadDecryptor State

/-- What `decipher` did. -/
structure Deciphered (State : Type) where
  appended : List (List UInt8)
  result : Except Exception ℤ
  cryptor : AeadDecryptor State

namespace AeadDecryptor

/-- The lambda `decode` of `decrypt`: the blocks handled and the bytes consumed. -/
def decode (cryptor : AeadDecryptor State) (skip capacity : ℕ) :
    List (List UInt8) × Except Exception ℕ × AeadDecryptor State :=
  if cryptor.unprocessed.size - skip < capacity + aeadTagSize then ([], .ok 0, cryptor)
  else
    let processed := CipherDec.process cryptor.decryptor
      ((cryptor.unprocessed.data.drop skip).take (capacity + aeadTagSize))
    (processed.sent, processed.result.map fun _ => capacity + aeadTagSize,
      { cryptor with decryptor := processed.filter })

/-- The second half of `decrypt`: the payload block at `from_current`. -/
def decryptPayload (cryptor : AeadDecryptor State) (fromOffset fromCurrent payloadsize : ℕ) :
    Decrypted State :=
  if cryptor.unprocessed.size - fromCurrent < payloadsize + aeadTagSize then
    ⟨[], .ok 0, fromOffset, cryptor⟩ -- not yet ready data
  else
    match cryptor.decode fromCurrent payloadsize with
    | (handled, .error exception, cryptor) => ⟨handled, .error exception, fromOffset, cryptor⟩
    | (handled, .ok delta, cryptor) => ⟨handled, .ok payloadsize, fromCurrent + delta, cryptor⟩

def decrypt (cryptor : AeadDecryptor State) (fromOffset : ℕ) : Decrypted State :=
  if 0 < cryptor.lastBlockPayloadSize then
    cryptor.decryptPayload fromOffset (2 + 16) cryptor.lastBlockPayloadSize
  else
    match cryptor.decode fromOffset 2 with
    | (_, .error _, cryptor) => ⟨[], .ok (-1), fromOffset, cryptor⟩ -- catch (...)
    | (handled, .ok delta, cryptor) =>
        if delta = 0 then ⟨[], .ok 0, fromOffset, cryptor⟩ -- not yet ready data
        else
          let payloadsize := toHe handled
          if aeadChunkSizeMask < payloadsize then ⟨[], .ok (-1), fromOffset, cryptor⟩
          else
            decryptPayload { cryptor with lastBlockPayloadSize := payloadsize } fromOffset
              (fromOffset + delta) payloadsize

/-- The loop of `decipher`; every round but the last moves `from` on. -/
def decipherLoop : ℕ → AeadDecryptor State → ℕ → ℤ → LoopEnd State
  | 0, cryptor, fromOffset, decr => ⟨[], .ok (some (fromOffset, decr)), cryptor⟩
  | fuel + 1, cryptor, fromOffset, decr =>
      if fromOffset < cryptor.unprocessed.size then
        let d := cryptor.decrypt fromOffset
        match d.result with
        | .error exception => ⟨d.appended, .error exception, d.cryptor⟩
        | .ok count =>
            if count < 0 then ⟨d.appended, .ok none, d.cryptor⟩
            else if count = 0 then ⟨d.appended, .ok (some (d.fromOffset, decr)), d.cryptor⟩
            else
              let rest := decipherLoop fuel { d.cryptor with lastBlockPayloadSize := 0 }
                d.fromOffset (decr + count)
              { rest with appended := d.appended ++ rest.appended }
      else ⟨[], .ok (some (fromOffset, decr)), cryptor⟩

/-- What `decipher` does behind its loop. -/
def afterLoop (loop : LoopEnd State) : Deciphered State :=
  let cryptor := loop.cryptor
  match loop.result with
  | .error exception => ⟨loop.appended, .error exception, cryptor⟩
  | .ok none => ⟨loop.appended, .ok (-1), cryptor⟩
  | .ok (some (fromOffset, decr)) =>
      if 0 < decr then
        if fromOffset = cryptor.unprocessed.size then
          ⟨loop.appended, .ok decr, { cryptor with unprocessed := cryptor.unprocessed.clear }⟩
        else if fromOffset = 0 ∧ aeadChunkSizeMask < cryptor.unprocessed.size then
          -- looks like data corrupt: decryptor can't process data
          ⟨loop.appended, .ok (-1), cryptor⟩
        else
          ⟨loop.appended, .ok decr,
            { cryptor with unprocessed := cryptor.unprocessed.erase fromOffset }⟩
      else ⟨loop.appended, .ok decr, cryptor⟩

/-- `decipher`, up to the blocks it appends to `plain`. -/
def run (cryptor : AeadDecryptor State) (cipher : List UInt8) : Deciphered State :=
  let cryptor := { cryptor with unprocessed := cryptor.unprocessed.append cipher }
  afterLoop (decipherLoop cryptor.unprocessed.size cryptor 0 0)

def decipher (cryptor : AeadDecryptor State) (plain : Outbuffer) (cipher : List UInt8) :
    Except Exception ℤ × Outbuffer × AeadDecryptor State :=
  let run := cryptor.run cipher
  (run.result, run.appended.foldl .append plain, run.cryptor)

end AeadDecryptor

/-- Blocks appended one after another end up behind the content. -/
theorem foldl_append_spec {plain : Outbuffer} (wellFormed : plain.WellFormed)
    (blocks : List (List UInt8)) :
    (blocks.foldl ChunkBuffer.append plain).WellFormed ∧
      (blocks.foldl ChunkBuffer.append plain).content = plain.content ++ blocks.flatten := by
  induction blocks generalizing plain with
  | nil => simpa using wellFormed
  | cons block blocks ih =>
      rcases ChunkBuffer.append_spec (by decide) wellFormed block with ⟨appended, content⟩
      rcases ih appended with ⟨final, finalContent⟩
      exact ⟨final, by rw [List.foldl_cons, finalContent, content]; simp⟩

end Imconee.Shadowsocks
