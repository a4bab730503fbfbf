import Mathlib.Data.List.Basic
import Mathlib.Tactic.Common

/-!
# `Botan::Cipher_Mode`

A cipher mode under a key, as the program uses it: a message is started under a nonce,
whole blocks go through `update` and what remains through `finish`. `Computes` is the
documented meaning of that protocol: however many blocks were updated before, the outputs
together are those of one function of nonce and message.

`Aead` is what the program relies on in an authenticated mode: both directions compute
functions, and opening what was sealed under the same key and nonce gives it back. It says
nothing about messages that were not sealed.
-/

set_option autoImplicit false

namespace Imconee.Botan

/-- The exceptions a mode throws on the program's inputs. -/
inductive Exception where
  | invalidAuthenticationTag
  | invalidArgument
  deriving DecidableEq, Repr

/-- `AEAD_TAG_SIZE` -/
def aeadTagSize : ℕ := 16

/-- A keyed `Cipher_Mode`. `State` is what it keeps from `start` to `finish`. -/
structure CipherMode (State : Type) where
  idealGranularity : ℕ
  minimumFinalSize : ℕ
  start : List UInt8 → State
  update : State → List UInt8 → Except Exception (State × List UInt8)
  finish : State → List UInt8 → Except Exception (List UInt8)

variable {State : Type}

/-- The mode computes a function of nonce and message, in blocks of its ideal granularity. -/
structure CipherMode.Computes (mode : CipherMode State)
    (oneShot : List UInt8 → List UInt8 → Except Exception (List UInt8)) : Prop where
  idealGranularity_pos : 0 < mode.idealGranularity
  finish_start : ∀ nonce message, mode.minimumFinalSize ≤ message.length →
    mode.finish (mode.start nonce) message = oneShot nonce message
  /-- Updating with a block first and finishing later gives the output of finishing at once. -/
  update_block : ∀ state block, block.length = mode.idealGranularity →
    ∃ next output, mode.update state block = .ok (next, output) ∧
      output.length = mode.idealGranularity ∧
      ∀ rest, mode.minimumFinalSize ≤ rest.length →
        mode.finish state (block ++ rest) = (mode.finish next rest).map (output ++ ·)

/-- An authenticated mode in both directions, for every key. -/
structure Aead (State : Type) where
  encryption : List UInt8 → CipherMode State
  decryption : List UInt8 → CipherMode State
  sealed : List UInt8 → List UInt8 → List UInt8 → List UInt8
  opened : List UInt8 → List UInt8 → List UInt8 → Except Exception (List UInt8)
  encryption_computes : ∀ key,
    (encryption key).Computes fun nonce message => .ok (sealed key nonce message)
  decryption_computes : ∀ key, (decryption key).Computes (opened key)
  encryption_minimumFinalSize : ∀ key, (encryption key).minimumFinalSize = 0
  decryption_minimumFinalSize : ∀ key, (decryption key).minimumFinalSize = aeadTagSize
  /-- Two bytes of plaintext never fill a block of their own. -/
  decryption_idealGranularity : ∀ key, 2 < (decryption key).idealGranularity
  opened_sealed : ∀ key nonce message,
    opened key nonce (sealed key nonce message) = .ok message
  length_sealed : ∀ key nonce message,
    (sealed key nonce message).length = message.length + aeadTagSize
  length_opened : ∀ {key nonce message plain}, opened key nonce message = .ok plain →
    message.length = plain.length + aeadTagSize

end Imconee.Botan
