import Imconee.Botan.ChaChaLanes
import Mathlib.Data.List.GetD
import Mathlib.Tactic.NormNum

/-!
# The keystream of ChaCha

A keyed object has several blocks of its keystream in a buffer and cuts every request out of
it. How many blocks it makes at once depends on the processor; what the requests get does
not.
-/

set_option autoImplicit false

namespace Imconee.Botan

open Imconee.Lib

namespace ChaCha

/-- The numbers of rounds that the constructor accepts -/
structure Rounds where
  count : ℕ
  supported : count = 8 ∨ count = 12 ∨ count = 20
  deriving DecidableEq

/-- `ChaCha::ChaCha` -/
def new (rounds : ℕ) : Option Rounds :=
  if supported : rounds = 8 ∨ rounds = 12 ∨ rounds = 20 then some ⟨rounds, supported⟩ else none

/-- `initialize_state`: a short key is used twice. -/
def initializeState (key : List UInt32) : State :=
  let word := fun index => key.getD index 0
  if key.length = 4 then
    { x00 := 0x61707865, x01 := 0x3120646e, x02 := 0x79622d36, x03 := 0x6b206574
      x04 := word 0, x05 := word 1, x06 := word 2, x07 := word 3
      x08 := word 0, x09 := word 1, x10 := word 2, x11 := word 3
      x12 := 0, x13 := 0, x14 := 0, x15 := 0 }
  else
    { x00 := 0x61707865, x01 := 0x3320646e, x02 := 0x79622d32, x03 := 0x6b206574
      x04 := word 0, x05 := word 1, x06 := word 2, x07 := word 3
      x08 := word 4, x09 := word 5, x10 := word 6, x11 := word 7
      x12 := 0, x13 := 0, x14 := 0, x15 := 0 }

/-- `valid_iv_length` -/
def validIvLength (length : ℕ) : Bool :=
  length == 0 || length == 8 || length == 12 || length == 24

/-- The state that `set_iv_bytes` makes before it fills the buffer -/
def ivState (rounds : Rounds) (key : List UInt32) (iv : List UInt8) : State :=
  let state := initializeState key
  if iv.length = 0 then { state with x14 := 0, x15 := 0 }
  else if iv.length = 8 then { state with x14 := loadLe32 iv 0, x15 := loadLe32 iv 1 }
  else if iv.length = 12 then
    { state with x13 := loadLe32 iv 0, x14 := loadLe32 iv 1, x15 := loadLe32 iv 2 }
  else
    let state := { state with
      x12 := loadLe32 iv 0, x13 := loadLe32 iv 1, x14 := loadLe32 iv 2, x15 := loadLe32 iv 3 }
    let hc := hchacha state rounds.count
    { state with
      x04 := hc.getD 0 0, x05 := hc.getD 1 0, x06 := hc.getD 2 0, x07 := hc.getD 3 0
      x08 := hc.getD 4 0, x09 := hc.getD 5 0, x10 := hc.getD 6 0, x11 := hc.getD 7 0
      x12 := 0, x13 := 0, x14 := loadLe32 iv 4, x15 := loadLe32 iv 5 }

theorem length_storeLe32 (words : List UInt32) :
    (storeLe32 words).length = 4 * words.length := by
  induction words with
  | nil => rfl
  | cons word words ih =>
      rw [storeLe32, List.flatMap_cons, List.length_append, LittleEndian.length_encode,
        List.length_cons, Nat.mul_succ, Nat.add_comm]
      exact congrArg (· + 4) ih

/-- The keystream of a state, byte by byte -/
def keystream (rounds : ℕ) (state : State) (index : ℕ) : UInt8 :=
  (storeLe32 (blockWords rounds (skip (index / 64) state)).toList).getD (index % 64) 0

/-- One block at a time is the keystream. -/
theorem produces_chachaBlock (rounds : ℕ) :
    Produces (chachaBlock rounds) 64 (keystream rounds) := by
  constructor
  · intro state
    have length : (storeLe32 (blockWords rounds state).toList).length = 64 :=
      length_storeLe32 _
    apply List.ext_getElem
    · rw [length_firsts]
      exact length
    · intro index inside _
      have small : index < 64 := by rwa [← length]
      simp only [firsts, List.getElem_map, List.getElem_range, keystream,
        Nat.div_eq_of_lt small, Nat.mod_eq_of_lt small, skip_zero]
      rw [List.getD_eq_getElem _ _ (by rwa [length])]
      rfl
  · intro state index
    have next : (64 + index) / 64 = 1 + index / 64 := by omega
    rw [chachaBlock_snd, keystream, keystream, skip_skip, next, Nat.add_mod_left]

variable (cpu : Cpu) (rounds : Rounds)

/-- The refill of `m_buffer`, whose size `key_schedule` has set -/
def refill : State → List UInt8 × State := chacha cpu rounds.count (parallelism cpu)

/-- So is what the buffer is filled with, whatever the processor is. -/
theorem produces_refill :
    Produces (refill cpu rounds) (parallelism cpu * 64) (keystream rounds.count) := by
  rw [refill, chacha_eq]
  exact (produces_chachaBlock rounds.count).batches (parallelism cpu)

theorem filling (state : State) : 0 < (refill cpu rounds state).1.length := by
  have positive : 0 < parallelism cpu := by
    rw [parallelism]
    split
    · norm_num
    · split <;> norm_num
  rw [(produces_refill cpu rounds).batch, length_firsts]
  exact Nat.mul_pos positive (by norm_num)

end ChaCha

/-- A `ChaCha` that has a key: `m_key`, and in `source` `m_state`, `m_buffer` and
`m_position`. -/
structure ChaCha where
  rounds : ChaCha.Rounds
  key : List UInt32
  source : Buffered ChaCha.State UInt8

namespace ChaCha

variable (cpu : Cpu)

/-- `set_iv_bytes`, on an object with a key -/
def setIvBytes (rounds : Rounds) (key : List UInt32) (iv : List UInt8) : Option ChaCha :=
  if validIvLength iv.length then
    some ⟨rounds, key, .filled (filling cpu rounds) (ivState rounds key iv)⟩
  else none

/-- `load_le` of the whole key -/
def keyWords (key : List UInt8) : List UInt32 :=
  (List.range (key.length / 4)).map (loadLe32 key)

/-- `set_key` -/
def setKey (rounds : Rounds) (key : List UInt8) : Option ChaCha :=
  if key.length = 16 ∨ key.length = 32 then setIvBytes cpu rounds (keyWords key) [] else none

/-- `set_iv` -/
def setIv (object : ChaCha) (iv : List UInt8) : Option ChaCha :=
  setIvBytes cpu object.rounds object.key iv

/-- `cipher_bytes` -/
def cipherBytes (object : ChaCha) (input : List UInt8) : List UInt8 × ChaCha :=
  let drawn := object.source.draw (filling cpu object.rounds) (· ^^^ ·) input
  (drawn.1, { object with source := drawn.2 })

/-- `generate_keystream` -/
def generateKeystream (object : ChaCha) (length : ℕ) : List UInt8 × ChaCha :=
  let drawn := object.source.draw (filling cpu object.rounds) (fun _ byte => byte)
    (List.replicate length ())
  (drawn.1, { object with source := drawn.2 })

/-- The keystream that an object has not given out -/
def ahead (object : ChaCha) : ℕ → UInt8 :=
  object.source.ahead (keystream object.rounds.count)

/-- A new message begins at the start of its keystream. -/
theorem setIvBytes_spec (rounds : Rounds) (key : List UInt32) {iv : List UInt8}
    (valid : validIvLength iv.length) :
    ∃ object, setIvBytes cpu rounds key iv = some object ∧ object.rounds = rounds ∧
      object.key = key ∧ object.ahead = keystream rounds.count (ivState rounds key iv) :=
  ⟨_, if_pos valid, rfl, rfl, Buffered.ahead_filled _ (produces_refill cpu rounds) _⟩

/-- The input is xored with what comes next of the keystream. -/
theorem cipherBytes_spec (object : ChaCha) (input : List UInt8) :
    (object.cipherBytes cpu input).1 =
        List.zipWith (· ^^^ ·) input (firsts object.ahead input.length) ∧
      (object.cipherBytes cpu input).2.rounds = object.rounds ∧
      (object.cipherBytes cpu input).2.key = object.key ∧
      ∀ index, (object.cipherBytes cpu input).2.ahead index =
        object.ahead (input.length + index) := by
  rcases Buffered.draw_spec (filling cpu object.rounds) (produces_refill cpu object.rounds)
    (· ^^^ ·) input object.source with ⟨got, left⟩
  exact ⟨got, rfl, rfl, left⟩

theorem generateKeystream_spec (object : ChaCha) (length : ℕ) :
    (object.generateKeystream cpu length).1 = firsts object.ahead length ∧
      (object.generateKeystream cpu length).2.rounds = object.rounds ∧
      (object.generateKeystream cpu length).2.key = object.key ∧
      ∀ index, (object.generateKeystream cpu length).2.ahead index =
        object.ahead (length + index) := by
  rcases Buffered.draw_spec (filling cpu object.rounds) (produces_refill cpu object.rounds)
    (fun _ byte => byte) (List.replicate length ()) object.source with ⟨got, left⟩
  rw [List.length_replicate] at got left
  refine ⟨got.trans ?_, rfl, rfl, left⟩
  apply List.ext_getElem
  · simp
  · intro index _ _
    simp [ahead]

/-- What a caller asks for -/
inductive Request where
  | cipher (input : List UInt8)
  | keystream (length : ℕ)
  deriving DecidableEq, Repr

/-- What an object answers, and what becomes of it -/
def serve (object : ChaCha) : Request → List UInt8 × ChaCha
  | .cipher input => object.cipherBytes cpu input
  | .keystream length => object.generateKeystream cpu length

/-- Requests one after another: all answers, and the object behind them -/
def serveAll : ChaCha → List Request → List (List UInt8) × ChaCha
  | object, [] => ([], object)
  | object, request :: requests =>
      let served := serve cpu object request
      let others := serveAll served.2 requests
      (served.1 :: others.1, others.2)

/-- How many bytes of the keystream a request takes -/
def Request.size : Request → ℕ
  | .cipher input => input.length
  | .keystream length => length

/-- The answer to a request out of a keystream -/
def Request.answer (stream : ℕ → UInt8) : Request → List UInt8
  | .cipher input => List.zipWith (· ^^^ ·) input (firsts stream input.length)
  | .keystream length => firsts stream length

/-- The answers to requests out of a keystream, which each takes up where the last has left
it -/
def answers : (ℕ → UInt8) → List Request → List (List UInt8)
  | _, [] => []
  | stream, request :: requests =>
      request.answer stream :: answers (fun index => stream (request.size + index)) requests

/-- Every answer goes on where the last one has ended. -/
theorem serve_spec (object : ChaCha) (request : Request) :
    (serve cpu object request).1 = request.answer object.ahead ∧
      (serve cpu object request).2.rounds = object.rounds ∧
      (serve cpu object request).2.key = object.key ∧
      (serve cpu object request).2.ahead = fun index => object.ahead (request.size + index) := by
  cases request with
  | cipher input =>
      rcases cipherBytes_spec cpu object input with ⟨got, rounds, key, left⟩
      exact ⟨got, rounds, key, funext left⟩
  | keystream length =>
      rcases generateKeystream_spec cpu object length with ⟨got, rounds, key, left⟩
      exact ⟨got, rounds, key, funext left⟩

theorem serveAll_spec (object : ChaCha) (requests : List Request) :
    (serveAll cpu object requests).1 = answers object.ahead requests ∧
      (serveAll cpu object requests).2.rounds = object.rounds ∧
      (serveAll cpu object requests).2.key = object.key := by
  induction requests generalizing object with
  | nil => exact ⟨rfl, rfl, rfl⟩
  | cons request requests ih =>
      rcases serve_spec cpu object request with ⟨got, rounds, key, left⟩
      rcases ih (serve cpu object request).2 with ⟨others, others_rounds, others_key⟩
      rw [serveAll, answers, ← got, ← left]
      exact ⟨congrArg _ others, others_rounds.trans rounds, others_key.trans key⟩

/-- Under a key and an IV the requests get one keystream, whatever the object has served
before: its bytes are those of the blocks that the base version makes of the counters from
that of the IV on. Neither the cut of the requests nor the processor shows. -/
theorem answers_of_requests (rounds : Rounds) {key iv : List UInt8}
    (keyLength : key.length = 16 ∨ key.length = 32) (ivLength : validIvLength iv.length)
    (before requests : List Request) :
    ∃ keyed started, setKey cpu rounds key = some keyed ∧
      setIv cpu (serveAll cpu keyed before).2 iv = some started ∧
      (serveAll cpu started requests).1 =
        answers (keystream rounds.count (ivState rounds (keyWords key) iv)) requests := by
  rcases @setIvBytes_spec cpu rounds (keyWords key) [] rfl with
    ⟨keyed, set, rfl, sameKey, -⟩
  rcases serveAll_spec cpu keyed before with ⟨-, keptRounds, keptKey⟩
  rcases setIvBytes_spec cpu keyed.rounds (keyWords key) ivLength with
    ⟨started, startedSet, -, -, ahead⟩
  refine ⟨keyed, started, (if_pos keyLength).trans set, ?_, ?_⟩
  · rw [setIv, keptRounds, keptKey, sameKey, startedSet]
  · rcases serveAll_spec cpu started requests with ⟨got, -, -⟩
    rw [got, ahead]

/-- The block of RFC 8439, section 2.3.2, which is the second of its stream: with registers for
sixteen blocks and asked for in two pieces -/
theorem answers_of_requests_block :
    ∃ keyed started,
      setKey ⟨true, true, true⟩ ⟨20, by decide⟩ (List.ofFn fun i : Fin 32 => UInt8.ofNat i) =
        some keyed ∧
      setIv ⟨true, true, true⟩ (serveAll ⟨true, true, true⟩ keyed []).2
        [0, 0, 0, 9, 0, 0, 0, 0x4a, 0, 0, 0, 0] = some started ∧
      (serveAll ⟨true, true, true⟩ started [.keystream 70, .cipher [0, 0, 0, 0]]).1.getD 1 [] =
        [0x59, 0x15, 0x50, 0x0f] := by
  rcases answers_of_requests ⟨true, true, true⟩ ⟨20, by decide⟩
    (show (List.ofFn fun i : Fin 32 => UInt8.ofNat i).length = 16 ∨ _ by right; rfl)
    (show validIvLength [0, 0, 0, 9, 0, 0, 0, 0x4a, 0, 0, 0, 0].length from rfl) []
    [.keystream 70, .cipher [0, 0, 0, 0]] with ⟨keyed, started, set, iv, got⟩
  refine ⟨keyed, started, set, iv, ?_⟩
  rw [got]
  decide +kernel

end ChaCha

end Imconee.Botan
