import Imconee.Botan.CipherMode
import Imconee.Lib.LittleEndian

/-!
# `ss::keyed_filter`, `ss::cipher_enc`, `ss::cipher_dec`

A filter runs one message at a time through a cipher mode and counts its nonce up after
each message it completes. What it sends downstream is kept as the list of blocks in which
it sends: an exception leaves what was sent before it where it is.
-/

set_option autoImplicit false

namespace Imconee.Shadowsocks

open Imconee.Lib Imconee.Botan

/-- The loop of `nonceIncrement`, with the carry `c`. -/
def nonceIncrementLoop : ℕ → List UInt8 → List UInt8
  | 0, n => n
  | _ + 1, [] => []
  | c + 1, byte :: n =>
      let c := c + 1 + byte.toNat
      UInt8.ofNat (c % 256) :: nonceIncrementLoop (c / 256) n

def nonceIncrement (n : List UInt8) : List UInt8 :=
  nonceIncrementLoop 1 n

/-- `keyed_filter`; `buf` and the state of the mode live from `start_msg` to `end_msg`. -/
structure KeyedFilter (State : Type) where
  mode : CipherMode State
  iv : List UInt8

/-- What processing one message did: the blocks sent, how it ended and the filter after. -/
structure Processed (State : Type) where
  sent : List (List UInt8)
  result : Except Exception Bool
  filter : KeyedFilter State

/-- `Filter::send` drops empty blocks. -/
def send (block : List UInt8) : List (List UInt8) :=
  if block.length = 0 then [] else [block]

@[simp]
theorem flatten_send (block : List UInt8) : (send block).flatten = block := by
  by_cases empty : block = [] <;> simp [send, empty]

namespace KeyedFilter

variable {State : Type}

def isInit (filter : KeyedFilter State) : Bool :=
  filter.iv.length ≠ 0

def setup (mode : CipherMode State) (nonceSize : ℕ) : KeyedFilter State :=
  { mode, iv := List.replicate nonceSize 0 }

def incnonce (filter : KeyedFilter State) : KeyedFilter State :=
  { filter with iv := nonceIncrement filter.iv }

def startMsg (filter : KeyedFilter State) : State :=
  filter.mode.start filter.iv

/-- The loop of `write`: the blocks sent, then the state of the mode and `buf`. -/
def writeLoop (filter : KeyedFilter State) : ℕ → State → List UInt8 →
    List (List UInt8) × Except Exception (State × List UInt8)
  | 0, state, input => ([], .ok (state, input))
  | fuel + 1, state, input =>
      let idealg := filter.mode.idealGranularity
      let mfz := idealg + filter.mode.minimumFinalSize
      if mfz ≤ input.length then
        match filter.mode.update state (input.take idealg) with
        | .error exception => ([], .error exception)
        | .ok (state, buf) =>
            let rest := writeLoop filter fuel state (input.drop idealg)
            (send buf ++ rest.1, rest.2)
      else ([], .ok (state, input))

def write (filter : KeyedFilter State) (state : State) (input : List UInt8) :
    List (List UInt8) × Except Exception (State × List UInt8) :=
  filter.writeLoop input.length state input

def endMsg (filter : KeyedFilter State) (state : State) (buf : List UInt8) :
    List (List UInt8) × Except Exception (KeyedFilter State) :=
  match filter.mode.finish state buf with
  | .error exception => ([], .error exception)
  | .ok buf => (send buf, .ok filter.incnonce)

/-- `start_msg`, `write` and `end_msg` of one message. `report` is the value returned,
from the bytes that went downstream. -/
def process (filter : KeyedFilter State) (report : ℕ → Bool) (input : List UInt8) :
    Processed State :=
  let written := filter.write filter.startMsg input
  match written.2 with
  | .error exception => ⟨written.1, .error exception, filter⟩
  | .ok (state, buf) =>
      let ended := filter.endMsg state buf
      match ended.2 with
      | .error exception => ⟨written.1 ++ ended.1, .error exception, filter⟩
      | .ok next =>
          ⟨written.1 ++ ended.1, .ok (report (written.1 ++ ended.1).flatten.length), next⟩

end KeyedFilter

/-- `cipher_enc::process`; what is sent goes behind `output`. -/
def CipherEnc.process {State : Type} (recoder : KeyedFilter State) (input : List UInt8) :
    Processed State :=
  recoder.process (fun sent => 0 < sent) input

/-- `cipher_dec::process`; what is sent is handed to the acceptor block by block. -/
def CipherDec.process {State : Type} (recoder : KeyedFilter State) (input : List UInt8) :
    Processed State :=
  recoder.process (fun handled => handled + aeadTagSize = input.length) input

theorem nonceIncrementLoop_encode (width value c : ℕ) :
    nonceIncrementLoop c (LittleEndian.encode width value) =
      LittleEndian.encode width (value + c) := by
  induction width generalizing value c with
  | zero => cases c <;> rfl
  | succ width ih =>
      cases c with
      | zero => simp [nonceIncrementLoop]
      | succ c =>
          have low : (UInt8.ofNat value).toNat = value % 256 := by simp
          have byte : UInt8.ofNat ((c + 1 + value % 256) % 256) =
              UInt8.ofNat (value % 256 + (c + 1)) := by
            apply UInt8.toNat_inj.mp
            simp [Nat.add_comm]
          rw [LittleEndian.encode_add, LittleEndian.encode]
          simp only [nonceIncrementLoop, low, ih, byte]
          rw [Nat.add_comm (value % 256)]

/-- The byte loop adds one to the whole little-endian number. -/
theorem nonceIncrement_encode (width value : ℕ) :
    nonceIncrement (LittleEndian.encode width value) = LittleEndian.encode width (value + 1) :=
  nonceIncrementLoop_encode width value 1

@[simp]
theorem length_nonceIncrementLoop (c : ℕ) (n : List UInt8) :
    (nonceIncrementLoop c n).length = n.length := by
  induction n generalizing c with
  | nil => cases c <;> rfl
  | cons byte n ih =>
      cases c with
      | zero => rfl
      | succ c => simp [nonceIncrementLoop, ih]

@[simp]
theorem length_nonceIncrement (n : List UInt8) : (nonceIncrement n).length = n.length :=
  length_nonceIncrementLoop 1 n

namespace KeyedFilter

variable {State : Type} {filter : KeyedFilter State}
  {oneShot : List UInt8 → List UInt8 → Except Exception (List UInt8)}

/-- What `write` leaves for `finish`, and what it has sent by then: all the whole blocks
that leave enough to finish with. -/
theorem writeLoop_spec (computes : filter.mode.Computes oneShot) {fuel : ℕ} (state : State)
    (input : List UInt8) (rounds : input.length ≤ fuel)
    (enough : filter.mode.minimumFinalSize ≤ input.length) :
    ∃ next buf, (filter.writeLoop fuel state input).2 = .ok (next, buf) ∧
      (filter.writeLoop fuel state input).1.flatten.length =
        filter.mode.idealGranularity *
          ((input.length - filter.mode.minimumFinalSize) / filter.mode.idealGranularity) ∧
      filter.mode.finish state input = (filter.mode.finish next buf).map
        ((filter.writeLoop fuel state input).1.flatten ++ ·) := by
  have positive := computes.idealGranularity_pos
  induction fuel generalizing state input with
  | zero =>
      have none : input.length - filter.mode.minimumFinalSize = 0 := by omega
      refine ⟨state, input, rfl, by simp [writeLoop, none], ?_⟩
      cases filter.mode.finish state input <;> rfl
  | succ fuel ih =>
      by_cases round : filter.mode.idealGranularity + filter.mode.minimumFinalSize ≤ input.length
      · rcases computes.update_block state (input.take filter.mode.idealGranularity)
            (by rw [List.length_take]; omega) with ⟨next, output, update, outputLength, finish⟩
        have rest : (input.drop filter.mode.idealGranularity).length =
            input.length - filter.mode.idealGranularity := List.length_drop
        rcases ih next (input.drop filter.mode.idealGranularity) (by omega) (by omega) with
            ⟨final, buf, loop, length, finish'⟩
        have step : filter.writeLoop (fuel + 1) state input =
            (send output ++
              (filter.writeLoop fuel next (input.drop filter.mode.idealGranularity)).1,
              (filter.writeLoop fuel next (input.drop filter.mode.idealGranularity)).2) := by
          simp only [writeLoop, round, if_true, update]
        rw [step]
        refine ⟨final, buf, loop, ?_, ?_⟩
        · rw [List.flatten_append, flatten_send, List.length_append, outputLength, length, rest,
            Nat.sub_right_comm, Nat.div_eq_sub_div positive
              (show filter.mode.idealGranularity ≤ input.length - filter.mode.minimumFinalSize by
                omega), Nat.mul_add, Nat.mul_one, Nat.add_comm]
        · have joined := finish (input.drop filter.mode.idealGranularity) (by omega)
          rw [List.take_append_drop, finish'] at joined
          rw [joined, List.flatten_append, flatten_send]
          cases filter.mode.finish final buf <;> simp [Except.map]
      · have none : (input.length - filter.mode.minimumFinalSize) /
            filter.mode.idealGranularity = 0 := Nat.div_eq_of_lt (by omega)
        have stop : filter.writeLoop (fuel + 1) state input = ([], .ok (state, input)) := by
          simp only [writeLoop, round, if_false]
        rw [stop]
        refine ⟨state, input, rfl, by simp [none], ?_⟩
        cases filter.mode.finish state input <;> rfl

/-- A message that the mode accepts: its whole output is sent and the nonce moves on. -/
theorem process_of_ok (computes : filter.mode.Computes oneShot) (report : ℕ → Bool)
    {input output : List UInt8} (enough : filter.mode.minimumFinalSize ≤ input.length)
    (accepted : oneShot filter.iv input = .ok output) :
    (filter.process report input).sent.flatten = output ∧
      (filter.process report input).result = .ok (report output.length) ∧
      (filter.process report input).filter = filter.incnonce := by
  rcases writeLoop_spec computes filter.startMsg input (Nat.le_refl _) enough with
    ⟨next, buf, loop, -, finish⟩
  rw [startMsg, computes.finish_start _ _ enough, accepted] at finish
  cases final : filter.mode.finish next buf with
  | error exception =>
      rw [final] at finish
      cases finish
  | ok last =>
      rw [final] at finish
      simp only [Except.map, Except.ok.injEq] at finish
      rw [startMsg] at loop
      simp only [process, write, startMsg, loop, endMsg, final, List.flatten_append, flatten_send,
        ← finish]
      exact ⟨trivial, trivial, trivial⟩

/-- A message too short for a whole block is sent in one piece. -/
theorem process_of_short (computes : filter.mode.Computes oneShot) (report : ℕ → Bool)
    {input output : List UInt8} (enough : filter.mode.minimumFinalSize ≤ input.length)
    (short : input.length < filter.mode.idealGranularity + filter.mode.minimumFinalSize)
    (accepted : oneShot filter.iv input = .ok output) :
    (filter.process report input).sent = send output := by
  have stop : ¬filter.mode.idealGranularity + filter.mode.minimumFinalSize ≤ input.length := by
    omega
  have loop : filter.write (filter.mode.start filter.iv) input =
      ([], .ok (filter.mode.start filter.iv, input)) := by
    rw [write]
    cases input.length with
    | zero => rfl
    | succ fuel => simp only [writeLoop, stop, if_false]
  have finish := computes.finish_start filter.iv input enough
  rw [accepted] at finish
  simp only [process, startMsg, loop, endMsg, finish, List.nil_append]

/-- A message that the mode rejects: the blocks updated before `finish` are sent all the
same, and the nonce stays. -/
theorem process_of_error (computes : filter.mode.Computes oneShot) (report : ℕ → Bool)
    {input : List UInt8} {exception : Exception}
    (enough : filter.mode.minimumFinalSize ≤ input.length)
    (rejected : oneShot filter.iv input = .error exception) :
    (filter.process report input).sent.flatten.length = filter.mode.idealGranularity *
        ((input.length - filter.mode.minimumFinalSize) / filter.mode.idealGranularity) ∧
      (filter.process report input).result = .error exception ∧
      (filter.process report input).filter = filter := by
  rcases writeLoop_spec computes filter.startMsg input (Nat.le_refl _) enough with
    ⟨next, buf, loop, length, finish⟩
  rw [startMsg, computes.finish_start _ _ enough, rejected] at finish
  cases final : filter.mode.finish next buf with
  | ok last =>
      rw [final] at finish
      cases finish
  | error exception' =>
      rw [final] at finish
      simp only [Except.map, Except.error.injEq] at finish
      rw [startMsg] at loop length
      simp only [process, write, startMsg, loop, endMsg, final, List.append_nil]
      exact ⟨length, by rw [finish], trivial⟩

end KeyedFilter

namespace CipherEnc

variable {State : Type} {aead : Aead State} {key : List UInt8} {recoder : KeyedFilter State}

theorem process_spec (mode : recoder.mode = aead.encryption key) (input : List UInt8) :
    (process recoder input).sent.flatten = aead.sealed key recoder.iv input ∧
      (∃ written, (process recoder input).result = .ok written) ∧
      (process recoder input).filter = recoder.incnonce := by
  have computes : recoder.mode.Computes
      fun nonce message => .ok (aead.sealed key nonce message) := by
    rw [mode]
    exact aead.encryption_computes key
  have enough : recoder.mode.minimumFinalSize ≤ input.length := by
    rw [mode, aead.encryption_minimumFinalSize key]
    exact Nat.zero_le _
  rcases KeyedFilter.process_of_ok computes (fun sent => 0 < sent) enough rfl with
    ⟨sent, result, filter⟩
  exact ⟨sent, ⟨_, result⟩, filter⟩

end CipherEnc

namespace CipherDec

variable {State : Type} {aead : Aead State} {key : List UInt8} {recoder : KeyedFilter State}
  {input : List UInt8}

theorem computes (mode : recoder.mode = aead.decryption key) :
    recoder.mode.Computes (aead.opened key) := by
  rw [mode]
  exact aead.decryption_computes key

theorem minimumFinalSize_le (mode : recoder.mode = aead.decryption key)
    (enough : aeadTagSize ≤ input.length) : recoder.mode.minimumFinalSize ≤ input.length := by
  rwa [mode, aead.decryption_minimumFinalSize key]

theorem process_of_ok (mode : recoder.mode = aead.decryption key)
    (enough : aeadTagSize ≤ input.length) {plain : List UInt8}
    (verified : aead.opened key recoder.iv input = .ok plain) :
    (process recoder input).sent.flatten = plain ∧
      (∃ complete, (process recoder input).result = .ok complete) ∧
      (process recoder input).filter = recoder.incnonce := by
  rcases KeyedFilter.process_of_ok (computes mode) (fun handled => handled + aeadTagSize =
    input.length) (minimumFinalSize_le mode enough) verified with ⟨sent, result, filter⟩
  exact ⟨sent, ⟨_, result⟩, filter⟩

theorem sent_of_length_two (mode : recoder.mode = aead.decryption key)
    (length : input.length = 2 + aeadTagSize) {plain : List UInt8}
    (verified : aead.opened key recoder.iv input = .ok plain) :
    (process recoder input).sent = [plain] := by
  have large := aead.decryption_idealGranularity key
  have short : input.length < recoder.mode.idealGranularity + recoder.mode.minimumFinalSize := by
    rw [mode, aead.decryption_minimumFinalSize key]
    omega
  have plainLength := aead.length_opened verified
  have nonempty : ¬plain.length = 0 := by omega
  rw [process, KeyedFilter.process_of_short (computes mode) _
    (minimumFinalSize_le mode (by omega)) short verified]
  simp only [send, nonempty, if_false]

/-- What the mode released before it checked the tag is handled all the same. -/
theorem process_of_error (mode : recoder.mode = aead.decryption key)
    (enough : aeadTagSize ≤ input.length) {exception : Exception}
    (refused : aead.opened key recoder.iv input = .error exception) :
    (process recoder input).sent.flatten.length = (aead.decryption key).idealGranularity *
        ((input.length - aeadTagSize) / (aead.decryption key).idealGranularity) ∧
      (process recoder input).result = .error exception ∧
      (process recoder input).filter = recoder := by
  have released := KeyedFilter.process_of_error (computes mode)
    (fun handled => handled + aeadTagSize = input.length) (minimumFinalSize_le mode enough) refused
  rwa [mode, aead.decryption_minimumFinalSize key] at released

end CipherDec

end Imconee.Shadowsocks
