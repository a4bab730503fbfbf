import Imconee.Botan.Aead
import Imconee.Lib.Reader
import Imconee.Shadowsocks.AeadCryptor

/-!
# What `decipher` decodes

The stream of frames as an incremental reader: it waits for a block of known length, opens
it under the next nonce, and either learns the length of a payload or puts one out. It
halts on a size block that does not verify or is too large, on a payload block that does
not verify, and on the announcement of an empty payload.

`decipher` is this reader on the bytes it has kept and those it is given, and what it keeps
is what the reader leaves unread, apart from a size block it keeps until its payload has
come.
-/

set_option autoImplicit false

namespace Imconee.Shadowsocks

open Imconee.Lib Imconee.Botan Imconee.Tools

variable {State : Type}

/-- Where in the stream a decoder stands: the nonce of the next block and what it is. -/
inductive Decoder where
  | size (nonce : List UInt8)
  | payload (nonce : List UInt8) (length : ℕ)

/-- Why a decoder halts. -/
inductive Refusal where
  /-- A size block does not verify or announces too much. -/
  | rejected
  /-- A payload block does not verify. -/
  | forged
  /-- A size block announces an empty payload. -/
  | empty
  deriving DecidableEq

abbrev Decoding := Progress Decoder UInt8 UInt8 Refusal

namespace Decoder

variable (aead : Aead State) (key : List UInt8)

/-- The length of a size block. -/
def sizeBlock : ℕ := 2 + aeadTagSize

def look : Decoder → List UInt8 → Verdict Decoder UInt8 Refusal
  | .size nonce, buffered =>
      if buffered.length < sizeBlock then .more
      else
        match aead.opened key nonce (buffered.take sizeBlock) with
        | .error _ => .halt .rejected
        | .ok announced =>
            if aeadChunkSizeMask < toHe [announced] then .halt .rejected
            else if toHe [announced] = 0 then .halt .empty
            else .take sizeBlock (.payload (nonceIncrement nonce) (toHe [announced])) []
  | .payload nonce length, buffered =>
      if buffered.length < length + aeadTagSize then .more
      else
        match aead.opened key nonce (buffered.take (length + aeadTagSize)) with
        | .error _ => .halt .forged
        | .ok plain => .take (length + aeadTagSize) (.size (nonceIncrement nonce)) plain

theorem look_append {decoder : Decoder} {buffered : List UInt8} (later : List UInt8)
    (decided : look aead key decoder buffered ≠ .more) :
    look aead key decoder (buffered ++ later) = look aead key decoder buffered := by
  cases decoder with
  | size nonce =>
      simp only [look] at decided ⊢
      split at decided
      · exact absurd rfl decided
      · rename_i enough
        have enough' : ¬(buffered ++ later).length < sizeBlock := by
          rw [List.length_append]
          omega
        rw [if_neg enough, if_neg enough', List.take_append_of_le_length (by omega)]
  | payload nonce length =>
      simp only [look] at decided ⊢
      split at decided
      · exact absurd rfl decided
      · rename_i enough
        have enough' : ¬(buffered ++ later).length < length + aeadTagSize := by
          rw [List.length_append]
          omega
        rw [if_neg enough, if_neg enough', List.take_append_of_le_length (by omega)]

theorem take_bounds {decoder next : Decoder} {buffered output : List UInt8} {consumed : ℕ}
    (verdict : look aead key decoder buffered = .take consumed next output) :
    0 < consumed ∧ consumed ≤ buffered.length := by
  have tagPos : 0 < aeadTagSize := by decide
  have sizePos : 0 < sizeBlock := by decide
  cases decoder with
  | size nonce =>
      simp only [look] at verdict
      repeat' split at verdict
      all_goals cases verdict
      omega
  | payload nonce length =>
      simp only [look] at verdict
      repeat' split at verdict
      all_goals cases verdict
      omega

/-- The nonce of the next block. -/
def nonce : Decoder → List UInt8
  | .size nonce => nonce
  | .payload nonce _ => nonce

/-- The length of the next block. -/
def blockLength : Decoder → ℕ
  | .size _ => sizeBlock
  | .payload _ length => length + aeadTagSize

theorem blockLength_pos (decoder : Decoder) : 0 < decoder.blockLength := by
  have tagPos : 0 < aeadTagSize := by decide
  cases decoder with
  | size nonce => exact Nat.add_pos_left (by decide) _
  | payload nonce length => exact Nat.add_pos_right _ tagPos

theorem look_eq_more_iff {decoder : Decoder} {buffered : List UInt8} :
    look aead key decoder buffered = .more ↔ buffered.length < decoder.blockLength := by
  cases decoder with
  | size nonce =>
      simp only [look, blockLength]
      repeat' split
      all_goals simp_all
  | payload nonce length =>
      simp only [look, blockLength]
      repeat' split
      all_goals simp_all

/-- A step of the decoder takes one block and one nonce. -/
theorem look_take {decoder next : Decoder} {buffered output : List UInt8} {consumed : ℕ}
    (verdict : look aead key decoder buffered = .take consumed next output) :
    consumed = decoder.blockLength ∧ next.nonce = nonceIncrement decoder.nonce := by
  cases decoder with
  | size nonce =>
      simp only [look] at verdict
      repeat' split at verdict
      all_goals cases verdict
      exact ⟨rfl, rfl⟩
  | payload nonce length =>
      simp only [look] at verdict
      repeat' split at verdict
      all_goals cases verdict
      exact ⟨rfl, rfl⟩

/-- The decoder as a reader. -/
def reader : Reader Decoder UInt8 UInt8 Refusal where
  look := look aead key
  look_append := look_append aead key
  take_bounds := take_bounds aead key

theorem length_nonce_drain (decoder : Decoder) (buffered : List UInt8) :
    ((reader aead key).drain decoder buffered).state.nonce.length = decoder.nonce.length := by
  induction decoder, buffered using Reader.drain_induction (reader aead key) with
  | more decoder buffered verdict => rw [Reader.drain_of_more verdict]
  | halt decoder buffered refusal verdict => rw [Reader.drain_of_halt verdict]
  | take decoder buffered consumed next output verdict ih =>
      rw [Reader.drain_of_take verdict, Progress.after_state, ih, (look_take aead key verdict).2,
        length_nonceIncrement]

theorem look_nil (decoder : Decoder) : (reader aead key).look decoder [] = .more :=
  (look_eq_more_iff aead key).mpr decoder.blockLength_pos

end Decoder

namespace AeadDecryptor

variable {aead : Aead State} {key : List UInt8} {cryptor : AeadDecryptor State}

theorem decode_of_short {skip capacity : ℕ}
    (short : cryptor.unprocessed.data.length - skip < capacity + aeadTagSize) :
    cryptor.decode skip capacity = ([], .ok 0, cryptor) := by
  simp only [decode, SkipBuf.size_eq, short, if_true]

/-- The block that `decode` takes from what has arrived. -/
theorem length_block {skip capacity : ℕ}
    (enough : ¬cryptor.unprocessed.data.length - skip < capacity + aeadTagSize) :
    ((cryptor.unprocessed.data.drop skip).take (capacity + aeadTagSize)).length =
      capacity + aeadTagSize := by
  rw [List.length_take, List.length_drop]
  omega

/-- A block that verifies is handled whole, a length in one piece. -/
theorem decode_of_ok (mode : cryptor.decryptor.mode = aead.decryption key) {skip capacity : ℕ}
    (enough : ¬cryptor.unprocessed.data.length - skip < capacity + aeadTagSize)
    {plain : List UInt8} (verified : aead.opened key cryptor.decryptor.iv
      ((cryptor.unprocessed.data.drop skip).take (capacity + aeadTagSize)) = .ok plain) :
    ∃ handled, cryptor.decode skip capacity = (handled, .ok (capacity + aeadTagSize),
        { cryptor with decryptor := cryptor.decryptor.incnonce }) ∧
      handled.flatten = plain ∧ (capacity = 2 → handled = [plain]) := by
  have length := length_block enough
  rcases CipherDec.process_of_ok mode (by omega) verified with ⟨sent, ⟨complete, result⟩, filter⟩
  refine ⟨_, ?_, sent, ?_⟩
  · simp only [decode, SkipBuf.size_eq, enough, if_false, result, filter]
    rfl
  · intro two
    exact CipherDec.sent_of_length_two mode (by omega) verified

/-- A block that does not verify: what the mode released before it checked is handled. -/
theorem decode_of_error (mode : cryptor.decryptor.mode = aead.decryption key) {skip capacity : ℕ}
    (enough : ¬cryptor.unprocessed.data.length - skip < capacity + aeadTagSize)
    {exception : Exception} (refused : aead.opened key cryptor.decryptor.iv
      ((cryptor.unprocessed.data.drop skip).take (capacity + aeadTagSize)) = .error exception) :
    ∃ handled, cryptor.decode skip capacity = (handled, .error exception, cryptor) ∧
      handled.flatten.length = (aead.decryption key).idealGranularity *
        (capacity / (aead.decryption key).idealGranularity) := by
  have length := length_block enough
  rcases CipherDec.process_of_error mode (by omega) refused with ⟨sent, result, filter⟩
  rw [length, Nat.add_sub_cancel] at sent
  refine ⟨_, ?_, sent⟩
  simp only [decode, SkipBuf.size_eq, enough, if_false, result, filter]
  rfl

/-- The bytes of a size block kept until its payload has come. -/
def kept (cryptor : AeadDecryptor State) : ℕ :=
  if cryptor.lastBlockPayloadSize = 0 then 0 else Decoder.sizeBlock

/-- Where in the stream the decryptor stands. -/
def position (cryptor : AeadDecryptor State) : Decoder :=
  if cryptor.lastBlockPayloadSize = 0 then .size cryptor.decryptor.iv
  else .payload cryptor.decryptor.iv cryptor.lastBlockPayloadSize

/-- What it has not decoded, when it has decoded the frames in front of `fromOffset`. -/
def pending (cryptor : AeadDecryptor State) (fromOffset : ℕ) : List UInt8 :=
  cryptor.unprocessed.data.drop (fromOffset + cryptor.kept)

variable (aead key) in
/-- What the decoder makes of it. -/
def decoding (cryptor : AeadDecryptor State) (fromOffset : ℕ) : Decoding :=
  (Decoder.reader aead key).drain cryptor.position (cryptor.pending fromOffset)

variable (aead key) in
/-- The decryptor has decoded the frames in front of `fromOffset`, and a size block behind
them if it remembers one. -/
structure Placed (cryptor : AeadDecryptor State) (fromOffset : ℕ) : Prop where
  mode : cryptor.decryptor.mode = aead.decryption key
  wellFormed : cryptor.unprocessed.WellFormed
  inside : fromOffset + cryptor.kept ≤ cryptor.unprocessed.data.length

variable (aead key) in
/-- How one call of `decrypt` may end, by what the decoder makes of the bytes before it. -/
inductive Round (before : Decoding) (fromOffset : ℕ) : Decrypted State → Prop where
  | waiting {next : AeadDecryptor State}
      (drained : before = ⟨next.position, next.pending fromOffset, [], none⟩) :
      Round before fromOffset ⟨[], .ok 0, fromOffset, next⟩
  | rejected {next : AeadDecryptor State} {decoder : Decoder} {unread : List UInt8}
      (drained : before = ⟨decoder, unread, [], some .rejected⟩) :
      Round before fromOffset ⟨[], .ok (-1), fromOffset, next⟩
  | forged {next : AeadDecryptor State} {nonce unread : List UInt8} {length : ℕ}
      {handled : List (List UInt8)} {exception : Exception}
      (drained : before = ⟨.payload nonce length, unread, [], some .forged⟩)
      (leaked : handled.flatten.length = (aead.decryption key).idealGranularity *
        (length / (aead.decryption key).idealGranularity)) :
      Round before fromOffset ⟨handled, .error exception, fromOffset, next⟩
  | emptyForged {next : AeadDecryptor State} {nonce unread : List UInt8}
      {handled : List (List UInt8)} {exception : Exception}
      (drained : before = ⟨.size nonce, unread, [], some .empty⟩)
      (complete : Decoder.sizeBlock + aeadTagSize ≤ unread.length)
      (refused : aead.opened key (nonceIncrement nonce)
        ((unread.drop Decoder.sizeBlock).take aeadTagSize) = .error exception)
      (leaked : handled.flatten = []) :
      Round before fromOffset ⟨handled, .error exception, fromOffset, next⟩
  | emptyWaiting {next : AeadDecryptor State} {nonce unread : List UInt8}
      (drained : before = ⟨.size nonce, unread, [], some .empty⟩)
      (incomplete : unread.length < Decoder.sizeBlock + aeadTagSize)
      (position : next.position = .size (nonceIncrement nonce))
      (pending : next.pending fromOffset = unread) :
      Round before fromOffset ⟨[], .ok 0, fromOffset, next⟩
  | emptyRead {next : AeadDecryptor State} {nonce unread : List UInt8}
      {handled : List (List UInt8)}
      (drained : before = ⟨.size nonce, unread, [], some .empty⟩)
      (complete : Decoder.sizeBlock + aeadTagSize ≤ unread.length)
      (verified : aead.opened key (nonceIncrement nonce)
        ((unread.drop Decoder.sizeBlock).take aeadTagSize) = .ok [])
      (nothing : handled.flatten = []) (forgotten : next.lastBlockPayloadSize = 0) :
      Round before fromOffset
        ⟨handled, .ok 0, fromOffset + Decoder.sizeBlock + aeadTagSize, next⟩
  | frame {next : AeadDecryptor State} {plain : List UInt8} {fromOffset' : ℕ}
      {handled : List (List UInt8)} (nonempty : plain ≠ []) (later : fromOffset < fromOffset')
      (drained : before = (decoding aead key
        { next with lastBlockPayloadSize := 0 } fromOffset').after plain)
      (whole : handled.flatten = plain) :
      Round before fromOffset ⟨handled, .ok plain.length, fromOffset', next⟩

/-- The payload block behind a remembered size block. -/
theorem decryptPayload_round {fromOffset : ℕ} (placed : cryptor.Placed aead key fromOffset)
    (remembered : cryptor.lastBlockPayloadSize ≠ 0) :
    let d := cryptor.decryptPayload fromOffset (fromOffset + Decoder.sizeBlock)
      cryptor.lastBlockPayloadSize
    Round aead key (cryptor.decoding aead key fromOffset) fromOffset d ∧
      d.cryptor.unprocessed = cryptor.unprocessed ∧ d.cryptor.Placed aead key fromOffset ∧
      d.fromOffset ≤ cryptor.unprocessed.data.length := by
  have inside := placed.inside
  have position : cryptor.position =
      .payload cryptor.decryptor.iv cryptor.lastBlockPayloadSize := if_neg remembered
  have kept : cryptor.kept = Decoder.sizeBlock := if_neg remembered
  have pending : cryptor.pending fromOffset =
      cryptor.unprocessed.data.drop (fromOffset + Decoder.sizeBlock) := by
    rw [AeadDecryptor.pending, kept]
  rw [kept] at inside
  have pendingLength : (cryptor.pending fromOffset).length =
      cryptor.unprocessed.data.length - (fromOffset + Decoder.sizeBlock) := by
    rw [pending, List.length_drop]
  intro d
  by_cases short : cryptor.unprocessed.data.length - (fromOffset + Decoder.sizeBlock) <
      cryptor.lastBlockPayloadSize + aeadTagSize
  · have verdict : (Decoder.reader aead key).look cryptor.position (cryptor.pending fromOffset) =
        .more := by
      rw [position]
      simp only [Decoder.reader, Decoder.look, pendingLength, short, if_true]
    have result : d = ⟨[], .ok 0, fromOffset, cryptor⟩ := by
      simp only [d, decryptPayload, SkipBuf.size_eq, short, if_true]
    rw [result]
    exact ⟨.waiting (Reader.drain_of_more verdict), rfl, placed, by simp only; omega⟩
  · cases opened : aead.opened key cryptor.decryptor.iv
        ((cryptor.pending fromOffset).take (cryptor.lastBlockPayloadSize + aeadTagSize)) with
    | error exception =>
        have verdict : (Decoder.reader aead key).look cryptor.position
            (cryptor.pending fromOffset) = .halt .forged := by
          rw [position]
          simp only [Decoder.reader, Decoder.look, pendingLength, short, if_false, opened]
        rw [pending] at opened
        rcases decode_of_error placed.mode short opened with ⟨handled, decoded, leaked⟩
        have result : d = ⟨handled, .error exception, fromOffset, cryptor⟩ := by
          simp only [d, decryptPayload, SkipBuf.size_eq, short, if_false, decoded]
        rw [result]
        have drained : cryptor.decoding aead key fromOffset =
            ⟨.payload cryptor.decryptor.iv cryptor.lastBlockPayloadSize,
              cryptor.pending fromOffset, [], some .forged⟩ := by
          rw [decoding, Reader.drain_of_halt verdict, position]
        exact ⟨.forged drained leaked, rfl, placed, by simp only; omega⟩
    | ok plain =>
        have verdict : (Decoder.reader aead key).look cryptor.position
            (cryptor.pending fromOffset) =
              .take (cryptor.lastBlockPayloadSize + aeadTagSize)
                (.size (nonceIncrement cryptor.decryptor.iv)) plain := by
          rw [position]
          simp only [Decoder.reader, Decoder.look, pendingLength, short, if_false, opened]
        have plainLength := aead.length_opened opened
        rw [List.length_take, pendingLength] at plainLength
        have plainLength' : plain.length = cryptor.lastBlockPayloadSize := by omega
        rw [pending] at opened
        rcases decode_of_ok placed.mode short opened with ⟨handled, decoded, handledPlain, -⟩
        have result : d = ⟨handled, .ok plain.length,
            fromOffset + Decoder.sizeBlock + (cryptor.lastBlockPayloadSize + aeadTagSize),
            { cryptor with decryptor := cryptor.decryptor.incnonce }⟩ := by
          simp only [d, decryptPayload, SkipBuf.size_eq, short, if_false, decoded, plainLength']
        rw [result]
        have nonempty : plain ≠ [] := by
          intro nil
          rw [nil] at plainLength'
          exact remembered plainLength'.symm
        have sizePos : 0 < Decoder.sizeBlock := by decide
        refine ⟨.frame nonempty (by omega) ?_ handledPlain, rfl,
          ⟨placed.mode, placed.wellFormed, placed.inside⟩, by simp only; omega⟩
        rw [decoding, Reader.drain_of_take verdict, pending, List.drop_drop]
        simp [decoding, AeadDecryptor.position, AeadDecryptor.pending, AeadDecryptor.kept,
          KeyedFilter.incnonce]

theorem pending_of_forgotten (forgotten : cryptor.lastBlockPayloadSize = 0) (fromOffset : ℕ) :
    cryptor.pending fromOffset = cryptor.unprocessed.data.drop fromOffset := by
  have kept : cryptor.kept = 0 := if_pos forgotten
  rw [AeadDecryptor.pending, kept, Nat.add_zero]

/-- The payload block behind a size block that announces nothing. -/
theorem decryptPayload_empty (cryptor : AeadDecryptor State) {fromOffset : ℕ}
    (placed : cryptor.Placed aead key fromOffset)
    (forgotten : cryptor.lastBlockPayloadSize = 0) {before : Decoding} {nonce : List UInt8}
    (next : cryptor.decryptor.iv = nonceIncrement nonce)
    (drained : before = ⟨.size nonce, cryptor.pending fromOffset, [], some .empty⟩)
    (complete : Decoder.sizeBlock ≤ (cryptor.pending fromOffset).length) :
    let d := cryptor.decryptPayload fromOffset (fromOffset + Decoder.sizeBlock) 0
    Round aead key before fromOffset d ∧ d.cryptor.unprocessed = cryptor.unprocessed ∧
      d.cryptor.Placed aead key fromOffset ∧
      d.fromOffset ≤ cryptor.unprocessed.data.length := by
  have kept : cryptor.kept = 0 := if_pos forgotten
  have position : cryptor.position = .size (nonceIncrement nonce) := by
    rw [AeadDecryptor.position, if_pos forgotten, next]
  have pending := pending_of_forgotten forgotten fromOffset
  have pendingLength : (cryptor.pending fromOffset).length =
      cryptor.unprocessed.data.length - fromOffset := by
    rw [pending, List.length_drop]
  have block : cryptor.unprocessed.data.drop (fromOffset + Decoder.sizeBlock) =
      (cryptor.pending fromOffset).drop Decoder.sizeBlock := by
    rw [pending, List.drop_drop]
  have inside := placed.inside
  rw [kept, Nat.add_zero] at inside
  intro d
  by_cases short : cryptor.unprocessed.data.length - (fromOffset + Decoder.sizeBlock) <
      0 + aeadTagSize
  · have result : d = ⟨[], .ok 0, fromOffset, cryptor⟩ := by
      simp only [d, decryptPayload, SkipBuf.size_eq, short, if_true]
    rw [result]
    exact ⟨.emptyWaiting drained (by omega) position rfl, rfl, placed, inside⟩
  · cases opened : aead.opened key cryptor.decryptor.iv
        ((cryptor.unprocessed.data.drop (fromOffset + Decoder.sizeBlock)).take
          (0 + aeadTagSize)) with
    | error exception =>
        rcases decode_of_error placed.mode short opened with ⟨handled, decoded, leaked⟩
        have result : d = ⟨handled, .error exception, fromOffset, cryptor⟩ := by
          simp only [d, decryptPayload, SkipBuf.size_eq, short, if_false, decoded]
        rw [block, next, Nat.zero_add] at opened
        rw [Nat.zero_div, Nat.mul_zero, List.length_eq_zero_iff] at leaked
        rw [result]
        exact ⟨.emptyForged drained (by omega) opened leaked, rfl, placed, inside⟩
    | ok plain =>
        rcases decode_of_ok placed.mode short opened with ⟨handled, decoded, handledPlain, -⟩
        have plainLength := aead.length_opened opened
        rw [length_block short] at plainLength
        have nil : plain = [] := List.length_eq_zero_iff.mp (by omega)
        have result : d = ⟨handled, .ok 0, fromOffset + Decoder.sizeBlock + aeadTagSize,
            { cryptor with decryptor := cryptor.decryptor.incnonce }⟩ := by
          simp only [d, decryptPayload, SkipBuf.size_eq, short, if_false, decoded]
          rw [Nat.zero_add]
          rfl
        rw [block, next, Nat.zero_add, nil] at opened
        rw [nil] at handledPlain
        rw [result]
        exact ⟨.emptyRead drained (by omega) opened handledPlain forgotten, rfl,
          ⟨placed.mode, placed.wellFormed, placed.inside⟩, by simp only; omega⟩

/-- The decryptor behind a size block, which it remembers. -/
def announced (cryptor : AeadDecryptor State) (size : ℕ) : AeadDecryptor State :=
  { cryptor with
    decryptor := cryptor.decryptor.incnonce
    lastBlockPayloadSize := size }

theorem announced_empty {fromOffset : ℕ} (placed : cryptor.Placed aead key fromOffset)
    (forgotten : cryptor.lastBlockPayloadSize = 0)
    (long : Decoder.sizeBlock ≤ cryptor.unprocessed.data.length - fromOffset)
    (verdict : (Decoder.reader aead key).look cryptor.position (cryptor.pending fromOffset) =
      .halt .empty) :
    let d := (cryptor.announced 0).decryptPayload fromOffset (fromOffset + Decoder.sizeBlock) 0
    Round aead key (cryptor.decoding aead key fromOffset) fromOffset d ∧
      d.cryptor.unprocessed = cryptor.unprocessed ∧ d.cryptor.Placed aead key fromOffset ∧
      d.fromOffset ≤ cryptor.unprocessed.data.length := by
  have inside := placed.inside
  have kept : cryptor.kept = 0 := if_pos forgotten
  have position : cryptor.position = .size cryptor.decryptor.iv := if_pos forgotten
  rw [kept, Nat.add_zero] at inside
  have samePending : (cryptor.announced 0).pending fromOffset = cryptor.pending fromOffset := by
    rw [pending_of_forgotten forgotten]
    rfl
  refine decryptPayload_empty (cryptor.announced 0) ⟨placed.mode, placed.wellFormed, inside⟩ rfl
    rfl ?_ ?_
  · rw [decoding, Reader.drain_of_halt verdict, position, samePending]
  · rwa [samePending, pending_of_forgotten forgotten, List.length_drop]

theorem announced_payload {fromOffset size : ℕ} (placed : cryptor.Placed aead key fromOffset)
    (forgotten : cryptor.lastBlockPayloadSize = 0)
    (long : Decoder.sizeBlock ≤ cryptor.unprocessed.data.length - fromOffset)
    (nonempty : size ≠ 0)
    (verdict : (Decoder.reader aead key).look cryptor.position (cryptor.pending fromOffset) =
      .take Decoder.sizeBlock (.payload (nonceIncrement cryptor.decryptor.iv) size) []) :
    let d := (cryptor.announced size).decryptPayload fromOffset (fromOffset + Decoder.sizeBlock)
      size
    Round aead key (cryptor.decoding aead key fromOffset) fromOffset d ∧
      d.cryptor.unprocessed = cryptor.unprocessed ∧ d.cryptor.Placed aead key fromOffset ∧
      d.fromOffset ≤ cryptor.unprocessed.data.length := by
  have inside := placed.inside
  have moved : (cryptor.announced size).decoding aead key fromOffset =
      cryptor.decoding aead key fromOffset := by
    rw [decoding, decoding, Reader.drain_of_take verdict, Progress.after_nil,
      pending_of_forgotten forgotten, List.drop_drop]
    simp only [announced, AeadDecryptor.position, AeadDecryptor.pending, AeadDecryptor.kept,
      nonempty, if_false]
    rfl
  have placed' : (cryptor.announced size).Placed aead key fromOffset := by
    refine ⟨placed.mode, placed.wellFormed, ?_⟩
    simp only [announced, AeadDecryptor.kept, nonempty, if_false]
    omega
  rw [← moved]
  exact decryptPayload_round placed' nonempty

/-- A call of `decrypt` that begins with a size block. -/
theorem decrypt_size_round {fromOffset : ℕ} (placed : cryptor.Placed aead key fromOffset)
    (forgotten : cryptor.lastBlockPayloadSize = 0) :
    Round aead key (cryptor.decoding aead key fromOffset) fromOffset
        (cryptor.decrypt fromOffset) ∧
      (cryptor.decrypt fromOffset).cryptor.unprocessed = cryptor.unprocessed ∧
      (cryptor.decrypt fromOffset).cryptor.Placed aead key fromOffset ∧
      (cryptor.decrypt fromOffset).fromOffset ≤ cryptor.unprocessed.data.length := by
  have inside := placed.inside
  have position : cryptor.position = .size cryptor.decryptor.iv := if_pos forgotten
  have kept : cryptor.kept = 0 := if_pos forgotten
  rw [kept, Nat.add_zero] at inside
  have pending := pending_of_forgotten forgotten fromOffset
  have pendingLength : (cryptor.pending fromOffset).length =
      cryptor.unprocessed.data.length - fromOffset := by
    rw [pending, List.length_drop]
  have notRemembered : ¬0 < cryptor.lastBlockPayloadSize := by omega
  by_cases short : cryptor.unprocessed.data.length - fromOffset < 2 + aeadTagSize
  · have verdict : (Decoder.reader aead key).look cryptor.position
        (cryptor.pending fromOffset) = .more := by
      rw [position]
      simp only [Decoder.reader, Decoder.look, Decoder.sizeBlock, pendingLength, short, if_true]
    have result : cryptor.decrypt fromOffset = ⟨[], .ok 0, fromOffset, cryptor⟩ := by
      simp only [decrypt, notRemembered, if_false, decode_of_short short, if_true]
    rw [result]
    exact ⟨.waiting (Reader.drain_of_more verdict), rfl, placed, inside⟩
  · cases opened : aead.opened key cryptor.decryptor.iv
        ((cryptor.pending fromOffset).take (2 + aeadTagSize)) with
    | error exception =>
        have verdict : (Decoder.reader aead key).look cryptor.position
            (cryptor.pending fromOffset) = .halt .rejected := by
          rw [position]
          simp only [Decoder.reader, Decoder.look, Decoder.sizeBlock, pendingLength, short,
            if_false, opened]
        rw [pending] at opened
        rcases decode_of_error placed.mode short opened with ⟨handled, decoded, -⟩
        have result : cryptor.decrypt fromOffset = ⟨[], .ok (-1), fromOffset, cryptor⟩ := by
          simp only [decrypt, notRemembered, if_false, decoded]
        rw [result]
        exact ⟨.rejected (Reader.drain_of_halt verdict), rfl, placed, inside⟩
    | ok block =>
        have verdict : (Decoder.reader aead key).look cryptor.position
            (cryptor.pending fromOffset) =
              if aeadChunkSizeMask < toHe [block] then .halt .rejected
              else if toHe [block] = 0 then .halt .empty
              else .take Decoder.sizeBlock
                (.payload (nonceIncrement cryptor.decryptor.iv) (toHe [block])) [] := by
          rw [position]
          simp only [Decoder.reader, Decoder.look, Decoder.sizeBlock, pendingLength, short,
            if_false, opened]
        rw [pending] at opened
        rcases decode_of_ok placed.mode short opened with ⟨handled, decoded, -, piece⟩
        have result : cryptor.decrypt fromOffset =
            if aeadChunkSizeMask < toHe [block] then
              ⟨[], .ok (-1), fromOffset,
                { cryptor with decryptor := cryptor.decryptor.incnonce }⟩
            else (cryptor.announced (toHe [block])).decryptPayload fromOffset
              (fromOffset + Decoder.sizeBlock) (toHe [block]) := by
          have tagPos : ¬2 + aeadTagSize = 0 := by decide
          simp only [decrypt, notRemembered, if_false, decoded, piece rfl, tagPos]
          rfl
        by_cases large : aeadChunkSizeMask < toHe [block]
        · rw [if_pos large] at verdict result
          rw [result]
          exact ⟨.rejected (Reader.drain_of_halt verdict), rfl,
            ⟨placed.mode, placed.wellFormed, placed.inside⟩, inside⟩
        · rw [if_neg large] at verdict result
          have long : Decoder.sizeBlock ≤ cryptor.unprocessed.data.length - fromOffset :=
            Nat.le_of_not_lt short
          by_cases zero : toHe [block] = 0
          · rw [if_pos zero] at verdict
            rw [result, zero]
            exact announced_empty placed forgotten long verdict
          · rw [if_neg zero] at verdict
            rw [result]
            exact announced_payload placed forgotten long zero verdict

theorem decrypt_round {fromOffset : ℕ} (placed : cryptor.Placed aead key fromOffset)
    (entry : cryptor.lastBlockPayloadSize = 0 ∨ fromOffset = 0) :
    Round aead key (cryptor.decoding aead key fromOffset) fromOffset
        (cryptor.decrypt fromOffset) ∧
      (cryptor.decrypt fromOffset).cryptor.unprocessed = cryptor.unprocessed ∧
      (cryptor.decrypt fromOffset).cryptor.Placed aead key fromOffset ∧
      (cryptor.decrypt fromOffset).fromOffset ≤ cryptor.unprocessed.data.length := by
  by_cases forgotten : cryptor.lastBlockPayloadSize = 0
  · exact decrypt_size_round placed forgotten
  · have fromZero : fromOffset = 0 := entry.resolve_left forgotten
    have result : cryptor.decrypt fromOffset = cryptor.decryptPayload fromOffset
        (fromOffset + Decoder.sizeBlock) cryptor.lastBlockPayloadSize := by
      simp only [decrypt, Nat.pos_of_ne_zero forgotten, if_true, fromZero]
      rfl
    rw [result]
    exact decryptPayload_round placed forgotten

variable (aead key) in
/-- The decoder meets a complete payload block that does not verify. -/
def meetsForgery (before : Decoding) : Bool :=
  match before.halted, before.state with
  | some .forged, _ => true
  | some .empty, .size nonce =>
      Decoder.sizeBlock + aeadTagSize ≤ before.unread.length &&
        !(aead.opened key (nonceIncrement nonce)
          ((before.unread.drop Decoder.sizeBlock).take aeadTagSize)).isOk
  | _, _ => false

variable (aead key) in
/-- How many bytes of a payload that does not verify are released. -/
def leaked (before : Decoding) : ℕ :=
  match before.halted, before.state with
  | some .forged, .payload _ length => (aead.decryption key).idealGranularity *
      (length / (aead.decryption key).idealGranularity)
  | _, _ => 0

/-- The decoder waits, or has read an announcement of nothing and nothing behind it. -/
def Settled (before : Decoding) : Prop :=
  before.halted = none ∨
    before.halted = some .empty ∧ before.unread.length < Decoder.sizeBlock + aeadTagSize

/-- Where the decryptor stands when the decoder has settled: an announcement of nothing
uses its nonce up and is forgotten. -/
def resting (before : Decoding) : Decoder :=
  match before.halted, before.state with
  | some .empty, .size nonce => .size (nonceIncrement nonce)
  | _, state => state

theorem Placed.zero {fromOffset : ℕ} (placed : cryptor.Placed aead key fromOffset) :
    cryptor.Placed aead key 0 :=
  ⟨placed.mode, placed.wellFormed, by have := placed.inside; omega⟩

variable (aead key) in
/-- What the loop of `decipher` does, by what the decoder makes of the bytes before it. -/
structure LoopSpec (before : Decoding) (fromOffset : ℕ) (decr : ℤ) (loop : LoopEnd State) :
    Prop where
  placed : loop.cryptor.Placed aead key 0
  released : ∃ leak, loop.appended.flatten = before.output ++ leak ∧
    leak.length = leaked aead key before
  throws : meetsForgery aead key before = true → ∃ exception, loop.result = .error exception
  rejects : before.halted = some .rejected → loop.result = .ok none
  returns : meetsForgery aead key before = false → before.halted ≠ some .rejected →
    ∃ fromOffset', loop.result = .ok (some (fromOffset', decr + before.output.length)) ∧
      loop.cryptor.Placed aead key fromOffset' ∧ fromOffset ≤ fromOffset' ∧
      (before.output ≠ [] → fromOffset < fromOffset') ∧
      (Settled before → (before.output = [] → fromOffset' = fromOffset) ∧
        loop.cryptor.position = resting before ∧
        loop.cryptor.pending fromOffset' = before.unread)

theorem loopSpec_of_waiting {before : Decoding} {fromOffset : ℕ} (decr : ℤ)
    (placed : cryptor.Placed aead key fromOffset)
    (drained : before = ⟨cryptor.position, cryptor.pending fromOffset, [], none⟩) :
    LoopSpec aead key before fromOffset decr ⟨[], .ok (some (fromOffset, decr)), cryptor⟩ where
  placed := placed.zero
  released := ⟨[], by simp [drained], by simp [drained, leaked]⟩
  throws forgery := by simp [drained, meetsForgery] at forgery
  rejects halted := by simp [drained] at halted
  returns _ _ := by
    refine ⟨fromOffset, by simp [drained], placed, Nat.le_refl _, by simp [drained], ?_⟩
    simp [drained, resting]

theorem decoding_of_end {fromOffset : ℕ} (placed : cryptor.Placed aead key fromOffset)
    (atEnd : cryptor.unprocessed.data.length ≤ fromOffset) :
    cryptor.decoding aead key fromOffset =
      ⟨cryptor.position, cryptor.pending fromOffset, [], none⟩ := by
  have inside := placed.inside
  have sizePos : 0 < Decoder.sizeBlock := by decide
  have forgotten : cryptor.lastBlockPayloadSize = 0 := by
    by_contra remembered
    rw [kept, if_neg remembered] at inside
    omega
  apply Reader.drain_of_more
  have nothing : (cryptor.pending fromOffset).length < Decoder.sizeBlock := by
    rw [pending, List.length_drop]
    omega
  simp only [position, forgotten, if_true, Decoder.reader, Decoder.look, nothing]

theorem loopSpec_of_stop {before : Decoding} {fromOffset : ℕ} {decr : ℤ}
    {blocks : List (List UInt8)} {result : Except Exception (Option (ℕ × ℤ))}
    (placed : cryptor.Placed aead key fromOffset) (nothing : before.output = [])
    (released : blocks.flatten.length = leaked aead key before)
    (stop : (meetsForgery aead key before = true ∧ before.halted ≠ some .rejected ∧
        ∃ exception, result = .error exception) ∨
      (meetsForgery aead key before = false ∧ before.halted = some .rejected ∧
        result = .ok none)) :
    LoopSpec aead key before fromOffset decr ⟨blocks, result, cryptor⟩ where
  placed := placed.zero
  released := ⟨blocks.flatten, by simp [nothing], released⟩
  throws forgery := by
    rcases stop with ⟨-, -, thrown⟩ | ⟨none, -, -⟩
    · exact thrown
    · simp [none] at forgery
  rejects halted := by
    rcases stop with ⟨-, other, -⟩ | ⟨-, -, returned⟩
    · exact absurd halted other
    · exact returned
  returns none other := by
    rcases stop with ⟨forgery, -, -⟩ | ⟨-, halted, -⟩
    · simp [none] at forgery
    · exact absurd halted other

/-- What a round decodes goes in front of what the rest of the loop does. -/
theorem LoopSpec.after {before : Decoding} {fromOffset fromOffset' : ℕ} {decr : ℤ}
    {blocks : List (List UInt8)} {plain : List UInt8} {loop : LoopEnd State}
    (spec : LoopSpec aead key before fromOffset' (decr + plain.length) loop)
    (nonempty : plain ≠ []) (later : fromOffset < fromOffset') (whole : blocks.flatten = plain) :
    LoopSpec aead key (before.after plain) fromOffset decr
      { loop with appended := blocks ++ loop.appended } where
  placed := spec.placed
  released := by
    rcases spec.released with ⟨leak, appended, length⟩
    exact ⟨leak, by simp [appended, whole], length⟩
  throws := spec.throws
  rejects := spec.rejects
  returns none other := by
    rcases spec.returns none other with ⟨final, result, placed, reached, -, settled⟩
    refine ⟨final, ?_, placed, by omega, fun _ => by omega, ?_⟩
    · rw [result]
      simp [Int.add_assoc]
    · intro still
      rcases settled still with ⟨-, position, pending⟩
      exact ⟨by simp [nonempty], position, pending⟩

/-- The loop of `decipher`, by induction on its rounds. -/
theorem decipherLoop_spec {fuel : ℕ} {cryptor : AeadDecryptor State} {fromOffset : ℕ} (decr : ℤ)
    (placed : cryptor.Placed aead key fromOffset)
    (entry : cryptor.lastBlockPayloadSize = 0 ∨ fromOffset = 0)
    (rounds : cryptor.unprocessed.data.length - fromOffset ≤ fuel) :
    LoopSpec aead key (cryptor.decoding aead key fromOffset) fromOffset decr
        (decipherLoop fuel cryptor fromOffset decr) ∧
      (decipherLoop fuel cryptor fromOffset decr).cryptor.unprocessed = cryptor.unprocessed := by
  induction fuel generalizing cryptor fromOffset decr with
  | zero => exact ⟨loopSpec_of_waiting decr placed (decoding_of_end placed (by omega)), rfl⟩
  | succ fuel ih =>
      by_cases more : fromOffset < cryptor.unprocessed.data.length
      · rcases decrypt_round placed entry with ⟨round, unprocessed, placed', inside⟩
        simp only [decipherLoop, SkipBuf.size_eq, more, if_true]
        generalize cryptor.decrypt fromOffset = d at round unprocessed placed' inside
        generalize cryptor.decoding aead key fromOffset = before at round
        cases round with
        | waiting drained => exact ⟨loopSpec_of_waiting decr placed' drained, unprocessed⟩
        | rejected drained =>
            refine ⟨loopSpec_of_stop placed' (by simp [drained]) (by simp [drained, leaked])
              (Or.inr ⟨by simp [drained, meetsForgery], by simp [drained], rfl⟩), unprocessed⟩
        | forged drained released =>
            refine ⟨loopSpec_of_stop placed' (by simp [drained])
              (by simpa [drained, leaked] using released)
              (Or.inl ⟨by simp [drained, meetsForgery], by simp [drained], _, rfl⟩), unprocessed⟩
        | emptyForged drained complete refused released =>
            refine ⟨loopSpec_of_stop placed' (by simp [drained])
              (by simp [drained, leaked, released]) (Or.inl ⟨?_, by simp [drained], _, rfl⟩),
              unprocessed⟩
            simp [drained, meetsForgery, complete, refused, Except.isOk, Except.toBool]
        | emptyWaiting drained incomplete position pending =>
            have quiet : meetsForgery aead key before = false := by
              simp [drained, meetsForgery]
              omega
            refine ⟨⟨placed'.zero, ⟨[], by simp [drained], by simp [drained, leaked]⟩,
              by simp [quiet], by simp [drained], ?_⟩, unprocessed⟩
            intro _ _
            refine ⟨_, by simp [drained], placed', Nat.le_refl _, by simp [drained], ?_⟩
            intro _
            exact ⟨fun _ => rfl, by simpa [drained, resting] using position,
              by simpa [drained] using pending⟩
        | emptyRead drained complete verified nothing forgotten =>
            have quiet : meetsForgery aead key before = false := by
              simp [drained, meetsForgery, verified, Except.isOk, Except.toBool]
            rename_i next nonce unread handled
            have read : ¬Settled before := by
              simp only [Settled, drained]
              simp
              omega
            have advanced : next.Placed aead key
                (fromOffset + Decoder.sizeBlock + aeadTagSize) := by
              refine ⟨placed'.mode, placed'.wellFormed, ?_⟩
              rw [kept, if_pos forgotten]
              rwa [← unprocessed] at inside
            refine ⟨⟨placed'.zero, ⟨[], by simp [drained, nothing], by simp [drained, leaked]⟩,
              by simp [quiet], by simp [drained], ?_⟩, unprocessed⟩
            intro _ _
            exact ⟨_, by simp [drained], advanced, by omega, by simp [drained],
              fun still => absurd still read⟩
        | frame nonempty later drained whole =>
            rename_i next plain fromOffset' handled
            have positive : 0 < plain.length := List.length_pos_iff.mpr nonempty
            have advanced : ({ next with lastBlockPayloadSize := 0 } :
                AeadDecryptor State).Placed aead key fromOffset' :=
              ⟨placed'.mode, placed'.wellFormed, by rw [← unprocessed] at inside; exact inside⟩
            rcases ih (decr + plain.length) advanced (Or.inl rfl)
              (by simp only at unprocessed ⊢; rw [unprocessed]; omega) with ⟨rest, restUnprocessed⟩
            simp only [show ¬((plain.length : ℤ) < 0) by omega,
              show ¬((plain.length : ℤ) = 0) by omega, if_false]
            rw [drained]
            exact ⟨rest.after nonempty later whole, restUnprocessed.trans unprocessed⟩
      · have stop : decipherLoop (fuel + 1) cryptor fromOffset decr =
            ⟨[], .ok (some (fromOffset, decr)), cryptor⟩ := by
          simp only [decipherLoop, SkipBuf.size_eq, more, if_false]
        rw [stop]
        exact ⟨loopSpec_of_waiting decr placed (decoding_of_end placed (by omega)), rfl⟩

variable (aead key) in
/-- The states a decryptor is in between two calls of `decipher`. -/
abbrev Ready (cryptor : AeadDecryptor State) : Prop := cryptor.Placed aead key 0

variable (aead key) in
/-- What the decoder makes of the bytes kept and those of one more call. -/
def decodingWith (cryptor : AeadDecryptor State) (cipher : List UInt8) : Decoding :=
  (Decoder.reader aead key).drain cryptor.position (cryptor.pending 0 ++ cipher)

variable (aead key) in
/-- What `decipher` does, by what the decoder makes of the bytes before it. -/
structure RunSpec (before : Decoding) (run : Deciphered State) : Prop where
  ready : run.cryptor.Ready aead key
  released : ∃ leak, run.appended.flatten = before.output ++ leak ∧
    leak.length = leaked aead key before
  throws : meetsForgery aead key before = true → ∃ exception, run.result = .error exception
  returns : meetsForgery aead key before = false → run.result =
    .ok (if before.halted = some .rejected then -1 else before.output.length)
  settles : Settled before → run.cryptor.position = resting before ∧
    run.cryptor.pending 0 = before.unread

theorem quiet_of_settled {before : Decoding} (settled : Settled before) :
    meetsForgery aead key before = false := by
  rcases settled with waiting | ⟨empty, incomplete⟩
  · simp [meetsForgery, waiting]
  · simp only [meetsForgery, empty]
    split <;> simp_all

theorem not_rejected_of_settled {before : Decoding} (settled : Settled before) :
    before.halted ≠ some .rejected := by
  rcases settled with waiting | ⟨empty, incomplete⟩
  · simp [waiting]
  · simp [empty]

theorem quiet_of_rejected {before : Decoding} (rejected : before.halted = some .rejected) :
    meetsForgery aead key before = false := by
  simp [meetsForgery, rejected]

/-- Dropping the decoded front changes neither position nor what is pending. -/
theorem forget_spec {final : ℕ} (placed : cryptor.Placed aead key final) {buffer : SkipBuf}
    (wellFormed : buffer.WellFormed) (data : buffer.data = cryptor.unprocessed.data.drop final) :
    ({ cryptor with unprocessed := buffer } : AeadDecryptor State).Ready aead key ∧
      ({ cryptor with unprocessed := buffer } : AeadDecryptor State).position =
        cryptor.position ∧
      ({ cryptor with unprocessed := buffer } : AeadDecryptor State).pending 0 =
        cryptor.pending final := by
  have inside := placed.inside
  refine ⟨⟨placed.mode, wellFormed, ?_⟩, rfl, ?_⟩
  · simp only [kept, data, List.length_drop] at inside ⊢
    omega
  · simp only [pending, kept, data, List.drop_drop, Nat.zero_add]

theorem afterLoop_spec {before : Decoding} {loop : LoopEnd State}
    (spec : LoopSpec aead key before 0 0 loop) : RunSpec aead key before (afterLoop loop) := by
  by_cases forgery : meetsForgery aead key before = true
  · rcases spec.throws forgery with ⟨exception, result⟩
    have run : afterLoop loop = ⟨loop.appended, .error exception, loop.cryptor⟩ := by
      simp only [afterLoop, result]
    rw [run]
    refine ⟨spec.placed, spec.released, fun _ => ⟨exception, rfl⟩, ?_, ?_⟩
    · intro quiet
      simp [quiet] at forgery
    · intro settled
      simp [quiet_of_settled settled] at forgery
  · have quiet : meetsForgery aead key before = false := by simpa using forgery
    by_cases rejected : before.halted = some .rejected
    · have run : afterLoop loop = ⟨loop.appended, .ok (-1), loop.cryptor⟩ := by
        simp only [afterLoop, spec.rejects rejected]
      rw [run]
      refine ⟨spec.placed, spec.released, fun thrown => absurd thrown forgery, ?_, ?_⟩
      · intro _
        simp [rejected]
      · intro settled
        exact absurd rejected (not_rejected_of_settled settled)
    · rcases spec.returns quiet rejected with ⟨final, result, placed, -, moved, settled⟩
      rw [Int.zero_add] at result
      by_cases decoded : before.output = []
      · have run : afterLoop loop = ⟨loop.appended, .ok 0, loop.cryptor⟩ := by
          simp [afterLoop, result, decoded]
        rw [run]
        refine ⟨spec.placed, spec.released, fun thrown => absurd thrown forgery, ?_, ?_⟩
        · intro _
          simp [rejected, decoded]
        · intro still
          rcases settled still with ⟨atStart, position, pending⟩
          rw [atStart decoded] at pending
          exact ⟨position, pending⟩
      · have positive : (0 : ℤ) < before.output.length := by
          have := List.length_pos_iff.mpr decoded
          omega
        have moved := moved decoded
        obtain ⟨buffer, run, wellFormed, data⟩ : ∃ buffer : SkipBuf,
            afterLoop loop = ⟨loop.appended, .ok before.output.length,
              { loop.cryptor with unprocessed := buffer }⟩ ∧ buffer.WellFormed ∧
            buffer.data = loop.cryptor.unprocessed.data.drop final := by
          have inside := placed.inside
          by_cases whole : final = loop.cryptor.unprocessed.data.length
          · refine ⟨loop.cryptor.unprocessed.clear, ?_, SkipBuf.wellFormed_clear _, ?_⟩
            · simp only [afterLoop, result, positive, if_true, SkipBuf.size_eq, whole]
            · rw [whole, SkipBuf.data_clear, List.drop_length]
          · have later : ¬(final = 0 ∧ aeadChunkSizeMask <
                loop.cryptor.unprocessed.data.length) := by omega
            refine ⟨loop.cryptor.unprocessed.erase final, ?_,
              SkipBuf.wellFormed_erase placed.wellFormed (by omega), SkipBuf.data_erase _ _⟩
            simp only [afterLoop, result, positive, if_true, SkipBuf.size_eq, whole, if_false,
              later]
        rcases forget_spec placed wellFormed data with ⟨ready, position, pending⟩
        rw [run]
        refine ⟨ready, spec.released, fun thrown => absurd thrown forgery, ?_, ?_⟩
        · intro _
          simp [rejected]
        · intro still
          rcases settled still with ⟨-, position', pending'⟩
          exact ⟨position.trans position', pending.trans pending'⟩

/-- `decipher` is the decoder on the bytes kept and those it is given. -/
theorem run_spec (ready : cryptor.Ready aead key) (cipher : List UInt8) :
    RunSpec aead key (cryptor.decodingWith aead key cipher) (cryptor.run cipher) := by
  rcases SkipBuf.append_spec ready.wellFormed cipher with ⟨wellFormed, data⟩
  have inside := ready.inside
  rw [Nat.zero_add] at inside
  have loaded : ({ cryptor with unprocessed := cryptor.unprocessed.append cipher } :
      AeadDecryptor State).Ready aead key := by
    refine ⟨ready.mode, wellFormed, ?_⟩
    simp only [kept, data, List.length_append] at inside ⊢
    omega
  have decoding : ({ cryptor with unprocessed := cryptor.unprocessed.append cipher } :
      AeadDecryptor State).decoding aead key 0 = cryptor.decodingWith aead key cipher := by
    have pending : ({ cryptor with unprocessed := cryptor.unprocessed.append cipher } :
        AeadDecryptor State).pending 0 = cryptor.pending 0 ++ cipher := by
      simp only [AeadDecryptor.pending, kept, data, Nat.zero_add] at inside ⊢
      rw [List.drop_append_of_le_length inside]
    rw [AeadDecryptor.decoding, pending]
    rfl
  rcases decipherLoop_spec 0 loaded (Or.inr rfl) (Nat.le_refl _) with ⟨spec, -⟩
  rw [decoding] at spec
  rw [run, SkipBuf.size_eq]
  exact afterLoop_spec spec

end AeadDecryptor

/-- The receiver of a session that has just set its key up, on the stand-in for the ciphers. -/
def plainReceiver : AeadDecryptor Message :=
  { decryptor := .setup ((gcm fun _ => .plain).decryption []) 12 }

theorem plainReceiver_ready : plainReceiver.Ready (gcm fun _ => .plain) [] :=
  ⟨rfl, SkipBuf.wellFormed_empty, Nat.le_refl _⟩

theorem plainReceiver_waiting : (Decoder.reader (gcm fun _ => .plain) []).look
    plainReceiver.position (plainReceiver.pending 0) = .more :=
  rfl

end Imconee.Shadowsocks
