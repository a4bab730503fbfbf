import Imconee.Botan.Aead
import Imconee.Shadowsocks.Frames
import Mathlib.Data.List.Induction

/-!
# Segmentation

Two ways of cutting one stream into calls of `decipher`. The decoder itself cannot tell
them apart; `decipher` can, because it takes an announcement of an empty payload for a lack
of bytes: it drops the announcement but not its block, and opens the block once more under
the next nonce when it is called again.
-/

set_option autoImplicit false

namespace Imconee.Shadowsocks

open Imconee.Lib Imconee.Botan Imconee.Tools

variable {State : Type} {aead : Aead State} {key : List UInt8}

/-- How a run of `decipher` calls ends. -/
inductive FeedEnd where
  | running
  | failed
  | threw
  deriving DecidableEq

/-- What a run of `decipher` calls leaves. -/
structure Fed (State : Type) where
  plain : Outbuffer
  ending : FeedEnd
  cryptor : AeadDecryptor State

/-- Calls of `decipher` on one segment after the other, up to the first that fails. -/
def feed : AeadDecryptor State → Outbuffer → List (List UInt8) → Fed State
  | cryptor, plain, [] => ⟨plain, .running, cryptor⟩
  | cryptor, plain, segment :: segments =>
      match cryptor.decipher plain segment with
      | (.error _, plain, cryptor) => ⟨plain, .threw, cryptor⟩
      | (.ok count, plain, cryptor) =>
          if count < 0 then ⟨plain, .failed, cryptor⟩ else feed cryptor plain segments

/-- Two ways of cutting a stream that `decipher` does not tell apart. -/
def SameOutcome (cryptor : AeadDecryptor State) (plain : Outbuffer)
    (left right : List (List UInt8)) : Prop :=
  (feed cryptor plain left).plain.content = (feed cryptor plain right).plain.content ∧
    ((feed cryptor plain left).ending = .failed ↔ (feed cryptor plain right).ending = .failed)

variable (aead key) in
/-- Bytes that go on with a stream of frames where the decryptor stands. -/
def Produced (cryptor : AeadDecryptor State) (stream : List UInt8) : Prop :=
  ∃ payloads : List (List UInt8), (∀ payload ∈ payloads, payload.length ≤ aeadChunkSizeMask) ∧
    match cryptor.position with
    | .size nonce => cryptor.pending 0 ++ stream <+: frames aead key nonce payloads
    | .payload nonce length => ∃ payload : List UInt8, payload.length = length ∧
        cryptor.pending 0 ++ stream <+:
          aead.sealed key nonce payload ++ frames aead key (nonceIncrement nonce) payloads

variable (aead key) in
/-- Nothing is left to decode. -/
def Waiting (cryptor : AeadDecryptor State) : Prop :=
  (Decoder.reader aead key).look cryptor.position (cryptor.pending 0) = .more

variable (aead key) in
/-- Where a decoding has halted on the announcement of an empty payload, the block of the
announcement does not verify under the following nonce as well. -/
def OpensOnce (decoding : Decoding) : Prop :=
  ∀ nonce other, decoding.halted = some .empty → decoding.state = .size nonce →
    aead.opened key (nonceIncrement nonce) (decoding.unread.take Decoder.sizeBlock) ≠ .ok other

/-- A decoding that no tampering shows up in. -/
def Authentic (aead : Aead State) (key : List UInt8) (decoding : Decoding) : Prop :=
  decoding.halted = none ∨
    decoding.halted = some .empty ∧ AeadDecryptor.meetsForgery aead key decoding = false

theorem authentic_payload {payloads : List (List UInt8)} {nonce payload buffered : List UInt8}
    (rest : ∀ {later : List UInt8}, later <+: frames aead key (nonceIncrement nonce) payloads →
      Authentic aead key ((Decoder.reader aead key).drain (.size (nonceIncrement nonce)) later))
    (isPrefix : buffered <+:
      aead.sealed key nonce payload ++ frames aead key (nonceIncrement nonce) payloads) :
    Authentic aead key
      ((Decoder.reader aead key).drain (.payload nonce payload.length) buffered) := by
  rcases prefix_append_cases isPrefix with short | ⟨later, rfl, laterPrefix⟩
  · rw [aead.length_sealed] at short
    refine Or.inl ?_
    rw [Reader.drain_of_more (by simp only [Decoder.reader, Decoder.look, short, if_true])]
  · rw [Reader.drain_of_take (look_payload aead key nonce payload later),
      List.drop_left' (aead.length_sealed _ _ _)]
    exact rest laterPrefix

/-- The block of an empty payload verifies, if it is there. -/
theorem quiet_of_empty {nonce size later rest : List UInt8}
    (isPrefix : later <+: aead.sealed key (nonceIncrement nonce) [] ++ rest)
    (length : size.length = Decoder.sizeBlock) :
    AeadDecryptor.meetsForgery aead key
      ⟨.size nonce, size ++ later, [], some .empty⟩ = false := by
  have sealedLength := aead.length_sealed key (nonceIncrement nonce) []
  rcases prefix_append_cases isPrefix with short | ⟨behind, rfl, -⟩
  · have incomplete : ¬Decoder.sizeBlock + aeadTagSize ≤ (size ++ later).length := by
      rw [List.length_append]
      simp only [List.length_nil] at sealedLength
      omega
    simp only [AeadDecryptor.meetsForgery, incomplete, decide_false, Bool.false_and]
  · have block : ((size ++ (aead.sealed key (nonceIncrement nonce) [] ++ behind)).drop
        Decoder.sizeBlock).take aeadTagSize = aead.sealed key (nonceIncrement nonce) [] := by
      rw [List.drop_left' length, List.take_left' (by simpa using sealedLength)]
    simp [AeadDecryptor.meetsForgery, block, aead.opened_sealed, Except.isOk, Except.toBool]

/-- A prefix of some frames decodes, until it announces an empty payload. -/
theorem authentic_frames {payloads : List (List UInt8)}
    (small : ∀ payload ∈ payloads, payload.length ≤ aeadChunkSizeMask) {nonce buffered : List UInt8}
    (isPrefix : buffered <+: frames aead key nonce payloads) :
    Authentic aead key ((Decoder.reader aead key).drain (.size nonce) buffered) := by
  induction payloads generalizing nonce buffered with
  | nil =>
      rw [frames, List.prefix_nil] at isPrefix
      rw [isPrefix]
      refine Or.inl ?_
      rw [Reader.drain_of_more (by simp [Decoder.reader, Decoder.look, Decoder.sizeBlock])]
  | cons payload payloads ih =>
      have small' : ∀ other ∈ payloads, other.length ≤ aeadChunkSizeMask :=
        fun other member => small other (List.mem_cons_of_mem _ member)
      rw [frames] at isPrefix
      rcases prefix_append_cases isPrefix with short | ⟨later, rfl, laterPrefix⟩
      · rw [length_sealed_toNe] at short
        refine Or.inl ?_
        rw [Reader.drain_of_more (by simp only [Decoder.reader, Decoder.look, short, if_true])]
      · have verdict := look_size aead key (small payload List.mem_cons_self) nonce later
        by_cases zero : payload.length = 0
        · rw [if_pos zero] at verdict
          rw [Reader.drain_of_halt verdict]
          exact Or.inr ⟨rfl, quiet_of_empty (List.length_eq_zero_iff.mp zero ▸ laterPrefix)
            (length_sealed_toNe aead key nonce _)⟩
        · rw [if_neg zero] at verdict
          rw [Reader.drain_of_take verdict, List.drop_left' (length_sealed_toNe aead key _ _)]
          exact authentic_payload (ih small') laterPrefix

/-- What a session key produces decodes, until it announces an empty payload. -/
theorem Produced.authentic {cryptor : AeadDecryptor State} {stream : List UInt8}
    (produced : Produced aead key cryptor stream) :
    Authentic aead key (cryptor.decodingWith aead key stream) := by
  rcases produced with ⟨payloads, small, isPrefix⟩
  rw [AeadDecryptor.decodingWith]
  cases position : cryptor.position with
  | size nonce =>
      rw [position] at isPrefix
      exact authentic_frames small isPrefix
  | payload nonce length =>
      rw [position] at isPrefix
      rcases isPrefix with ⟨payload, rfl, isPrefix⟩
      exact authentic_payload (authentic_frames small) isPrefix

namespace AeadDecryptor

variable {cryptor : AeadDecryptor State}

/-- The bytes that one call appends go behind those already there. -/
theorem decipher_content (cryptor : AeadDecryptor State) {plain : Outbuffer}
    (wellFormed : plain.WellFormed)
    (cipher : List UInt8) :
    (cryptor.decipher plain cipher).2.1.WellFormed ∧
      (cryptor.decipher plain cipher).2.1.content =
        plain.content ++ (cryptor.run cipher).appended.flatten :=
  foldl_append_spec wellFormed _

/-- A decryptor that stands where the decoder stopped goes on from there. -/
theorem decodingWith_resume {later : AeadDecryptor State} {first : List UInt8}
    (running : (cryptor.decodingWith aead key first).halted = none)
    (position : later.position = (cryptor.decodingWith aead key first).state)
    (pending : later.pending 0 = (cryptor.decodingWith aead key first).unread)
    (second : List UInt8) :
    cryptor.decodingWith aead key (first ++ second) =
      (later.decodingWith aead key second).after (cryptor.decodingWith aead key first).output := by
  simp only [decodingWith] at running position pending ⊢
  rw [← List.append_assoc, Reader.drain_append_of_running _ running, position, pending]

/-- A call that the decoder waits behind goes on where it left off. -/
theorem decodingWith_append (ready : cryptor.Ready aead key) {first : List UInt8}
    (running : (cryptor.decodingWith aead key first).halted = none) (second : List UInt8) :
    cryptor.decodingWith aead key (first ++ second) =
      ((cryptor.run first).cryptor.decodingWith aead key second).after
        (cryptor.decodingWith aead key first).output := by
  rcases (run_spec ready first).settles (Or.inl running) with ⟨position, pending⟩
  rw [resting, running] at position
  exact decodingWith_resume running position pending second

theorem waiting_run (ready : cryptor.Ready aead key) {cipher : List UInt8}
    (running : (cryptor.decodingWith aead key cipher).halted = none) :
    Waiting aead key (cryptor.run cipher).cryptor := by
  rcases (run_spec ready cipher).settles (Or.inl running) with ⟨position, pending⟩
  have still := Reader.look_drain_of_not_halted running
  rw [Waiting, position, pending, resting, running]
  exact still

theorem halted_append {first : List UInt8} {refusal : Refusal}
    (halted : (cryptor.decodingWith aead key first).halted = some refusal) (second : List UInt8) :
    (cryptor.decodingWith aead key (first ++ second)).halted = some refusal := by
  rw [decodingWith, ← List.append_assoc, Reader.drain_append_of_halted _ halted]
  exact halted

theorem run_of_authentic (ready : cryptor.Ready aead key) {cipher : List UInt8}
    (authentic : Authentic aead key (cryptor.decodingWith aead key cipher)) :
    (cryptor.run cipher).result = .ok (cryptor.decodingWith aead key cipher).output.length ∧
      (cryptor.run cipher).appended.flatten = (cryptor.decodingWith aead key cipher).output := by
  have spec := run_spec ready cipher
  rcases spec.released with ⟨leak, appended, length⟩
  have facts : meetsForgery aead key (cryptor.decodingWith aead key cipher) = false ∧
      (cryptor.decodingWith aead key cipher).halted ≠ some .rejected ∧
      leaked aead key (cryptor.decodingWith aead key cipher) = 0 := by
    rcases authentic with waiting | ⟨empty, quiet⟩
    · exact ⟨quiet_of_settled (Or.inl waiting), by simp [waiting], by simp [leaked, waiting]⟩
    · exact ⟨quiet, by simp [empty], by simp [leaked, empty]⟩
  rcases facts with ⟨quiet, accepted, nothing⟩
  refine ⟨by rw [spec.returns quiet, if_neg accepted], ?_⟩
  rw [appended, List.length_eq_zero_iff.mp (length.trans nothing), List.append_nil]

end AeadDecryptor

/-- One call on bytes that no tampering shows up in, as the first of a run. -/
theorem feed_cons {cryptor : AeadDecryptor State} (plain : Outbuffer)
    (ready : cryptor.Ready aead key) {segment : List UInt8} (segments : List (List UInt8))
    (authentic : Authentic aead key (cryptor.decodingWith aead key segment)) :
    feed cryptor plain (segment :: segments) =
      feed (cryptor.run segment).cryptor (cryptor.decipher plain segment).2.1 segments := by
  rcases AeadDecryptor.run_of_authentic ready authentic with ⟨result, -⟩
  have call : cryptor.decipher plain segment =
      (.ok (cryptor.decodingWith aead key segment).output.length,
        (cryptor.decipher plain segment).2.1, (cryptor.run segment).cryptor) := by
    rw [← result]
    rfl
  rw [feed, call]
  simp only [show ¬(((cryptor.decodingWith aead key segment).output.length : ℤ) < 0) by omega,
    if_false]

theorem feed_append {cryptor : AeadDecryptor State} {plain : Outbuffer}
    {first : List (List UInt8)} (second : List (List UInt8))
    (running : (feed cryptor plain first).ending = .running) :
    feed cryptor plain (first ++ second) =
      feed (feed cryptor plain first).cryptor (feed cryptor plain first).plain second := by
  induction first generalizing cryptor plain with
  | nil => rfl
  | cons segment first ih =>
      rw [List.cons_append]
      simp only [feed] at running ⊢
      split at running
      · cases running
      · split at running
        · cases running
        · rename_i accepted
          simp only [accepted, if_false]
          exact ih running

/-- Calls that the decoder waits behind append what it makes of all the segments. -/
theorem feed_of_running {cryptor : AeadDecryptor State} {plain : Outbuffer}
    (ready : cryptor.Ready aead key) (waiting : Waiting aead key cryptor)
    (wellFormed : plain.WellFormed) {segments : List (List UInt8)}
    (running : (cryptor.decodingWith aead key segments.flatten).halted = none) :
    let fed := feed cryptor plain segments
    let decoding := cryptor.decodingWith aead key segments.flatten
    fed.ending = .running ∧ fed.plain.WellFormed ∧
      fed.plain.content = plain.content ++ decoding.output ∧
      fed.cryptor.Ready aead key ∧ fed.cryptor.position = decoding.state ∧
      fed.cryptor.pending 0 = decoding.unread := by
  induction segments generalizing cryptor plain with
  | nil =>
      have nothing : cryptor.decodingWith aead key [] =
          ⟨cryptor.position, cryptor.pending 0, [], none⟩ := by
        rw [AeadDecryptor.decodingWith, List.append_nil, Reader.drain_of_more waiting]
      simp [feed, nothing, wellFormed, ready]
  | cons segment segments ih =>
      rw [List.flatten_cons] at running ⊢
      have first : (cryptor.decodingWith aead key segment).halted = none := by
        cases halted : (cryptor.decodingWith aead key segment).halted with
        | none => rfl
        | some refusal =>
            rw [AeadDecryptor.halted_append halted] at running
            cases running
      have split := AeadDecryptor.decodingWith_append ready first segments.flatten
      rw [split] at running ⊢
      rcases AeadDecryptor.run_of_authentic ready (Or.inl first) with ⟨-, appended⟩
      rcases AeadDecryptor.decipher_content cryptor wellFormed segment with ⟨wellFormed', content⟩
      rcases ih (AeadDecryptor.run_spec ready segment).ready (AeadDecryptor.waiting_run ready first)
        wellFormed' running with ⟨ending, kept, output, ready', position, pending⟩
      rw [feed_cons plain ready segments (Or.inl first)]
      exact ⟨ending, kept, by rw [output, content, appended]; simp, ready', position, pending⟩

/-- Calls on non-empty segments none of which but the last announces an empty payload
append what the decoder makes of all of them, without an error. -/
theorem feed_of_authentic {cryptor : AeadDecryptor State} {plain : Outbuffer}
    (ready : cryptor.Ready aead key) (waiting : Waiting aead key cryptor)
    (wellFormed : plain.WellFormed) {segments : List (List UInt8)} (nonempty : [] ∉ segments)
    (authentic : Authentic aead key (cryptor.decodingWith aead key segments.flatten))
    (unannounced : ∀ front back, segments.flatten = front ++ back → back ≠ [] →
      (cryptor.decodingWith aead key front).halted ≠ some .empty) :
    (feed cryptor plain segments).plain.content =
        plain.content ++ (cryptor.decodingWith aead key segments.flatten).output ∧
      (feed cryptor plain segments).ending = .running := by
  rcases List.eq_nil_or_concat segments with rfl | ⟨first, last, rfl⟩
  · have running : (cryptor.decodingWith aead key ([] : List (List UInt8)).flatten).halted =
        none := by
      rw [AeadDecryptor.decodingWith, List.flatten_nil, List.append_nil,
        Reader.drain_of_more waiting]
    rcases feed_of_running ready waiting wellFormed running with ⟨ending, -, output, -⟩
    exact ⟨output, ending⟩
  · rw [List.concat_eq_append] at nonempty authentic unannounced ⊢
    have more : last ≠ [] := by
      rintro rfl
      simp at nonempty
    have whole : (first ++ [last]).flatten = first.flatten ++ last := by simp
    rw [whole] at authentic unannounced ⊢
    have running : (cryptor.decodingWith aead key first.flatten).halted = none := by
      cases halted : (cryptor.decodingWith aead key first.flatten).halted with
      | none => rfl
      | some refusal =>
          have total := AeadDecryptor.halted_append halted last
          rcases authentic with waiting' | ⟨empty, -⟩
          · simp [waiting'] at total
          · rw [empty, Option.some.injEq] at total
            exact absurd (halted.trans (by rw [total])) (unannounced _ last rfl more)
    rcases feed_of_running ready waiting wellFormed running with
      ⟨ending, wellFormed', output, ready', position, pending⟩
    have split := AeadDecryptor.decodingWith_resume running position pending last
    rw [split] at authentic ⊢
    rcases AeadDecryptor.run_of_authentic ready' authentic with ⟨-, appended⟩
    rcases AeadDecryptor.decipher_content (feed cryptor plain first).cryptor wellFormed' last with
      ⟨-, content⟩
    rw [feed_append [last] ending, feed_cons _ ready' [] authentic]
    exact ⟨by simp [feed, content, appended, output], rfl⟩

/-- Where the decoder halts on the announcement of an empty payload. -/
theorem drain_empty {decoder : Decoder} {buffered : List UInt8}
    (empty : ((Decoder.reader aead key).drain decoder buffered).halted = some .empty) :
    ∃ nonce announced, ((Decoder.reader aead key).drain decoder buffered).state = .size nonce ∧
      (decoder.nonce ≠ [] → nonce ≠ []) ∧
      Decoder.sizeBlock ≤ ((Decoder.reader aead key).drain decoder buffered).unread.length ∧
      aead.opened key nonce (((Decoder.reader aead key).drain decoder buffered).unread.take
        Decoder.sizeBlock) = .ok announced := by
  induction decoder, buffered using Reader.drain_induction (Decoder.reader aead key) with
  | more decoder buffered verdict => simp [Reader.drain_of_more verdict] at empty
  | halt decoder buffered refusal verdict =>
      rw [Reader.drain_of_halt verdict, Option.some.injEq] at empty
      rw [Reader.drain_of_halt verdict]
      subst empty
      cases decoder with
      | size nonce =>
          simp only [Decoder.reader, Decoder.look] at verdict
          split at verdict
          · cases verdict
          · rename_i enough
            split at verdict
            · cases verdict
            · rename_i announced opened
              exact ⟨nonce, announced, rfl, id, by simp only; omega, opened⟩
      | payload nonce length =>
          simp only [Decoder.reader, Decoder.look] at verdict
          repeat' split at verdict
          all_goals cases verdict
  | take decoder buffered consumed next output verdict ih =>
      rw [Reader.drain_of_take verdict] at empty ⊢
      rcases ih empty with ⟨nonce, announced, state, nonempty, rest⟩
      refine ⟨nonce, announced, state, fun counts => nonempty ?_, rest⟩
      rw [(Decoder.look_take aead key verdict).2, ← List.length_pos_iff, length_nonceIncrement]
      exact List.length_pos_iff.mpr counts

/-- One byte behind a waiting decoder completes a block or nothing. -/
theorem length_of_announced {decoder : Decoder} {buffered : List UInt8} {byte : UInt8}
    (waiting : (Decoder.reader aead key).look decoder buffered = .more)
    (empty : ((Decoder.reader aead key).drain decoder (buffered ++ [byte])).halted =
      some .empty) :
    ((Decoder.reader aead key).drain decoder (buffered ++ [byte])).unread.length =
      Decoder.sizeBlock := by
  have short := (Decoder.look_eq_more_iff aead key).mp waiting
  cases verdict : (Decoder.reader aead key).look decoder (buffered ++ [byte]) with
  | more => simp [Reader.drain_of_more verdict] at empty
  | halt refusal =>
      have decided : ¬(buffered ++ [byte]).length < decoder.blockLength := by
        rw [← Decoder.look_eq_more_iff aead key]
        intro more
        rw [show (Decoder.reader aead key).look decoder (buffered ++ [byte]) = .more from more]
          at verdict
        cases verdict
      rw [List.length_append, List.length_singleton] at decided
      rw [Reader.drain_of_halt verdict, Option.some.injEq] at empty
      rw [Reader.drain_of_halt verdict, List.length_append, List.length_singleton]
      subst empty
      cases decoder with
      | size nonce =>
          simp only [Decoder.blockLength] at short decided
          omega
      | payload nonce length =>
          simp only [Decoder.reader, Decoder.look] at verdict
          repeat' split at verdict
          all_goals cases verdict
  | take consumed next output =>
      rcases Decoder.look_take aead key verdict with ⟨block, -⟩
      have bounds := (Decoder.reader aead key).take_bounds verdict
      rw [List.length_append, List.length_singleton] at bounds
      have rest : (buffered ++ [byte]).drop consumed = [] := by
        rw [List.drop_eq_nil_iff, List.length_append, List.length_singleton]
        omega
      have waiting' : (Decoder.reader aead key).look next [] = .more :=
        (Decoder.look_eq_more_iff aead key).mpr (Decoder.blockLength_pos next)
      rw [Reader.drain_of_take verdict, rest, Reader.drain_of_more waiting'] at empty
      simp at empty

/-- The first bytes that announce an empty payload end with the announcement. -/
theorem exists_announcement {cryptor : AeadDecryptor State} (ready : cryptor.Ready aead key)
    (waiting : Waiting aead key cryptor) {front : List UInt8}
    (empty : (cryptor.decodingWith aead key front).halted = some .empty) :
    ∃ first second, front = first ++ second ∧ first ≠ [] ∧
      (cryptor.decodingWith aead key first).halted = some .empty ∧
      (cryptor.decodingWith aead key first).unread.length = Decoder.sizeBlock := by
  have nothing : (cryptor.decodingWith aead key []).halted = none := by
    rw [AeadDecryptor.decodingWith, List.append_nil, Reader.drain_of_more waiting]
  induction front using List.reverseRecOn with
  | nil => simp [nothing] at empty
  | append_singleton front byte ih =>
      cases halted : (cryptor.decodingWith aead key front).halted with
      | some refusal =>
          have total := AeadDecryptor.halted_append halted [byte]
          rw [empty, Option.some.injEq] at total
          rcases ih (halted.trans (by rw [total])) with ⟨first, second, whole, rest⟩
          exact ⟨first, second ++ [byte], by rw [whole, List.append_assoc], rest⟩
      | none =>
          refine ⟨front ++ [byte], [], by simp, by simp, empty, ?_⟩
          have split := AeadDecryptor.decodingWith_append ready halted [byte]
          rw [split] at empty ⊢
          exact length_of_announced (AeadDecryptor.waiting_run ready halted) empty

/-- Behind the announcement of an empty payload, further bytes are an error. -/
theorem run_after_announcement {cryptor : AeadDecryptor State} (ready : cryptor.Ready aead key)
    {first : List UInt8}
    (once : OpensOnce aead key (cryptor.decodingWith aead key first))
    (empty : (cryptor.decodingWith aead key first).halted = some .empty)
    (length : (cryptor.decodingWith aead key first).unread.length = Decoder.sizeBlock)
    (second : List UInt8) :
    ((cryptor.run first).cryptor.run second).result = .ok (-1) := by
  have spec := AeadDecryptor.run_spec ready first
  have tagPos : 0 < aeadTagSize := by decide
  rcases spec.settles (Or.inr ⟨empty, by omega⟩) with ⟨position, pending⟩
  rcases drain_empty empty with ⟨nonce, announced, state, -, enough, -⟩
  rw [← AeadDecryptor.decodingWith] at state enough
  rw [AeadDecryptor.resting, empty, state] at position
  have verdict : (Decoder.reader aead key).look (cryptor.run first).cryptor.position
      ((cryptor.run first).cryptor.pending 0 ++ second) = .halt .rejected := by
    rw [position, pending]
    have enough' : ¬((cryptor.decodingWith aead key first).unread ++ second).length <
        Decoder.sizeBlock := by
      rw [List.length_append]
      omega
    simp only [Decoder.reader, Decoder.look, enough', if_false]
    rw [List.take_append_of_le_length enough]
    cases again : aead.opened key (nonceIncrement nonce)
        ((cryptor.decodingWith aead key first).unread.take Decoder.sizeBlock) with
    | error exception => rfl
    | ok other => exact absurd again (once nonce other empty state)
  have rejected : ((cryptor.run first).cryptor.decodingWith aead key second).halted =
      some .rejected := by
    rw [AeadDecryptor.decodingWith, Reader.drain_of_halt verdict]
  rw [(AeadDecryptor.run_spec spec.ready second).returns (AeadDecryptor.quiet_of_rejected rejected),
    if_pos rejected]

/-- The stream in one piece: no error, unless it is tampered with. -/
theorem feed_whole {cryptor : AeadDecryptor State} (plain : Outbuffer)
    (ready : cryptor.Ready aead key) {stream : List UInt8}
    (authentic : Authentic aead key (cryptor.decodingWith aead key stream)) :
    (feed cryptor plain [stream]).ending = .running := by
  rw [feed_cons plain ready [] authentic]
  rfl

/-- The stream in two pieces, cut behind the announcement of an empty payload: an error. -/
theorem feed_cut {cryptor : AeadDecryptor State} (plain : Outbuffer)
    (ready : cryptor.Ready aead key) {first : List UInt8}
    (once : OpensOnce aead key (cryptor.decodingWith aead key first))
    (empty : (cryptor.decodingWith aead key first).halted = some .empty)
    (length : (cryptor.decodingWith aead key first).unread.length = Decoder.sizeBlock)
    (second : List UInt8) : (feed cryptor plain [first, second]).ending = .failed := by
  have tagPos : 0 < aeadTagSize := by decide
  have authentic : Authentic aead key (cryptor.decodingWith aead key first) :=
    Or.inr ⟨empty, AeadDecryptor.quiet_of_settled (Or.inr ⟨empty, by omega⟩)⟩
  have again := run_after_announcement ready once empty length second
  have decipheredAgain :
      (cryptor.run first).cryptor.decipher (cryptor.decipher plain first).2.1 second =
        (.ok (-1),
          ((cryptor.run first).cryptor.decipher (cryptor.decipher plain first).2.1 second).2.1,
          ((cryptor.run first).cryptor.run second).cryptor) := by
    rw [← again]
    rfl
  rw [feed_cons plain ready [second] authentic, feed, decipheredAgain]
  rfl

/-- `decipher` is independent of segmentation as long as no announcement of an empty payload
is complete before the last byte, and only then, where no 18 bytes of the stream that announce
one under a nonce verify under the following nonce as well. -/
theorem sameOutcome_iff {cryptor : AeadDecryptor State} {plain : Outbuffer} {stream : List UInt8}
    (ready : cryptor.Ready aead key) (waiting : Waiting aead key cryptor)
    (wellFormed : plain.WellFormed) (produced : Produced aead key cryptor stream) :
    let independent := ∀ left right : List (List UInt8), left.flatten = stream → [] ∉ left →
      right.flatten = stream → [] ∉ right → SameOutcome cryptor plain left right
    let unannounced := ∀ front back, stream = front ++ back → back ≠ [] →
      (cryptor.decodingWith aead key front).halted ≠ some .empty
    (unannounced → independent) ∧
      ((∀ front back, stream = front ++ back →
        OpensOnce aead key (cryptor.decodingWith aead key front)) → independent → unannounced) := by
  constructor
  · intro unannounced left right leftWhole leftCut rightWhole rightCut
    have leftRun := feed_of_authentic ready waiting wellFormed leftCut
      (leftWhole ▸ produced.authentic) (leftWhole ▸ unannounced)
    have rightRun := feed_of_authentic ready waiting wellFormed rightCut
      (rightWhole ▸ produced.authentic) (rightWhole ▸ unannounced)
    refine ⟨?_, ?_⟩
    · rw [leftRun.1, rightRun.1, leftWhole, rightWhole]
    · rw [leftRun.2, rightRun.2]
  · intro once independent front back whole behind empty
    rcases exists_announcement ready waiting empty with
      ⟨first, second, rfl, nonempty, announced, length⟩
    rw [List.append_assoc] at whole
    have rest : second ++ back ≠ [] := by simp [behind]
    have same := independent [stream] [first, second ++ back] (by simp) (by simp [whole, nonempty])
      (by simp [whole]) (by simp [behind, nonempty])
    have failed := feed_cut plain ready (once first _ whole) announced length (second ++ back)
    have running := feed_whole plain ready produced.authentic
    have impossible := same.2.mpr failed
    rw [running] at impossible
    cases impossible

theorem nonceIncrement_cons (byte : UInt8) (n : List UInt8) :
    ∃ next rest, nonceIncrement (byte :: n) = next :: rest ∧ next ≠ byte := by
  refine ⟨_, _, rfl, ?_⟩
  intro same
  have low := congrArg UInt8.toNat same
  have bound := byte.toNat_lt
  simp only [UInt8.toNat_ofNat'] at low
  omega

/-- Under the nonce for a tag no block verifies twice. -/
theorem opened_twice_plain {key nonce block plain other : List UInt8} (nonempty : nonce ≠ [])
    (opened : (gcm fun _ => .plain).opened key nonce block = .ok plain) :
    (gcm fun _ => .plain).opened key (nonceIncrement nonce) block ≠ .ok other := by
  intro again
  rcases List.exists_cons_of_ne_nil nonempty with ⟨byte, n, rfl⟩
  rcases nonceIncrement_cons byte n with ⟨next, rest, increment, different⟩
  have tags : ∀ {nonce plain : List UInt8}, (gcm fun _ => .plain).opened key nonce block =
      .ok plain → (nonce ++ List.replicate aeadTagSize 0).take aeadTagSize =
        block.drop (block.length - aeadTagSize) := by
    intro nonce plain opened
    simp only [gcm, Aead.ofPrimitives, Primitives.opened, Primitives.plain] at opened
    repeat' split at opened
    all_goals cases opened
    assumption
  have same := (tags opened).trans (tags again).symm
  rw [increment] at same
  simp only [aeadTagSize, List.cons_append, List.take_succ_cons, List.cons.injEq] at same
  exact different same.1.symm

theorem opensOnce_plain {cryptor : AeadDecryptor Message} {key : List UInt8}
    (counts : cryptor.decryptor.iv ≠ []) (front : List UInt8) :
    OpensOnce (gcm fun _ => .plain) key
      (cryptor.decodingWith (gcm fun _ => .plain) key front) := by
  intro nonce other empty state
  have counts' : cryptor.position.nonce ≠ [] := by
    rw [AeadDecryptor.position]
    split <;> exact counts
  rcases drain_empty empty with ⟨nonce', announced, state', nonempty, -, opened⟩
  rw [← AeadDecryptor.decodingWith] at state' opened
  rw [state, Decoder.size.injEq] at state'
  subst state'
  exact opened_twice_plain (nonempty counts') opened

theorem produced_plain (payloads : List (List UInt8))
    (small : ∀ payload ∈ payloads, payload.length ≤ aeadChunkSizeMask) :
    Produced (gcm fun _ => .plain) [] plainReceiver
      (frames (gcm fun _ => .plain) [] (List.replicate 12 0) payloads) :=
  ⟨payloads, small, List.prefix_rfl⟩

theorem sameOutcome_iff_plain :
    (∀ left right : List (List UInt8),
        left.flatten = frames (gcm fun _ => .plain) [] (List.replicate 12 0) [[1, 2], []] →
        [] ∉ left →
        right.flatten = frames (gcm fun _ => .plain) [] (List.replicate 12 0) [[1, 2], []] →
        [] ∉ right → SameOutcome plainReceiver {} left right) ↔
      ∀ front back,
        frames (gcm fun _ => .plain) [] (List.replicate 12 0) [[1, 2], []] = front ++ back →
        back ≠ [] → (plainReceiver.decodingWith (gcm fun _ => .plain) [] front).halted ≠
          some .empty := by
  have empty : ({} : Outbuffer).WellFormed := by simp
  rcases sameOutcome_iff plainReceiver_ready plainReceiver_waiting empty
    (produced_plain [[1, 2], []] (by decide)) with ⟨enough, exact⟩
  constructor
  · apply exact
    intro front _ _
    exact opensOnce_plain (by decide) front
  · exact enough

/-- An empty payload, which `encipher` produces for empty input: fed at once it is decoded,
fed byte by byte it is an error. -/
theorem segmentation_of_empty_payload :
    Produced (gcm fun _ => .plain) [] plainReceiver
        (frames (gcm fun _ => .plain) [] (List.replicate 12 0) [[]]) ∧
      ¬SameOutcome plainReceiver {}
        [frames (gcm fun _ => .plain) [] (List.replicate 12 0) [[]]]
        ((frames (gcm fun _ => .plain) [] (List.replicate 12 0) [[]]).map fun byte => [byte]) := by
  refine ⟨produced_plain [[]] (by decide), fun same => ?_⟩
  have failed := same.2
  revert failed
  decide

end Imconee.Shadowsocks
