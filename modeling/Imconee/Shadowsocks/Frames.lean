import Imconee.Shadowsocks.Decoder

/-!
# Frames

The stream a session key produces, as a list of payloads: `encipher` cuts its input into
payloads and appends their frames, and the decoder gets the payloads back from any frames
whose payloads are not empty.
-/

set_option autoImplicit false

namespace Imconee.Shadowsocks

open Imconee.Lib Imconee.Botan

variable {State : Type}

section

variable (aead : Aead State) (key : List UInt8)

/-- The frames of some payloads, from a nonce on. -/
def frames : List UInt8 → List (List UInt8) → List UInt8
  | _, [] => []
  | nonce, payload :: payloads =>
      aead.sealed key nonce (toNe payload.length) ++
        (aead.sealed key (nonceIncrement nonce) payload ++
          frames (nonceIncrement (nonceIncrement nonce)) payloads)

/-- The nonce behind the frames of some payloads. -/
def nonceAfter : List UInt8 → List (List UInt8) → List UInt8
  | nonce, [] => nonce
  | nonce, _ :: payloads => nonceAfter (nonceIncrement (nonceIncrement nonce)) payloads

theorem frames_append (nonce : List UInt8) (first second : List (List UInt8)) :
    frames aead key nonce (first ++ second) =
      frames aead key nonce first ++ frames aead key (nonceAfter nonce first) second := by
  induction first generalizing nonce with
  | nil => rfl
  | cons payload first ih => simp [frames, nonceAfter, ih]

theorem nonceAfter_append (nonce : List UInt8) (first second : List (List UInt8)) :
    nonceAfter nonce (first ++ second) = nonceAfter (nonceAfter nonce first) second := by
  induction first generalizing nonce with
  | nil => rfl
  | cons payload first ih => exact ih _

end

/-- The payloads that `encipher` cuts its input into. -/
def payloadsLoop : ℕ → List UInt8 → List (List UInt8)
  | 0, _ => []
  | fuel + 1, plain =>
      plain.take (frameLength plain) ::
        if frameLength plain < plain.length then payloadsLoop fuel (plain.drop (frameLength plain))
        else []

def payloadsOf (plain : List UInt8) : List (List UInt8) :=
  payloadsLoop (plain.length + 1) plain

theorem frameLength_le (plain : List UInt8) : frameLength plain ≤ plain.length := by
  rw [frameLength]
  split <;> omega

theorem frameLength_le_mask (plain : List UInt8) : frameLength plain ≤ aeadChunkSizeMask := by
  rw [frameLength]
  split <;> omega

theorem frameLength_pos {plain : List UInt8} (nonempty : plain ≠ []) : 0 < frameLength plain := by
  have positive := List.length_pos_iff.mpr nonempty
  have maskPos : 0 < aeadChunkSizeMask := by decide
  rw [frameLength]
  split <;> omega

theorem length_take_frameLength (plain : List UInt8) :
    (plain.take (frameLength plain)).length = frameLength plain := by
  rw [List.length_take, Nat.min_eq_left (frameLength_le plain)]

/-- What is left behind a frame is shorter, so the recursion of `encipher` ends. -/
theorem rounds_drop {plain : List UInt8} {fuel : ℕ} (rounds : plain.length ≤ fuel + 1)
    (more : frameLength plain < plain.length) : (plain.drop (frameLength plain)).length ≤ fuel := by
  have nonempty : plain ≠ [] := by
    intro nil
    simp [nil] at more
  have positive := frameLength_pos nonempty
  rw [List.length_drop]
  omega

theorem flatten_payloadsLoop {fuel : ℕ} {plain : List UInt8} (rounds : plain.length ≤ fuel) :
    (payloadsLoop fuel plain).flatten = plain := by
  induction fuel generalizing plain with
  | zero => rw [List.length_eq_zero_iff.mp (by omega : plain.length = 0), payloadsLoop]; rfl
  | succ fuel ih =>
      rw [payloadsLoop, List.flatten_cons]
      by_cases more : frameLength plain < plain.length
      · simp only [more, if_true]
        rw [ih (rounds_drop rounds more), List.take_append_drop]
      · simp only [more, if_false, List.flatten_nil, List.append_nil]
        exact List.take_of_length_le (by omega)

@[simp]
theorem flatten_payloadsOf (plain : List UInt8) : (payloadsOf plain).flatten = plain :=
  flatten_payloadsLoop (Nat.le_succ _)

theorem mem_payloadsLoop {fuel : ℕ} {plain payload : List UInt8}
    (member : payload ∈ payloadsLoop fuel plain) : payload.length ≤ aeadChunkSizeMask ∧
      (plain ≠ [] → payload ≠ []) := by
  induction fuel generalizing plain with
  | zero => simp [payloadsLoop] at member
  | succ fuel ih =>
      rw [payloadsLoop, List.mem_cons] at member
      rcases member with rfl | later
      · refine ⟨?_, fun nonempty => ?_⟩
        · rw [length_take_frameLength]
          exact frameLength_le_mask plain
        · rw [← List.length_pos_iff, length_take_frameLength]
          exact frameLength_pos nonempty
      · split at later
        · rename_i more
          rcases ih later with ⟨small, nonempty⟩
          refine ⟨small, fun _ => nonempty ?_⟩
          rw [← List.length_pos_iff, List.length_drop]
          omega
        · simp at later

theorem toHe_toNe {length : ℕ} (small : length ≤ aeadChunkSizeMask) :
    toHe [toNe length] = length := by
  have small : length ≤ 0x3FFF := small
  simp only [toHe, toNe, List.getLast?_singleton, UInt8.toNat_ofNat']
  omega

theorem encipherLoop_spec {aead : Aead State} {key : List UInt8} {fuel : ℕ}
    {encryptor : KeyedFilter State} (mode : encryptor.mode = aead.encryption key)
    (plain cipher : List UInt8) :
    (encipherLoop fuel encryptor plain cipher).cipher =
        cipher ++ frames aead key encryptor.iv (payloadsLoop fuel plain) ∧
      (∃ value, (encipherLoop fuel encryptor plain cipher).result = .ok value) ∧
      (encipherLoop fuel encryptor plain cipher).encryptor =
        { encryptor with iv := nonceAfter encryptor.iv (payloadsLoop fuel plain) } := by
  induction fuel generalizing encryptor plain cipher with
  | zero => exact ⟨by simp [encipherLoop, payloadsLoop, frames], ⟨0, rfl⟩, rfl⟩
  | succ fuel ih =>
      rcases CipherEnc.process_spec mode (toNe (frameLength plain)) with
        ⟨sizeSent, ⟨_, sizeResult⟩, sizeFilter⟩
      have mode' : encryptor.incnonce.mode = aead.encryption key := mode
      rcases CipherEnc.process_spec mode' (plain.take (frameLength plain)) with
        ⟨payloadSent, ⟨_, payloadResult⟩, payloadFilter⟩
      simp only [encipherLoop, sizeSent, sizeResult, sizeFilter, payloadSent, payloadResult,
        payloadFilter, payloadsLoop, frames, nonceAfter, length_take_frameLength]
      by_cases more : frameLength plain < plain.length
      · have mode'' : encryptor.incnonce.incnonce.mode = aead.encryption key := mode
        rcases ih mode'' (plain.drop (frameLength plain)) (cipher ++ aead.sealed key encryptor.iv
          (toNe (frameLength plain)) ++ aead.sealed key encryptor.incnonce.iv (plain.take
          (frameLength plain))) with ⟨output, ⟨value, result⟩, final⟩
        simp only [more, if_true]
        refine ⟨?_, ⟨frameLength plain, by rw [result]; rfl⟩, final⟩
        rw [output]
        simp [KeyedFilter.incnonce]
      · simp only [more, if_false]
        exact ⟨by simp [frames, KeyedFilter.incnonce], ⟨_, rfl⟩, rfl⟩

/-- `encipher` never fails and appends the frames of its payloads. -/
theorem encipher_spec {aead : Aead State} {key : List UInt8} {encryptor : KeyedFilter State}
    (mode : encryptor.mode = aead.encryption key) (plain cipher : List UInt8) :
    (encipher encryptor plain cipher).cipher =
        cipher ++ frames aead key encryptor.iv (payloadsOf plain) ∧
      (∃ value, (encipher encryptor plain cipher).result = .ok value) ∧
      (encipher encryptor plain cipher).encryptor =
        { encryptor with iv := nonceAfter encryptor.iv (payloadsOf plain) } :=
  encipherLoop_spec mode plain cipher

section

variable (aead : Aead State) (key : List UInt8)

theorem length_sealed_toNe (nonce : List UInt8) (length : ℕ) :
    (aead.sealed key nonce (toNe length)).length = Decoder.sizeBlock := by
  rw [aead.length_sealed]
  rfl

theorem frames_eq_nil {nonce : List UInt8} {payloads : List (List UInt8)}
    (nothing : frames aead key nonce payloads = []) : payloads = [] := by
  cases payloads with
  | nil => rfl
  | cons payload payloads =>
      have length := congrArg List.length nothing
      have sizePos : 0 < Decoder.sizeBlock := by decide
      rw [frames, List.length_append, length_sealed_toNe, List.length_nil] at length
      omega

theorem look_size {payload : List UInt8} (small : payload.length ≤ aeadChunkSizeMask)
    (nonce later : List UInt8) :
    (Decoder.reader aead key).look (.size nonce)
        (aead.sealed key nonce (toNe payload.length) ++ later) =
      if payload.length = 0 then .halt .empty
      else .take Decoder.sizeBlock (.payload (nonceIncrement nonce) payload.length) [] := by
  have length := length_sealed_toNe aead key nonce payload.length
  have enough : ¬(aead.sealed key nonce (toNe payload.length) ++ later).length <
      Decoder.sizeBlock := by
    rw [List.length_append]
    omega
  have small' : ¬aeadChunkSizeMask < payload.length := by omega
  simp only [Decoder.reader, Decoder.look, enough, if_false, List.take_left' length,
    aead.opened_sealed, toHe_toNe small, small']

theorem look_payload (nonce payload later : List UInt8) :
    (Decoder.reader aead key).look (.payload nonce payload.length)
        (aead.sealed key nonce payload ++ later) =
      .take (payload.length + aeadTagSize) (.size (nonceIncrement nonce)) payload := by
  have length := aead.length_sealed key nonce payload
  have enough : ¬(aead.sealed key nonce payload ++ later).length <
      payload.length + aeadTagSize := by
    rw [List.length_append]
    omega
  simp only [Decoder.reader, Decoder.look, enough, if_false, List.take_left' length,
    aead.opened_sealed]

/-- The decoder gets the payloads back, if none is empty. -/
theorem drain_frames {payloads : List (List UInt8)}
    (wellFormed : ∀ payload ∈ payloads, payload.length ≤ aeadChunkSizeMask ∧ payload ≠ [])
    (nonce later : List UInt8) :
    (Decoder.reader aead key).drain (.size nonce) (frames aead key nonce payloads ++ later) =
      ((Decoder.reader aead key).drain (.size (nonceAfter nonce payloads)) later).after
        payloads.flatten := by
  induction payloads generalizing nonce with
  | nil => simp [frames, nonceAfter]
  | cons payload payloads ih =>
      rcases wellFormed payload List.mem_cons_self with ⟨small, nonempty⟩
      have positive : ¬payload.length = 0 := by simpa using nonempty
      have ih := ih (fun other member => wellFormed other (List.mem_cons_of_mem _ member))
        (nonceIncrement (nonceIncrement nonce))
      have first := look_size aead key small nonce
        (aead.sealed key (nonceIncrement nonce) payload ++
          frames aead key (nonceIncrement (nonceIncrement nonce)) payloads ++ later)
      rw [if_neg positive] at first
      have second := look_payload aead key (nonceIncrement nonce) payload
        (frames aead key (nonceIncrement (nonceIncrement nonce)) payloads ++ later)
      rw [frames, List.append_assoc, Reader.drain_of_take (by simpa using first),
        List.drop_left' (length_sealed_toNe aead key nonce _), List.append_assoc,
        Reader.drain_of_take second, List.drop_left' (aead.length_sealed _ _ _), ih]
      simp [nonceAfter]

/-- A prefix of a block and what follows it ends inside the block or goes on behind it. -/
theorem prefix_append_cases {buffered block rest : List UInt8}
    (isPrefix : buffered <+: block ++ rest) :
    buffered.length < block.length ∨ ∃ later, buffered = block ++ later ∧ later <+: rest := by
  by_cases inside : buffered.length < block.length
  · exact Or.inl inside
  · rcases List.prefix_of_prefix_length_le (List.prefix_append block rest) isPrefix (by omega) with
        ⟨later, rfl⟩
    exact Or.inr ⟨later, rfl, (List.prefix_append_right_inj block).mp isPrefix⟩

/-- What of the frame it stands in a decoder has taken already. -/
def Decoder.taken : Decoder → ℕ
  | .size _ => 0
  | .payload _ _ => sizeBlock

/-- The length of the frame of a payload. -/
def lengthOfFrame (payload : List UInt8) : ℕ :=
  Decoder.sizeBlock + (payload.length + aeadTagSize)

/-- The decoder on the beginning of some frames: it puts out the payloads of those that are
complete, and what is left over is less than a frame. -/
theorem drain_prefix {payloads : List (List UInt8)}
    (wellFormed : ∀ payload ∈ payloads, payload.length ≤ aeadChunkSizeMask ∧ payload ≠ [])
    {nonce fed : List UInt8} (isPrefix : fed <+: frames aead key nonce payloads) :
    let decoding := (Decoder.reader aead key).drain (.size nonce) fed
    ∃ complete rest started, payloads = complete ++ rest ∧
      fed = frames aead key nonce complete ++ started ∧
      decoding.halted = none ∧ decoding.output = complete.flatten ∧
      decoding.state.taken + decoding.unread.length = started.length ∧
      (rest = [] → started = []) ∧
      ∀ next ∈ rest.head?, started.length < lengthOfFrame next := by
  induction payloads generalizing nonce fed with
  | nil =>
      rw [frames, List.prefix_nil] at isPrefix
      have verdict : (Decoder.reader aead key).look (.size nonce) fed = .more := by
        simp [isPrefix, Decoder.reader, Decoder.look, Decoder.sizeBlock]
      refine ⟨[], [], fed, rfl, rfl, ?_⟩
      rw [Reader.drain_of_more verdict]
      simp [Decoder.taken, isPrefix]
  | cons payload payloads ih =>
      rcases wellFormed payload List.mem_cons_self with ⟨small, nonempty⟩
      have positive : ¬payload.length = 0 := by simpa using nonempty
      rw [frames] at isPrefix
      rcases prefix_append_cases isPrefix with short | ⟨later, rfl, laterPrefix⟩
      · rw [length_sealed_toNe] at short
        have verdict : (Decoder.reader aead key).look (.size nonce) fed = .more := by
          simp only [Decoder.reader, Decoder.look, short, if_true]
        refine ⟨[], payload :: payloads, fed, rfl, rfl, ?_⟩
        rw [Reader.drain_of_more verdict]
        simp only [Decoder.taken, lengthOfFrame]
        simp
        omega
      · have first := look_size aead key small nonce later
        rw [if_neg positive] at first
        rw [Reader.drain_of_take first, List.drop_left' (length_sealed_toNe aead key nonce _),
          Progress.after_nil]
        rcases prefix_append_cases laterPrefix with short | ⟨behind, rfl, behindPrefix⟩
        · rw [aead.length_sealed] at short
          have verdict : (Decoder.reader aead key).look
              (.payload (nonceIncrement nonce) payload.length) later = .more := by
            simp only [Decoder.reader, Decoder.look, short, if_true]
          refine ⟨[], payload :: payloads, _, rfl, rfl, ?_⟩
          rw [Reader.drain_of_more verdict]
          have size := length_sealed_toNe aead key nonce payload.length
          simp only [Decoder.taken, lengthOfFrame]
          simp
          omega
        · rcases ih (fun other member => wellFormed other (List.mem_cons_of_mem _ member))
            behindPrefix with ⟨complete, rest, started, whole, front, halted, output, taken, ending,
            bound⟩
          rw [Reader.drain_of_take (look_payload aead key _ payload behind),
            List.drop_left' (aead.length_sealed _ _ _)]
          refine ⟨payload :: complete, rest, started, by rw [whole]; rfl, ?_, halted, ?_, taken,
            ending, bound⟩
          · rw [front]
            simp [frames]
          · rw [Progress.after_output, output]
            rfl

end

end Imconee.Shadowsocks
