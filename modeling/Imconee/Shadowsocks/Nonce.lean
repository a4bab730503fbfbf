import Imconee.Botan.Aead
import Imconee.Shadowsocks.AeadCryptor

/-!
# The nonces of a session

Setting a key up puts the nonce at zero and every message completed adds one to it, so the
nonces of a session count up in both directions.
-/

set_option autoImplicit false

namespace Imconee.Shadowsocks

open Imconee.Lib Imconee.Botan

variable {State : Type}

namespace KeyedFilter

/-- Only a completed message moves the nonce, by one. -/
theorem filter_of_completed {filter : KeyedFilter State} {report : ℕ → Bool}
    {input : List UInt8} {value : Bool}
    (completed : (filter.process report input).result = .ok value) :
    (filter.process report input).filter = filter.incnonce := by
  simp only [process, endMsg] at completed ⊢
  cases written : (filter.write filter.startMsg input).2 with
  | error exception => simp [written] at completed
  | ok rest =>
      simp only [written] at completed ⊢
      cases finished : filter.mode.finish rest.1 rest.2 with
      | error exception => simp [finished] at completed
      | ok buf => rfl

end KeyedFilter

/-- A run of one direction: what each `process` call did, and the filter after the last. -/
def processAll (process : KeyedFilter State → List UInt8 → Processed State) :
    KeyedFilter State → List (List UInt8) → List (Processed State) × KeyedFilter State
  | recoder, [] => ([], recoder)
  | recoder, input :: inputs =>
      let processed := process recoder input
      let rest := processAll process processed.filter inputs
      (processed :: rest.1, rest.2)

/-- The nonces that the calls of a run start the mode with. -/
def noncesOf (process : KeyedFilter State → List UInt8 → Processed State) :
    KeyedFilter State → List (List UInt8) → List (List UInt8)
  | _, [] => []
  | recoder, input :: inputs =>
      recoder.iv :: noncesOf process (process recoder input).filter inputs

/-- Every call of a run returns. -/
def Completes (process : KeyedFilter State → List UInt8 → Processed State)
    (recoder : KeyedFilter State) (inputs : List (List UInt8)) : Prop :=
  ∀ processed ∈ (processAll process recoder inputs).1, ∃ value, processed.result = .ok value

/-- The messages `encipher` gives to `cipher_enc::process`, in order. -/
def messagesLoop : ℕ → List UInt8 → List (List UInt8)
  | 0, _ => []
  | fuel + 1, plain =>
      let inLen := frameLength plain
      toNe inLen :: plain.take inLen ::
        if inLen < plain.length then messagesLoop fuel (plain.drop inLen) else []

def messages (plain : List UInt8) : List (List UInt8) :=
  messagesLoop (plain.length + 1) plain

/-- The invariant of a run: a nonce that encodes a number counts up from it. -/
theorem noncesOf_completed {process : KeyedFilter State → List UInt8 → Processed State}
    (moves : ∀ recoder input value, (process recoder input).result = .ok value →
      (process recoder input).filter = recoder.incnonce)
    {recoder : KeyedFilter State} {inputs : List (List UInt8)} {width value : ℕ}
    (completes : Completes process recoder inputs)
    (counter : recoder.iv = LittleEndian.encode width value) :
    noncesOf process recoder inputs =
        (List.range' value inputs.length).map (LittleEndian.encode width) ∧
      (processAll process recoder inputs).2.iv =
        LittleEndian.encode width (value + inputs.length) := by
  induction inputs generalizing recoder value with
  | nil => exact ⟨rfl, counter⟩
  | cons input inputs ih =>
      rcases completes (process recoder input) (by simp [processAll]) with ⟨returned, result⟩
      have next : (process recoder input).filter.iv =
          LittleEndian.encode width (value + 1) := by
        rw [moves _ _ _ result, KeyedFilter.incnonce, counter, nonceIncrement_encode]
      rcases ih
        (fun processed member => completes processed (by simp [processAll, member])) next with
        ⟨nonces, final⟩
      refine ⟨?_, ?_⟩
      · rw [noncesOf, nonces, counter, List.length_cons, List.range'_succ, List.map_cons]
      · rw [processAll, List.length_cons, final, Nat.add_assoc, Nat.add_comm 1]

theorem completes_cons {process : KeyedFilter State → List UInt8 → Processed State}
    {recoder : KeyedFilter State} {input : List UInt8} {inputs : List (List UInt8)} {value : Bool}
    (first : (process recoder input).result = .ok value)
    (rest : Completes process (process recoder input).filter inputs) :
    Completes process recoder (input :: inputs) := by
  intro processed member
  rcases List.mem_cons.mp member with rfl | later
  · exact ⟨value, first⟩
  · exact rest processed later

/-- Enciphering under an authenticated mode completes. -/
theorem completes_encryption (aead : Aead State) (key : List UInt8) {recoder : KeyedFilter State}
    (mode : recoder.mode = aead.encryption key) (inputs : List (List UInt8)) :
    Completes CipherEnc.process recoder inputs := by
  induction inputs generalizing recoder with
  | nil => simp [Completes, processAll]
  | cons input inputs ih =>
      rcases CipherEnc.process_spec mode input with ⟨-, ⟨value, result⟩, filter⟩
      refine completes_cons result (ih ?_)
      rw [filter]
      exact mode

/-- `encipher` is a run of `cipher_enc::process` over the messages of its frames. -/
theorem encipherLoop_eq_processAll {fuel : ℕ} {encryptor : KeyedFilter State}
    {plain cipher : List UInt8} {value : ℤ}
    (returned : (encipherLoop fuel encryptor plain cipher).result = .ok value) :
    let run := processAll CipherEnc.process encryptor (messagesLoop fuel plain)
    Completes CipherEnc.process encryptor (messagesLoop fuel plain) ∧
      (encipherLoop fuel encryptor plain cipher).encryptor = run.2 ∧
      (encipherLoop fuel encryptor plain cipher).cipher =
        cipher ++ run.1.flatMap fun processed => processed.sent.flatten := by
  induction fuel generalizing encryptor plain cipher value with
  | zero => exact ⟨fun processed member => by simp [messagesLoop, processAll] at member, rfl,
      by simp [encipherLoop, messagesLoop, processAll]⟩
  | succ fuel ih =>
      simp only [encipherLoop] at returned ⊢
      cases size : (CipherEnc.process encryptor (toNe (frameLength plain))).result with
      | error exception => simp [size] at returned
      | ok written =>
          simp only [size] at returned ⊢
          generalize sizeFilter : (CipherEnc.process encryptor (toNe (frameLength plain))).filter =
            filter at returned ⊢
          cases payload : (CipherEnc.process filter (plain.take (frameLength plain))).result with
          | error exception => simp [payload] at returned
          | ok written' =>
              simp only [payload] at returned ⊢
              by_cases more : frameLength plain < plain.length
              · simp only [more, if_true] at returned ⊢
                generalize sent : cipher ++
                  (CipherEnc.process encryptor (toNe (frameLength plain))).sent.flatten ++
                  (CipherEnc.process filter (plain.take (frameLength plain))).sent.flatten =
                    front at returned ⊢
                cases rest : (encipherLoop fuel
                    (CipherEnc.process filter (plain.take (frameLength plain))).filter
                    (plain.drop (frameLength plain)) front).result with
                | error exception => simp [rest, Except.map] at returned
                | ok value' =>
                    rcases ih rest with ⟨completes, final, output⟩
                    refine ⟨?_, ?_, ?_⟩
                    · rw [messagesLoop]
                      simp only [more, if_true]
                      exact completes_cons size (by
                        rw [sizeFilter]
                        exact completes_cons payload completes)
                    · rw [final, messagesLoop]
                      simp only [more, if_true, processAll, sizeFilter]
                    · rw [output, messagesLoop, ← sent]
                      simp only [more, if_true, processAll, sizeFilter, List.flatMap_cons,
                        List.append_assoc]
              · simp only [more, if_false] at returned ⊢
                refine ⟨?_, ?_, ?_⟩
                · rw [messagesLoop]
                  simp only [more, if_false]
                  exact completes_cons size (by
                    rw [sizeFilter]
                    exact completes_cons payload (by simp [Completes, processAll]))
                · rw [messagesLoop]
                  simp only [more, if_false, processAll, sizeFilter]
                · rw [messagesLoop]
                  simp [more, processAll, sizeFilter]

theorem length_messagesLoop {fuel : ℕ} {plain : List UInt8} (nonempty : plain ≠ [])
    (rounds : plain.length ≤ fuel) :
    (messagesLoop fuel plain).length = 2 * ((plain.length + 0x3FFE) / 0x3FFF) := by
  induction fuel generalizing plain with
  | zero => exact absurd (List.length_eq_zero_iff.mp (by omega)) nonempty
  | succ fuel ih =>
      have positive := List.length_pos_iff.mpr nonempty
      by_cases large : aeadChunkSizeMask < plain.length
      · have full : frameLength plain = 0x3FFF := if_pos large
        have large : 0x3FFF < plain.length := large
        have dropped : (plain.drop 0x3FFF).length = plain.length - 0x3FFF := List.length_drop
        rw [messagesLoop]
        simp only [full, large, if_true, List.length_cons]
        rw [ih (List.length_pos_iff.mp (by omega)) (by omega), dropped]
        omega
      · have whole : frameLength plain = plain.length := if_neg large
        have large : ¬0x3FFF < plain.length := large
        simp only [messagesLoop, whole, Nat.lt_irrefl, if_false, List.length_cons, List.length_nil]
        omega

/-- In a run of completed calls after a key setup the `i`-th call starts the mode with the
little-endian encoding of `i`, whatever the mode. So the nonces of a run are distinct as
long as they do not wrap around, a payload takes two consecutive ones for each of its
frames, and the peer that completes the messages uses the same ones. -/
theorem nonces_of_session (mode : CipherMode State) (nonceSize : ℕ) {inputs : List (List UInt8)}
    (completes : Completes CipherEnc.process (.setup mode nonceSize) inputs) :
    let session := KeyedFilter.setup mode nonceSize
    noncesOf CipherEnc.process session inputs = (List.range inputs.length).map
        (fun i => LittleEndian.encode nonceSize (i % 2 ^ (8 * nonceSize))) ∧
      (inputs.length < 2 ^ (8 * nonceSize) →
        (noncesOf CipherEnc.process session inputs).Nodup) ∧
      (∀ plain cipher value, plain ≠ [] →
        let encryptor := (processAll CipherEnc.process session inputs).2
        (encipher encryptor plain cipher).result = .ok value →
          (encipher encryptor plain cipher).encryptor =
              (processAll CipherEnc.process encryptor (messages plain)).2 ∧
            (messages plain).length = 2 * ((plain.length + 0x3FFE) / 0x3FFF) ∧
            noncesOf CipherEnc.process encryptor (messages plain) =
              (List.range' inputs.length (messages plain).length).map
                (fun i => LittleEndian.encode nonceSize (i % 2 ^ (8 * nonceSize)))) ∧
      ∀ (peer : CipherMode State) (received : List (List UInt8)),
        received.length = inputs.length →
        Completes CipherDec.process (.setup peer nonceSize) received →
          noncesOf CipherDec.process (.setup peer nonceSize) received =
            noncesOf CipherEnc.process session inputs := by
  have bound : 2 ^ (8 * nonceSize) = 256 ^ nonceSize := by
    rw [Nat.pow_mul]
  have reduce : (fun i => LittleEndian.encode nonceSize (i % 2 ^ (8 * nonceSize))) =
      LittleEndian.encode nonceSize := by
    funext i
    rw [bound, LittleEndian.encode_mod]
  have start : ∀ mode : CipherMode State,
      (KeyedFilter.setup mode nonceSize).iv = LittleEndian.encode nonceSize 0 := by
    intro mode
    rw [LittleEndian.encode_zero]
    rfl
  have encMoves : ∀ (recoder : KeyedFilter State) (input : List UInt8) (value : Bool),
      (CipherEnc.process recoder input).result = .ok value →
        (CipherEnc.process recoder input).filter = recoder.incnonce :=
    fun _ _ _ => KeyedFilter.filter_of_completed
  have decMoves : ∀ (recoder : KeyedFilter State) (input : List UInt8) (value : Bool),
      (CipherDec.process recoder input).result = .ok value →
        (CipherDec.process recoder input).filter = recoder.incnonce :=
    fun _ _ _ => KeyedFilter.filter_of_completed
  rcases noncesOf_completed encMoves completes (start mode) with ⟨nonces, final⟩
  rw [Nat.zero_add] at final
  rw [← List.range_eq_range'] at nonces
  intro session
  refine ⟨?_, ?_, ?_, ?_⟩
  · rw [reduce]
    exact nonces
  · intro short
    rw [nonces]
    exact LittleEndian.nodup_encode_range (by omega)
  · intro plain cipher value nonempty encryptor returned
    rcases encipherLoop_eq_processAll returned with ⟨completes', after, -⟩
    rw [reduce]
    exact ⟨after, length_messagesLoop nonempty (Nat.le_succ _),
      (noncesOf_completed encMoves completes' final).1⟩
  · intro peer received same completes'
    rcases noncesOf_completed decMoves completes' (start peer) with ⟨peerNonces, -⟩
    rw [peerNonces, ← List.range_eq_range', same]
    exact nonces.symm

theorem nonces_of_session_gcm :
    noncesOf CipherEnc.process (.setup ((gcm fun _ => .plain).encryption []) 12) [[7], [], [8, 9]] =
      (List.range 3).map fun i => LittleEndian.encode 12 (i % 2 ^ (8 * 12)) :=
  (nonces_of_session ((gcm fun _ => .plain).encryption []) 12
    (completes_encryption (gcm fun _ => .plain) [] rfl [[7], [], [8, 9]])).1

end Imconee.Shadowsocks
