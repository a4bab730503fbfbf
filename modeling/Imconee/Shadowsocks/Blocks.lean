import Imconee.Shadowsocks.Filter
import Imconee.Botan.Aead

/-!
# Messages in blocks

A mode may be given a message in pieces, or at once. `keyed_filter` cuts off one block of the
ideal granularity after the other, as long as what stays is enough to finish with. What it sends
is what the mode makes of the message at once.
-/

set_option autoImplicit false

namespace Imconee.Botan

variable {State : Type}

/-- The output for blocks that are updated with, and a rest to finish with -/
def CipherMode.feed (mode : CipherMode State) : State → List (List UInt8) → List UInt8 →
    Except Exception (List UInt8)
  | state, [], rest => mode.finish state rest
  | state, block :: blocks, rest =>
      match mode.update state block with
      | .error exception => .error exception
      | .ok (next, output) => (mode.feed next blocks rest).map (output ++ ·)

/-- The output for the whole message -/
def CipherMode.oneShot (mode : CipherMode State) (nonce message : List UInt8) :
    Except Exception (List UInt8) :=
  mode.finish (mode.start nonce) message

/-- Blocks of multiples of the update granularity do not change the output. -/
def CipherMode.Incremental (mode : CipherMode State) (updateGranularity : ℕ) : Prop :=
  ∀ nonce blocks rest, (∀ block ∈ blocks, updateGranularity ∣ block.length) →
    mode.minimumFinalSize ≤ rest.length →
    mode.feed (mode.start nonce) blocks rest = mode.oneShot nonce (blocks.flatten ++ rest)

/-- It is enough that one block does not, from any state on. -/
theorem CipherMode.incremental_of_update {mode : CipherMode State} {updateGranularity : ℕ}
    (update : ∀ state block, updateGranularity ∣ block.length →
      ∃ next output, mode.update state block = .ok (next, output) ∧
        ∀ rest, mode.minimumFinalSize ≤ rest.length →
          mode.finish state (block ++ rest) = (mode.finish next rest).map (output ++ ·)) :
    mode.Incremental updateGranularity := by
  intro nonce blocks rest multiples enough
  rw [CipherMode.oneShot]
  generalize mode.start nonce = state
  induction blocks generalizing state with
  | nil => rfl
  | cons block blocks ih =>
      have later := ih fun other mem => multiples other (List.mem_cons_of_mem _ mem)
      rcases update state block (multiples block List.mem_cons_self) with
        ⟨next, output, updated, joined⟩
      have more : mode.minimumFinalSize ≤ (blocks.flatten ++ rest).length := by
        rw [List.length_append]
        omega
      simp only [CipherMode.feed, updated, later, List.flatten_cons, List.append_assoc]
      exact (joined _ more).symm

/-- GCM and ChaCha20-Poly1305 may be given what they encrypt in pieces. -/
theorem Primitives.encryption_incremental (primitives : Primitives)
    (updateGranularity idealGranularity : ℕ) :
    (primitives.encryption updateGranularity idealGranularity).Incremental updateGranularity := by
  apply CipherMode.incremental_of_update
  intro message block multiple
  refine ⟨_, _, if_pos (Nat.mod_eq_zero_of_dvd multiple), ?_⟩
  intro rest _
  simp [encryption, cipher_append, absorb, Except.map]

end Imconee.Botan

namespace Imconee.Shadowsocks

open Imconee.Botan

/-- A call on a mode, with what it is given -/
inductive ModeCall where
  | update (block : List UInt8)
  | finish (rest : List UInt8)
  deriving DecidableEq

/-- What is to be seen of one message: the calls on the mode, the blocks that are sent, and how
it ends. -/
structure Session (α : Type) where
  calls : List ModeCall
  sent : List (List UInt8)
  result : Except Exception α

namespace KeyedFilter

variable {State : Type} {filter : KeyedFilter State}

/-- The loop of `write`, with its calls -/
def sessionLoop (filter : KeyedFilter State) : ℕ → State → List UInt8 →
    Session (State × List UInt8)
  | 0, state, input => ⟨[], [], .ok (state, input)⟩
  | fuel + 1, state, input =>
      let idealg := filter.mode.idealGranularity
      let mfz := idealg + filter.mode.minimumFinalSize
      if mfz ≤ input.length then
        match filter.mode.update state (input.take idealg) with
        | .error exception => ⟨[.update (input.take idealg)], [], .error exception⟩
        | .ok (state, buf) =>
            let rest := sessionLoop filter fuel state (input.drop idealg)
            ⟨.update (input.take idealg) :: rest.calls, send buf ++ rest.sent, rest.result⟩
      else ⟨[], [], .ok (state, input)⟩

/-- `start_msg`, one `write` and `end_msg` -/
def session (filter : KeyedFilter State) (input : List UInt8) : Session Unit :=
  let written := filter.sessionLoop input.length filter.startMsg input
  match written.result with
  | .error exception => ⟨written.calls, written.sent, .error exception⟩
  | .ok (state, buf) =>
      let ended := filter.endMsg state buf
      ⟨written.calls ++ [.finish buf], written.sent ++ ended.1, ended.2.map fun _ => ()⟩

theorem sessionLoop_forget (fuel : ℕ) (state : State) (input : List UInt8) :
    ((filter.sessionLoop fuel state input).sent, (filter.sessionLoop fuel state input).result) =
      filter.writeLoop fuel state input := by
  induction fuel generalizing state input with
  | zero => rfl
  | succ fuel ih =>
      simp only [sessionLoop, writeLoop]
      split
      · cases filter.mode.update state (input.take filter.mode.idealGranularity) with
        | error exception => rfl
        | ok updated => simp only [← ih]
      · rfl

/-- With the calls forgotten this is how a message is processed. -/
theorem session_forget (report : ℕ → Bool) (input : List UInt8) :
    (filter.session input).sent = (filter.process report input).sent ∧
      (filter.session input).result =
        (filter.process report input).result.map fun _ => () := by
  have written := @sessionLoop_forget _ filter input.length filter.startMsg input
  simp only [session, process, write, ← written]
  cases ended : (filter.sessionLoop input.length filter.startMsg input).result with
  | error exception => exact ⟨rfl, rfl⟩
  | ok pair =>
      dsimp only
      cases finished : (filter.endMsg pair.1 pair.2).2 with
      | error exception => exact ⟨rfl, rfl⟩
      | ok next => exact ⟨rfl, rfl⟩

/-- A message cut into blocks and a rest, as the bound of the loop has it. -/
structure Cut (filter : KeyedFilter State) (message : List UInt8) (blocks : List (List UInt8))
    (rest : List UInt8) : Prop where
  whole : blocks.flatten ++ rest = message
  ideal : ∀ block ∈ blocks, block.length = filter.mode.idealGranularity
  enough : filter.mode.minimumFinalSize ≤ rest.length
  short : rest.length < filter.mode.idealGranularity + filter.mode.minimumFinalSize

/-- What the loop has done of a message: it has updated with all blocks, or one of them has been
refused. -/
def Fed (filter : KeyedFilter State) (state : State) (blocks : List (List UInt8))
    (rest : List UInt8) (session : Session (State × List UInt8)) : Prop :=
  (∃ next, session.calls = blocks.map .update ∧ session.result = .ok (next, rest) ∧
    filter.mode.feed state blocks rest =
      (filter.mode.finish next rest).map (session.sent.flatten ++ ·)) ∨
  ∃ exception, session.calls <+: blocks.map .update ∧ session.result = .error exception ∧
    filter.mode.feed state blocks rest = .error exception

theorem sessionLoop_spec (positive : 0 < filter.mode.idealGranularity) {fuel : ℕ} (state : State)
    {input : List UInt8} (rounds : input.length ≤ fuel)
    (enough : filter.mode.minimumFinalSize ≤ input.length) :
    ∃ blocks rest, filter.Cut input blocks rest ∧
      filter.Fed state blocks rest (filter.sessionLoop fuel state input) := by
  induction fuel generalizing state input with
  | zero =>
      refine ⟨[], input, ⟨rfl, nofun, enough, by omega⟩, Or.inl ⟨state, rfl, rfl, ?_⟩⟩
      simp only [CipherMode.feed, sessionLoop, List.flatten_nil]
      cases filter.mode.finish state input <;> rfl
  | succ fuel ih =>
      by_cases round : filter.mode.idealGranularity + filter.mode.minimumFinalSize ≤ input.length
      · have taken : (input.take filter.mode.idealGranularity).length =
            filter.mode.idealGranularity := by
          rw [List.length_take]
          omega
        have left : (input.drop filter.mode.idealGranularity).length =
            input.length - filter.mode.idealGranularity := List.length_drop
        have cut : ∀ {blocks rest},
            filter.Cut (input.drop filter.mode.idealGranularity) blocks rest →
            filter.Cut input (input.take filter.mode.idealGranularity :: blocks) rest := by
          intro blocks rest behind
          refine ⟨?_, ?_, behind.enough, behind.short⟩
          · rw [List.flatten_cons, List.append_assoc, behind.whole, List.take_append_drop]
          · exact List.forall_mem_cons.mpr ⟨taken, behind.ideal⟩
        cases update : filter.mode.update state (input.take filter.mode.idealGranularity) with
        | error exception =>
            rcases ih state (by omega) (show filter.mode.minimumFinalSize ≤
              (input.drop filter.mode.idealGranularity).length by omega) with
              ⟨blocks, rest, behind, -⟩
            refine ⟨_, rest, cut behind, Or.inr ⟨exception, ?_, ?_, ?_⟩⟩
            · simp [sessionLoop, round, update]
            · simp [sessionLoop, round, update]
            · simp [CipherMode.feed, update]
        | ok updated =>
            rcases updated with ⟨next, output⟩
            rcases ih next (by omega) (show filter.mode.minimumFinalSize ≤
              (input.drop filter.mode.idealGranularity).length by omega) with
              ⟨blocks, rest, behind, fed⟩
            have step : filter.sessionLoop (fuel + 1) state input =
                ⟨.update (input.take filter.mode.idealGranularity) ::
                    (filter.sessionLoop fuel next
                      (input.drop filter.mode.idealGranularity)).calls,
                  send output ++ (filter.sessionLoop fuel next
                    (input.drop filter.mode.idealGranularity)).sent,
                  (filter.sessionLoop fuel next
                    (input.drop filter.mode.idealGranularity)).result⟩ := by
              simp only [sessionLoop, round, if_true, update]
            refine ⟨_, rest, cut behind, ?_⟩
            rw [step]
            rcases fed with ⟨final, calls, result, output'⟩ | ⟨exception, calls, result, output'⟩
            · refine Or.inl ⟨final, ?_, result, ?_⟩
              · simp only [calls, List.map_cons]
              · simp only [CipherMode.feed, update, output', List.flatten_append, flatten_send]
                cases filter.mode.finish final rest <;> simp [Except.map]
            · refine Or.inr ⟨exception, ?_, result, ?_⟩
              · simpa using calls
              · simp only [CipherMode.feed, update, output', Except.map]
      · have stop : filter.sessionLoop (fuel + 1) state input = ⟨[], [], .ok (state, input)⟩ := by
          simp only [sessionLoop, round, if_false]
        rw [stop]
        refine ⟨[], input, ⟨rfl, nofun, enough, by omega⟩, Or.inl ⟨state, rfl, rfl, ?_⟩⟩
        simp only [CipherMode.feed, List.flatten_nil]
        cases filter.mode.finish state input <;> rfl

/-- The filter gives the mode blocks of the ideal granularity and a rest that is enough to
finish with, and sends what the mode makes of the whole message. -/
theorem session_spec {updateGranularity : ℕ} (positive : 0 < filter.mode.idealGranularity)
    (multiple : updateGranularity ∣ filter.mode.idealGranularity)
    (incremental : filter.mode.Incremental updateGranularity) {message : List UInt8}
    (enough : filter.mode.minimumFinalSize ≤ message.length) :
    ∃ blocks rest, filter.Cut message blocks rest ∧
      (filter.session message).calls <+: blocks.map .update ++ [.finish rest] ∧
      match filter.mode.oneShot filter.iv message with
      | .ok output =>
          (filter.session message).calls = blocks.map .update ++ [.finish rest] ∧
            (filter.session message).sent.flatten = output ∧
            (filter.session message).result = .ok ()
      | .error exception => (filter.session message).result = .error exception := by
  rcases sessionLoop_spec positive filter.startMsg (Nat.le_refl message.length) enough with
    ⟨blocks, rest, cut, fed⟩
  have same : filter.mode.feed filter.startMsg blocks rest =
      filter.mode.oneShot filter.iv message := by
    rw [startMsg, incremental _ _ _ _ cut.enough, cut.whole]
    intro block mem
    rw [cut.ideal block mem]
    exact multiple
  refine ⟨blocks, rest, cut, ?_⟩
  rw [← same]
  rcases fed with ⟨next, calls, result, output⟩ | ⟨exception, calls, result, refused⟩
  · simp only [session, result, calls, output, endMsg]
    cases finished : filter.mode.finish next rest with
    | error exception => exact ⟨List.prefix_refl _, rfl⟩
    | ok last => exact ⟨List.prefix_refl _, trivial, by simp, rfl⟩
  · simp only [session, result, refused]
    exact ⟨calls.trans (List.prefix_append _ _), trivial⟩

/-- AES/GCM with the stand-in for its ciphers -/
def plainFilter : KeyedFilter Message where
  mode := Primitives.plain.encryption 16 64
  iv := List.replicate 12 0

theorem session_spec_plain :
    (plainFilter.session (List.replicate 65 7)).sent.flatten =
      Primitives.plain.sealed (List.replicate 12 0) (List.replicate 65 7) := by
  rcases @session_spec _ plainFilter 16 (by decide) (by decide)
    (Primitives.plain.encryption_incremental 16 64) (List.replicate 65 7) (Nat.zero_le _) with
    ⟨_, _, -, -, ends⟩
  have accepted : plainFilter.mode.oneShot plainFilter.iv (List.replicate 65 7) =
      .ok (Primitives.plain.sealed (List.replicate 12 0) (List.replicate 65 7)) := rfl
  rw [accepted] at ends
  exact ends.2.1

end KeyedFilter

end Imconee.Shadowsocks
