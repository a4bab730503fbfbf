import Imconee.Lib.Dialogue
import Imconee.Netkit.TcpPipe

/-!
# Dialogues over pipes

What a dialogue comes to over a pipe. A call that throws or does not return ends it. Of the
stream of the pipe it has received the front.
-/

set_option autoImplicit false

namespace Imconee.Netkit

open Lib

variable {P α : Type}

/-- The value of a dialogue, if it has one, and the pipe after it. -/
def converse (impl : PipeImpl P) : Dialogue α → P → Option α × P
  | .value a, pipe => (some a, pipe)
  | .quit, pipe => (none, pipe)
  | .receive size next, pipe =>
      match impl.recv pipe size with
      | (.data bytes, pipe) => converse impl (next (some bytes)) pipe
      | (.failed, pipe) => converse impl (next none) pipe
      | (_, pipe) => (none, pipe)
  | .send bytes next, pipe =>
      match impl.send pipe (some bytes) with
      | (.fail, pipe) => converse impl (next false) pipe
      | (.threw _, pipe) => (none, pipe)
      | (_, pipe) => converse impl (next true) pipe

/-- What a dialogue comes to over a pipe if all its calls return: its value, or none if it has
quit. -/
def conclude (impl : PipeImpl P) : Dialogue α → P → Option (Option α × P)
  | .value a, pipe => some (some a, pipe)
  | .quit, pipe => some (none, pipe)
  | .receive size next, pipe =>
      match impl.recv pipe size with
      | (.data bytes, pipe) => conclude impl (next (some bytes)) pipe
      | (.failed, pipe) => conclude impl (next none) pipe
      | _ => none
  | .send bytes next, pipe =>
      match impl.send pipe (some bytes) with
      | (.fail, pipe) => conclude impl (next false) pipe
      | (.threw _, _) => none
      | (_, pipe) => conclude impl (next true) pipe

/-- One dialogue after the other: the second one goes on with the pipe of the first. -/
theorem conclude_bind {β : Type} (impl : PipeImpl P) (d : Dialogue α) (f : α → Dialogue β)
    (pipe : P) : conclude impl (d >>= f) pipe =
      match conclude impl d pipe with
      | some (some a, pipe) => conclude impl (f a) pipe
      | some (none, pipe) => some (none, pipe)
      | none => none := by
  induction d generalizing pipe with
  | value a => rfl
  | quit => rfl
  | receive size next ih =>
      change conclude impl (.receive size fun answer => next answer >>= f) pipe = _
      rw [conclude, conclude]
      rcases impl.recv pipe size with ⟨result, between⟩
      cases result with
      | data bytes => exact ih _ between
      | failed => exact ih _ between
      | threw exception => rfl
      | blocked => rfl
  | send bytes next ih =>
      change conclude impl (.send bytes fun taken => next taken >>= f) pipe = _
      rw [conclude, conclude]
      rcases impl.send pipe (some bytes) with ⟨result, between⟩
      cases result with
      | ok => exact ih _ between
      | fail => exact ih _ between
      | bufferfull => exact ih _ between
      | threw exception => rfl

/-- The first call of `recv` that does not wait for all of its bytes: how many it asks for, and
the pipe on which it is made. -/
def hasty (impl : PipeImpl P) : Dialogue α → P → Option (ℕ × P)
  | .value _, _ => none
  | .quit, _ => none
  | .receive size next, pipe =>
      if 0 < size then some (size.toNat, pipe)
      else
        match impl.recv pipe size with
        | (.data bytes, pipe) => hasty impl (next (some bytes)) pipe
        | (.failed, pipe) => hasty impl (next none) pipe
        | _ => none
  | .send bytes next, pipe =>
      match impl.send pipe (some bytes) with
      | (.fail, pipe) => hasty impl (next false) pipe
      | (.threw _, _) => none
      | (_, pipe) => hasty impl (next true) pipe

/-- Sending does not touch what is to be received, or the pipe is closed. -/
def Apart (impl : PipeImpl P) (stream : P → List UInt8) : Prop :=
  ∀ pipe data, stream (impl.send pipe data).2 = stream pipe ∨ stream (impl.send pipe data).2 = []

theorem apart_memoryPipe : Apart memoryPipe MemoryPipe.stream := fun _ _ => Or.inl rfl

theorem apart_tcpPipe {K : Type} {kernel : Kernel K} {incoming accepted : K → List UInt8}
    (stream : kernel.Stream incoming accepted) (fuel : ℕ) :
    Apart ((tcpPipe kernel fuel).restrict (keeps_tcpPipe stream fuel))
      (fun self => self.1.stream incoming) := by
  intro self data
  left
  exact (TcpPipe.send_sends stream self.2.outbuf data).stream

/-- What a dialogue reads after a call is what it reads of the stream before it. -/
theorem reads_of_rest {stream rest : List UInt8} {bytes : List UInt8}
    (whole : ∃ more, rest = bytes ++ more) (kept : rest = stream ∨ rest = []) :
    ∃ more, stream = bytes ++ more := by
  rcases whole with ⟨more, whole⟩
  rcases kept with same | closed
  · exact ⟨more, same ▸ whole⟩
  · rw [closed] at whole
    rw [(List.append_eq_nil_iff.mp whole.symm).1]
    exact ⟨stream, rfl⟩

/-- A dialogue that comes to a value has read the front of the stream. -/
theorem reads_of_converse {impl : PipeImpl P} {stream : P → List UInt8}
    (source : Source impl stream) (apart : Apart impl stream) {d : Dialogue α} {pipe last : P}
    {a : α} (ends : converse impl d pipe = (some a, last)) :
    ∃ bytes, (∃ more, stream pipe = bytes ++ more) ∧ d.Reads bytes a := by
  induction d generalizing pipe with
  | value b =>
      cases ends
      exact ⟨[], ⟨_, rfl⟩, .value _⟩
  | quit => cases ends
  | receive size next ih =>
      rw [converse] at ends
      rcases received : impl.recv pipe size with ⟨result, between⟩
      rw [received] at ends
      cases result with
      | data bytes =>
          rcases source.recv_data received with ⟨whole, atMost, exact⟩
          rcases ih _ ends with ⟨more, ⟨rest, front⟩, reads⟩
          refine ⟨bytes ++ more, ⟨rest, ?_⟩, .received ⟨exact, atMost⟩ reads⟩
          rw [whole, front, List.append_assoc]
      | failed =>
          rcases ih _ ends with ⟨more, front, reads⟩
          have kept := source.recv_other received (by simp)
          exact ⟨more, reads_of_rest front kept, .failed reads⟩
      | threw exception => cases ends
      | blocked => cases ends
  | send bytes next ih =>
      rw [converse] at ends
      have kept := apart pipe (some bytes)
      rcases sent : impl.send pipe (some bytes) with ⟨result, between⟩
      rw [sent] at ends kept
      have goesOn : ∀ taken, converse impl (next taken) between = (some a, last) →
          ∃ more, (∃ rest, stream pipe = more ++ rest) ∧
            (Dialogue.send bytes next).Reads more a := by
        intro taken ends
        rcases ih taken ends with ⟨more, front, reads⟩
        exact ⟨more, reads_of_rest front kept, .sent taken reads⟩
      cases result with
      | ok => exact goesOn true ends
      | fail => exact goesOn false ends
      | bufferfull => exact goesOn true ends
      | threw exception => cases ends

/-- Pipes that answer exact reads of up to `limit` bytes: with the front of the stream as soon
as it has come, or not at all if the stream ends before. What is sent is taken. -/
structure Answering (impl : PipeImpl P) (stream : P → List UInt8) (usable : P → Prop)
    (limit : ℕ) : Prop where
  receive : ∀ {pipe} {count : ℕ}, usable pipe → count ≤ limit → count ≤ (stream pipe).length →
    ∃ next, impl.recv pipe (-(count : ℤ)) = (.data ((stream pipe).take count), next) ∧
      stream next = (stream pipe).drop count ∧ usable next
  starve : ∀ {pipe} {count : ℕ}, usable pipe → count ≤ limit → (stream pipe).length < count →
    (impl.recv pipe (-(count : ℤ))).1 = .failed
  send : ∀ {pipe} (bytes), usable pipe → ∃ result next,
    impl.send pipe (some bytes) = (result, next) ∧ (result = .ok ∨ result = .bufferfull) ∧
      stream next = stream pipe ∧ usable next

namespace Answering

variable {impl : PipeImpl P} {stream : P → List UInt8} {usable : P → Prop} {limit : ℕ}

/-- One dialogue goes on as another one over such a pipe. -/
theorem advances (answering : Answering impl stream usable limit) {d last : Dialogue α}
    {input output rest : List UInt8} (advances : d.Advances input output last) {pipe : P}
    (fine : usable pipe) (whole : stream pipe = input ++ rest) (short : input.length ≤ limit) :
    ∃ next, usable next ∧ stream next = rest ∧ conclude impl d pipe = conclude impl last next ∧
      hasty impl d pipe = hasty impl last next := by
  induction advances generalizing pipe with
  | here d => exact ⟨pipe, fine, whole, rfl, rfl⟩
  | @receive size next bytes input output last exact advances ih =>
      rw [List.append_assoc] at whole
      rw [List.length_append] at short
      rcases answering.receive fine (show bytes.length ≤ limit by omega) (by simp [whole]) with
        ⟨between, received, left, fine'⟩
      rw [whole, List.take_left] at received
      rw [whole, List.drop_left] at left
      rcases ih fine' left (by omega) with ⟨closing, fine'', left', same, asked⟩
      refine ⟨closing, fine'', left', ?_, ?_⟩
      · rw [conclude, exact, received]
        exact same
      · rw [hasty, exact, if_neg (by omega), received]
        exact asked
  | @send bytes input output next last advances ih =>
      rcases answering.send bytes fine with ⟨result, between, sent, taken, left, fine'⟩
      rcases ih fine' (left.trans whole) short with ⟨closing, fine'', left', same, asked⟩
      refine ⟨closing, fine'', left', ?_, ?_⟩
      · rw [conclude, sent]
        rcases taken with rfl | rfl
        · exact same
        · exact same
      · rw [hasty, sent]
        rcases taken with rfl | rfl
        · exact asked
        · exact asked

variable {β : Type}

theorem starves (answering : Answering impl stream usable limit) {count : ℕ} {pipe : P}
    (fine : usable pipe) (short : count ≤ limit) (ended : (stream pipe).length < count)
    (f : Option (List UInt8) → Dialogue β) :
    ∃ next, conclude impl (Dialogue.tryRead count >>= f) pipe = conclude impl (f none) next := by
  have failed := answering.starve fine short ended
  refine ⟨(impl.recv pipe (-(count : ℤ))).2, ?_⟩
  change conclude impl (.receive (-(count : ℤ)) f) pipe = _
  rw [conclude, show impl.recv pipe (-(count : ℤ)) = (.failed, _) from Prod.ext failed rfl]

theorem starves_read (answering : Answering impl stream usable limit) {count : ℕ} {pipe : P}
    (fine : usable pipe) (short : count ≤ limit) (ended : (stream pipe).length < count)
    (f : List UInt8 → Dialogue β) :
    ∃ next, conclude impl (Dialogue.read count >>= f) pipe = some (none, next) :=
  answering.starves fine short ended _

end Answering

end Imconee.Netkit
