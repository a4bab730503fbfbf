import Imconee.Netkit.TcpPipe
import Imconee.Shadowsocks.RoundTrip

/-!
# Flushing

`bridged::process` calls `send` with no bytes to push out what is still waiting. A
`tcp_pipe` takes it so. A `crypto_pipe` enciphers the empty payload: it adds a frame to the
stream, and `decipher` of the peer does not get along with a frame like that.
-/

set_option autoImplicit false

namespace Imconee.Netkit

namespace TcpPipe

variable {K : Type} {kernel : Kernel K} {incoming accepted : K → List UInt8}

theorem flush_neutral (stream : kernel.Stream incoming accepted) {self : TcpPipe K}
    (wellFormed : self.outbuf.WellFormed) :
    (self.send kernel (some [])).2.taken accepted = self.taken accepted := by
  rcases (send_sends stream wellFormed (some [])).taken with taken | ⟨-, taken⟩
  · simpa using taken
  · exact taken

end TcpPipe

end Imconee.Netkit

namespace Imconee.Shadowsocks

open Imconee.Botan Imconee.Netkit Imconee.Tools

variable {State P Q : Type}

namespace CryptoPipe

variable {impl : PipeImpl P} {taken : P → List UInt8} {aead : Aead State} {nonceSize : ℕ}

variable (taken) in
/-- The stream of a sender: what the pipe below has taken, and what is pending. -/
def outgoing (self : CryptoPipe P (AeadCryptor State)) : List UInt8 :=
  self.below taken ++ self.encryptedData

variable (impl taken aead nonceSize) in
/-- No flush among some sends adds to the stream. -/
def FlushNeutral (self : CryptoPipe P (AeadCryptor State)) (plains : List (List UInt8)) : Prop :=
  ∀ before after, plains = before ++ [] :: after →
    (self.sendAll impl (aeadCryptor aead nonceSize) (before ++ [[]])).outgoing taken =
      (self.sendAll impl (aeadCryptor aead nonceSize) before).outgoing taken

theorem outgoing_flush (sink : Sink impl taken)
    (accepts : ∀ pipe bytes, (impl.send pipe (some bytes)).1 = .ok ∨
      (impl.send pipe (some bytes)).1 = .bufferfull)
    {key salt : List UInt8} {self : CryptoPipe P (AeadCryptor State)}
    (sending : Sending taken aead nonceSize key salt [] self) (before : List (List UInt8)) :
    ∃ nonce, (self.sendAll impl (aeadCryptor aead nonceSize) (before ++ [[]])).outgoing taken =
      (self.sendAll impl (aeadCryptor aead nonceSize) before).outgoing taken ++
        frames aead key nonce [[]] := by
  have first := (sending.sendAll sink accepts before).stream
  have second := (sending.sendAll sink accepts (before ++ [[]])).stream
  refine ⟨nonceAfter (firstNonce nonceSize) (framed before), ?_⟩
  rw [outgoing, outgoing, first, second]
  simp [framed, frames_append, payloadsOf, payloadsLoop]

theorem flushNeutral_iff (sink : Sink impl taken)
    (accepts : ∀ pipe bytes, (impl.send pipe (some bytes)).1 = .ok ∨
      (impl.send pipe (some bytes)).1 = .bufferfull)
    {key salt : List UInt8} {self : CryptoPipe P (AeadCryptor State)}
    (sending : Sending taken aead nonceSize key salt [] self) (plains : List (List UInt8)) :
    self.FlushNeutral impl taken aead nonceSize plains ↔ [] ∉ plains := by
  constructor
  · intro neutral flushed
    rcases List.append_of_mem flushed with ⟨before, after, split⟩
    rcases outgoing_flush sink accepts sending before with ⟨nonce, added⟩
    rw [neutral before after split, List.self_eq_append_right] at added
    cases frames_eq_nil aead key added
  · intro nonempty before after split
    exact absurd (by simp [split]) nonempty

end CryptoPipe

section

variable {out : PipeImpl Q} {taken : Q → List UInt8} {impl : PipeImpl P} {stream : P → List UInt8}
  {aead : Aead State} {nonceSize : ℕ} {deriveAeadSubkey : List UInt8 → List UInt8 → List UInt8}

variable (impl stream aead nonceSize deriveAeadSubkey) in
/-- The peer makes the plaintext, and nothing else, of a stream: fed to `decipher` in any
segments, and read by `recv` in any calls. -/
def Decodes (masterKey salt wire plaintext : List UInt8) : Prop :=
  (∀ segments : List (List UInt8), salt ++ segments.flatten = wire →
    let fed := feed (freshReceiver aead (deriveAeadSubkey masterKey salt) nonceSize) {} segments
    fed.ending = .running ∧ fed.plain.content = plaintext) ∧
  ∀ (inPipe : P) (ownSalt : List UInt8) (calls : List (ℕ × ℤ)), stream inPipe = wire →
    ownSalt.length = salt.length →
    let run := (CryptoPipe.create (aeadCryptor aead nonceSize) inPipe deriveAeadSubkey masterKey
      ownSalt).recvAll impl (aeadCryptor aead nonceSize) deriveAeadSubkey calls
    run.1 <+: plaintext ∧ (Lossless impl stream → run.2.below stream = [] →
      run.1 ++ run.2.decryptedData.content = plaintext)

theorem decodes_of_sent (sink : Sink out taken)
    (accepts : ∀ pipe bytes, (out.send pipe (some bytes)).1 = .ok ∨
      (out.send pipe (some bytes)).1 = .bufferfull)
    (source : Source impl stream) (counts : 0 < nonceSize) {masterKey salt : List UInt8}
    {plains : List (List UInt8)} (nonempty : [] ∉ plains) {outPipe : Q}
    (nothing : taken outPipe = []) :
    Decodes impl stream aead nonceSize deriveAeadSubkey masterKey salt
      (((CryptoPipe.create (aeadCryptor aead nonceSize) outPipe deriveAeadSubkey masterKey
        salt).sendAll out (aeadCryptor aead nonceSize) plains).below taken) plains.flatten := by
  have wire : _ = salt ++ frames aead (deriveAeadSubkey masterKey salt) (firstNonce nonceSize)
      (framed plains) ∨ _ := wire_of_sent sink accepts plains nothing
  refine ⟨fun segments all => feed_of_sent nonempty wire all, ?_⟩
  intro inPipe ownSalt calls connected sameSize
  rw [← connected] at wire
  have receiving := receiving_of_sent source counts sameSize nonempty wire calls
  rcases receiving.returned_spec with ⟨isPrefix, whole⟩
  rw [flatten_framed] at isPrefix whole
  exact ⟨isPrefix, whole⟩

/-- Flushing. On a `tcp_pipe` it adds nothing to what is sent. On a `crypto_pipe` it adds
nothing, and the peer makes the data of the other sends of the stream, just if there is no
flush. -/
theorem flush_neutral_iff {K : Type} {kernel : Kernel K} {incoming accepted : K → List UInt8}
    (socket : kernel.Stream incoming accepted) (sink : Sink out taken)
    (accepts : ∀ pipe bytes, (out.send pipe (some bytes)).1 = .ok ∨
      (out.send pipe (some bytes)).1 = .bufferfull)
    (source : Source impl stream) (counts : 0 < nonceSize) {masterKey salt : List UInt8}
    (plains : List (List UInt8)) {outPipe : Q} (nothing : taken outPipe = []) :
    (∀ self : TcpPipe K, self.WellFormed →
      (self.send kernel (some [])).2.taken accepted = self.taken accepted) ∧
    let sender := CryptoPipe.create (aeadCryptor aead nonceSize) outPipe deriveAeadSubkey
      masterKey salt
    (sender.FlushNeutral out taken aead nonceSize plains ∧
      Decodes impl stream aead nonceSize deriveAeadSubkey masterKey salt
        ((sender.sendAll out (aeadCryptor aead nonceSize) plains).below taken)
          plains.flatten) ↔
      [] ∉ plains := by
  refine ⟨fun self wellFormed => self.flush_neutral socket wellFormed.outbuf, ?_⟩
  have created : Sending taken aead nonceSize (deriveAeadSubkey masterKey salt) salt []
      (.create (aeadCryptor aead nonceSize) outPipe deriveAeadSubkey masterKey salt) :=
    sending_create nothing
  have neutral := CryptoPipe.flushNeutral_iff sink accepts created plains
  constructor
  · rintro ⟨unchanged, -⟩
    exact neutral.mp unchanged
  · intro nonempty
    exact ⟨neutral.mpr nonempty, decodes_of_sent sink accepts source counts nonempty nothing⟩

theorem flush_neutral_memory :
    (plainSender []).FlushNeutral memoryPipe MemoryPipe.outgoing (gcm fun _ => .plain) 12
        [[1, 2, 3], [4]] ∧
      Decodes memoryPipe MemoryPipe.stream (gcm fun _ => .plain) 12 (fun _ _ => []) [] [1, 2]
        ((plainSender [[1, 2, 3], [4]]).below MemoryPipe.outgoing) [1, 2, 3, 4] :=
  (flush_neutral_iff stream_memorySocket sink_memoryPipe (fun _ _ => Or.inl rfl)
    source_memoryPipe (show 0 < 12 by decide) [[1, 2, 3], [4]] rfl).2.mpr (by decide)

/-- A byte sent and a flush: 34 bytes more go out. -/
theorem stream_of_flush :
    ((plainSender [[1], []]).outgoing MemoryPipe.outgoing).length =
        ((plainSender [[1]]).outgoing MemoryPipe.outgoing).length + 34 ∧
      ¬(plainSender []).FlushNeutral memoryPipe MemoryPipe.outgoing (gcm fun _ => .plain) 12
        [[1], []] := by
  refine ⟨by decide, fun neutral => ?_⟩
  have same := congrArg List.length (neutral [[1]] [] rfl)
  revert same
  decide

end

end Imconee.Shadowsocks
