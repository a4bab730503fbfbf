import Imconee.Netkit.Conversation
import Imconee.Socks.Handler

/-!
# Who gets through

Whatever a client sends, `worker` is only called behind a request that the configuration
admits. Each part of the handshakes is looked at on its own: what it has read when it comes
to a value.
-/

set_option autoImplicit false

namespace Imconee.Socks

open Lib Netkit Dialogue

namespace HandlerSocks

variable (self : HandlerSocks)

/-- What follows the methods that a client offers: nothing, or a message with exactly the
name and the password. -/
inductive Authenticated (methods : List UInt8) : List UInt8 → Prop where
  | anonymous (allowed : self.socks5AllowAnon = true) (offered : 0 ∈ methods) :
      Authenticated methods []
  | password {loginlen passlen : UInt8} (needed : self.login ≠ []) (offered : 2 ∈ methods)
      (login : self.login.length = loginlen.toNat) (pass : self.pass.length = passlen.toNat) :
      Authenticated methods (1 :: loginlen :: (self.login ++ passlen :: self.pass))

/-- The beginning of a stream that is admitted. -/
inductive Admitted : List UInt8 → Prop where
  | socks4 {port address : List UInt8} (allowed : self.allow4 = true) (twoBytes : port.length = 2)
      (fourBytes : address.length = 4) (name : 0 ∉ self.userid) :
      Admitted (4 :: 1 :: (port ++ address ++ self.userid ++ [0]))
  | socks5 {count : UInt8} {methods auth request : List UInt8} (allowed : self.allow5 = true)
      (counted : methods.length = count.toNat) (authenticated : self.Authenticated methods auth) :
      Admitted (5 :: count :: (methods ++ auth ++ 5 :: 1 :: request))

end HandlerSocks

variable {host : Host} {bytes : List UInt8}

theorem not_reads_failAnswer {α : Type} {code : UInt8} {a : α} :
    ¬Reads (failAnswer code) bytes a := by
  intro reads
  rcases reads_bind reads with ⟨first, second, taken, rfl, told, ends⟩
  exact not_reads_quit ends

/-- One byte, which is the head of what has been read. -/
theorem reads_byte {packet : List UInt8} (reads : Reads (read 1) bytes packet) :
    bytes = [packet.getD 0 0] := by
  rcases reads_read reads with ⟨rfl, long⟩
  rcases List.length_eq_one_iff.mp long with ⟨byte, rfl⟩
  rfl

theorem reads_readUid {fuel : ℕ} {uid result : List UInt8}
    (reads : Reads (readUid fuel uid) bytes result) :
    ∃ more last, result = uid ++ more ∧ bytes = more ++ [last] ∧ 0 ∉ more ∧
      (last = 0 ∨ 255 < result.length) := by
  induction fuel generalizing uid bytes with
  | zero => exact absurd reads not_reads_quit
  | succ fuel ih =>
      rcases reads_bind reads with ⟨first, second, packet, rfl, byte, rest⟩
      rw [reads_byte byte]
      dsimp only at rest
      split at rest
      · rename_i ends
        rcases reads_value rest with ⟨rfl, rfl⟩
        exact ⟨[], packet.getD 0 0, by simp, rfl, by simp, ends⟩
      · rename_i goesOn
        rcases ih rest with ⟨more, last, rfl, rfl, nonzero, ends⟩
        refine ⟨packet.getD 0 0 :: more, last, by simp, rfl, ?_, ends⟩
        intro zero
        rcases List.mem_cons.mp zero with zero | zero
        · exact goesOn (Or.inl zero.symm)
        · exact nonzero zero

variable {self : HandlerSocks}

theorem reads_handshake4 (short : self.userid.length ≤ 255) {call : Call}
    (reads : Reads (self.handshake4 host) bytes call) : self.Admitted (4 :: bytes) := by
  simp only [HandlerSocks.handshake4] at reads
  split at reads
  · rename_i allowed
    rcases reads_bind reads with ⟨first, second, packet, rfl, seven, rest⟩
    rcases reads_read seven with ⟨rfl, long⟩
    split at rest
    · rename_i command
      rcases reads_bind rest with ⟨name, nothing, uid, rfl, named, ends⟩
      rcases reads_readUid named with ⟨more, last, rfl, rfl, nonzero, ended⟩
      split at ends
      · rename_i same
        have zero : last = 0 := ended.resolve_right (by rw [same]; omega)
        rw [(reads_value ends).1, same, zero, List.append_nil]
        cases first with
        | nil => cases long
        | cons cd others =>
            have start : cd = 1 := command
            have six : others.length = 6 := Nat.succ.inj long
            rw [start]
            have admitted := @HandlerSocks.Admitted.socks4 self (others.take 2) (others.drop 2)
              allowed (by simp [six]) (by simp [six]) (same ▸ nonzero)
            simpa using admitted
      · rcases reads_bind ends with ⟨_, _, taken, _, told, ends⟩
        exact absurd ends not_reads_quit
    · exact absurd rest not_reads_quit
  · exact absurd reads not_reads_quit

theorem selectMethod_cases (methods : List UInt8) {rauth : UInt8}
    (other : self.selectMethod methods rauth ≠ rauth) :
    (self.selectMethod methods rauth = 0 ∧ self.socks5AllowAnon = true ∧ 0 ∈ methods) ∨
      self.selectMethod methods rauth = 2 ∧ self.login ≠ [] ∧ 2 ∈ methods := by
  have weaken : ∀ {method : UInt8} {rest : List UInt8} {result : UInt8},
      (result = 0 ∧ self.socks5AllowAnon = true ∧ 0 ∈ rest) ∨
        result = 2 ∧ self.login ≠ [] ∧ 2 ∈ rest →
      (result = 0 ∧ self.socks5AllowAnon = true ∧ 0 ∈ method :: rest) ∨
        result = 2 ∧ self.login ≠ [] ∧ 2 ∈ method :: rest := by
    intro method rest result picked
    rcases picked with ⟨zero, allowed, offered⟩ | ⟨two, needed, offered⟩
    · exact Or.inl ⟨zero, allowed, List.mem_cons_of_mem _ offered⟩
    · exact Or.inr ⟨two, needed, List.mem_cons_of_mem _ offered⟩
  induction methods generalizing rauth with
  | nil => exact absurd rfl other
  | cons method rest ih =>
      rw [HandlerSocks.selectMethod] at other ⊢
      split at other
      · exact absurd rfl other
      · rename_i more
        rw [if_neg more]
        split at other
        · rename_i anonymous
          rw [if_pos anonymous]
          by_cases stays : self.selectMethod rest 0 = 0
          · exact Or.inl ⟨stays, anonymous.2.1, by simp [anonymous.1]⟩
          · exact weaken (ih stays)
        · rename_i known
          rw [if_neg known]
          split at other
          · rename_i password
            rw [if_pos password]
            by_cases stays : self.selectMethod rest 2 = 2
            · exact Or.inr ⟨stays, password.2.1, by simp [password.1]⟩
            · exact weaken (ih stays)
          · rename_i unknown
            rw [if_neg unknown]
            exact weaken (ih other)

theorem reads_negotiate {rauth : UInt8} (reads : Reads self.negotiate bytes rauth) :
    ∃ count methods, bytes = count :: methods ∧ methods.length = count.toNat ∧
      ((rauth = 0 ∧ self.socks5AllowAnon = true ∧ 0 ∈ methods) ∨
        rauth = 2 ∧ self.login ≠ [] ∧ 2 ∈ methods) := by
  rcases reads_bind reads with ⟨first, second, packet, rfl, count, rest⟩
  rcases reads_bind rest with ⟨methods, nothing, packet', rfl, offered, rest⟩
  rcases reads_read offered with ⟨rfl, counted⟩
  rcases reads_bind rest with ⟨silent, nothing, taken, rfl, told, rest⟩
  rw [reads_byte count, reads_tell told]
  split at rest
  · rename_i agreed
    rcases reads_value rest with ⟨rfl, rfl⟩
    refine ⟨packet.getD 0 0, methods, by simp, counted, ?_⟩
    exact selectMethod_cases methods agreed.2
  · exact absurd rest not_reads_quit

/-- The length of the password stands behind the name. -/
theorem eq_take_concat {packet : List UInt8} {count : ℕ} (long : packet.length = 1 + count) :
    packet = packet.take count ++ [packet.getD count 0] := by
  have inside : count < packet.length := by omega
  rw [← List.getElem_eq_getD (h := inside) 0, List.take_append_getElem, List.take_of_length_le]
  omega

theorem reads_authenticate {done : Unit} (reads : Reads self.authenticate bytes done) :
    ∃ loginlen passlen : UInt8, self.login.length = loginlen.toNat ∧
      self.pass.length = passlen.toNat ∧
      bytes = 1 :: loginlen :: (self.login ++ passlen :: self.pass) := by
  rcases reads_bind reads with ⟨first, second, packet, rfl, two, rest⟩
  rcases reads_read two with ⟨rfl, long⟩
  split at rest
  · rename_i version
    rcases reads_bind rest with ⟨name, others, packet', rfl, named, rest⟩
    rcases reads_read named with ⟨rfl, longName⟩
    rcases reads_bind rest with ⟨word, nothing, rpass, rfl, worded, rest⟩
    rcases reads_read worded with ⟨rfl, longWord⟩
    split at rest
    · rename_i same
      rcases reads_bind rest with ⟨silent, nothing', taken, rfl, told, ends⟩
      rw [reads_tell told, (reads_value ends).1]
      rcases List.length_eq_two.mp long with ⟨vn, loginlen, rfl⟩
      have start : vn = 1 := version
      have whole := eq_take_concat longName
      rcases same with ⟨sameLogin, samePass⟩
      simp only [List.getD_cons_succ, List.getD_cons_zero] at whole longName
      simp only [List.getD_cons_succ, List.getD_cons_zero, Nat.add_sub_cancel_left] at sameLogin
      simp only [List.getD_cons_succ, List.getD_cons_zero, Nat.add_sub_cancel_left] at longWord
      refine ⟨loginlen, name.getD loginlen.toNat 0, ?_, ?_, ?_⟩
      · rw [← sameLogin, List.length_take, longName]
        omega
      · rw [← samePass, longWord]
      · rw [← sameLogin, ← samePass, start]
        nth_rewrite 1 [whole]
        simp
    · rcases reads_bind rest with ⟨_, _, taken, _, told, ends⟩
      exact absurd ends not_reads_quit
  · exact absurd rest not_reads_quit

theorem reads_request5 {call : Call} (reads : Reads (request5 host) bytes call) :
    ∃ request, bytes = 5 :: 1 :: request := by
  rcases reads_bind reads with ⟨first, second, received, rfl, asks, rest⟩
  rcases reads_tryRead asks with ⟨rfl, long⟩ | ⟨rfl, -⟩
  · dsimp only at rest
    split at rest
    · rename_i version
      split at rest
      · rename_i command
        rcases version with ⟨five, version⟩
        cases first with
        | nil => cases five
        | cons ver others =>
            cases others with
            | nil => cases five
            | cons cmd others =>
                have start : ver = 5 ∧ cmd = 1 := ⟨version, command⟩
                rw [start.1, start.2]
                exact ⟨others ++ second, rfl⟩
      · exact absurd rest not_reads_failAnswer
    · exact absurd rest not_reads_failAnswer
  · exact absurd rest not_reads_failAnswer

theorem reads_handshake5 {call : Call}
    (reads : Reads (self.handshake5 host) bytes call) : self.Admitted (5 :: bytes) := by
  simp only [HandlerSocks.handshake5] at reads
  split at reads
  · rename_i allowed
    rcases reads_bind reads with ⟨first, second, rauth, rfl, negotiated, rest⟩
    rcases reads_negotiate negotiated with ⟨count, methods, rfl, counted, agreed⟩
    split at rest
    · rename_i password
      rcases reads_bind rest with ⟨auth, request, done, rfl, checked, rest⟩
      rcases reads_request5 rest with ⟨request, rfl⟩
      rcases reads_authenticate checked with ⟨loginlen, passlen, login, pass, rfl⟩
      have needed : self.login ≠ [] ∧ 2 ∈ methods := by
        rcases agreed with ⟨zero, -⟩ | ⟨-, needed⟩
        · rw [password] at zero
          cases zero
        · exact needed
      have admitted := @HandlerSocks.Admitted.socks5 self count methods _ request allowed counted
        (.password needed.1 needed.2 login pass)
      simpa using admitted
    · rename_i anonymous
      rcases reads_request5 rest with ⟨request, rfl⟩
      have free : self.socks5AllowAnon = true ∧ 0 ∈ methods := by
        rcases agreed with ⟨-, free⟩ | ⟨two, -⟩
        · exact free
        · exact absurd two anonymous
      have admitted := @HandlerSocks.Admitted.socks5 self count methods _ request allowed counted
        (.anonymous free.1 free.2)
      simpa using admitted
  · exact absurd reads not_reads_quit

theorem reads_handshake (short : self.userid.length ≤ 255) {call : Call}
    (reads : Reads (self.handshake host) bytes call) : self.Admitted bytes := by
  rcases reads_bind reads with ⟨first, second, packet, rfl, byte, rest⟩
  rw [reads_byte byte]
  split at rest
  · rename_i version
    rw [version]
    exact reads_handshake4 short rest
  · split at rest
    · rename_i version
      rw [version]
      exact reads_handshake5 rest
    · exact absurd rest not_reads_quit

/-- Over any pipe that hands the stream of a client over in order, in whatever pieces, the
handshake only calls `worker` behind a beginning of the stream that is admitted. -/
theorem admitted_of_worker {P : Type} {impl : PipeImpl P} {stream : P → List UInt8}
    (source : Source impl stream) (apart : Apart impl stream)
    (short : self.userid.length ≤ 255) {pipe last : P} {call : Call}
    (reaches : converse impl (self.handshake host) pipe = (some call, last)) :
    ∃ bytes, self.Admitted bytes ∧ ∃ more, stream pipe = bytes ++ more := by
  rcases reads_of_converse source apart reaches with ⟨bytes, front, reads⟩
  exact ⟨bytes, reads_handshake short reads, front⟩

/-- A client that offers both methods, and the name and the password that are asked for. -/
def knownClient : MemoryPipe where
  incoming := [[5, 2, 0], [2, 1, 1, 97, 1, 98, 5], [1, 0, 1, 127, 0, 0, 1, 0, 80]]

theorem admitted_of_worker_known :
    ∃ bytes, ({ login := [97], pass := [98] } : HandlerSocks).Admitted bytes ∧
      ∃ more, knownClient.stream = bytes ++ more := by
  have reaches : converse memoryPipe (({ login := [97], pass := [98] } : HandlerSocks).handshake
      {}) knownClient = (some _, _) := rfl
  exact admitted_of_worker source_memoryPipe apart_memoryPipe (by decide) reaches

end Imconee.Socks
