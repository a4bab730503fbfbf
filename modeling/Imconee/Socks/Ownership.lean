import Imconee.Socks.Gate
import Imconee.Socks.Parsing

/-!
# Who owns an accepted pipe

`on_pipe` passes a raw pipe on, to which nobody holds a reference. Only `worker` takes one,
so that a handshake which returns before it leaves the pipe, and its socket, to nobody. What
a client has to send for that not to happen is spelt out.
-/

set_option autoImplicit false

namespace Imconee.Socks

open Lib Netkit Dialogue

/-! ### References -/

/-- The references to a pipe, and what has become of it. -/
structure Refs where
  count : ℕ := 0
  deleted : Bool := false
  bridged : Bool := false

namespace Refs

/-- `pipe_ptr p(pipe)` -/
def addRef (self : Refs) : Refs := { self with count := self.count + 1 }

/-- The end of a `pipe_ptr`. Without references the pipe is deleted, which closes it. -/
def decRef (self : Refs) : Refs :=
  { self with count := self.count - 1, deleted := self.count = 1 }

/-- What `worker` does with the raw pipe. The reference is moved into `bridge`, or ends. -/
def worker (connected : Bool) (self : Refs) : Refs :=
  if connected then { self.addRef with bridged := true } else self.addRef.decRef

/-- Somebody is responsible for the pipe, or it is gone. -/
def Accounted (self : Refs) : Prop := self.deleted = true ∨ self.bridged = true ∧ 0 < self.count

end Refs

/-- The references to a new pipe when the handshake has returned. -/
def refsOf : Option (Endpoint × Bool) → Refs
  | none => {}
  | some asked => ({} : Refs).worker asked.2

theorem accounted_refsOf (asked : Option (Endpoint × Bool)) :
    (refsOf asked).Accounted ↔ asked ≠ none := by
  rcases asked with _ | ⟨ep, _ | _⟩
  · simp [refsOf, Refs.Accounted]
  · simp [refsOf, Refs.worker, Refs.addRef, Refs.decRef, Refs.Accounted]
  · simp [refsOf, Refs.worker, Refs.addRef, Refs.Accounted]

/-! ### Clients -/

/-- A client: what it sends before the end of the stream, and which of the sends to it are
taken. -/
structure Client where
  stream : List UInt8
  taken : List Bool := []

/-- The pipe to a client. A read behind the end of the stream closes it. -/
def clientPipe : PipeImpl Client where
  send c _ := (if c.taken.headD true then .ok else .fail, { c with taken := c.taken.tail })
  recv c size :=
    if 0 ≤ size ∨ size.natAbs ≤ c.stream.length then
      (.data (c.stream.take size.natAbs), { c with stream := c.stream.drop size.natAbs })
    else (.failed, { c with stream := [] })
  getWaitable c := (some {}, c)
  setWaitable c _ := c

theorem concludes_client {α : Type} (d : Dialogue α) (c : Client) :
    ∃ result, conclude clientPipe d c = some result := by
  induction d generalizing c with
  | value a => exact ⟨_, rfl⟩
  | quit => exact ⟨_, rfl⟩
  | receive size next ih =>
      rw [conclude]
      dsimp only [clientPipe]
      by_cases there : 0 ≤ size ∨ size.natAbs ≤ c.stream.length
      · rw [if_pos there]
        exact ih _ _
      · rw [if_neg there]
        exact ih _ _
  | send bytes next ih =>
      rw [conclude]
      dsimp only [clientPipe]
      cases c.taken.headD true with
      | true => exact ih _ _
      | false => exact ih _ _

namespace Client

variable {α β : Type} {f : List UInt8 → Dialogue β}

/-- A dialogue with the client comes to a value. -/
def Completes (c : Client) (d : Dialogue α) : Prop :=
  ∃ a last, conclude clientPipe d c = some (some a, last)

theorem completes_value (c : Client) (a : α) : c.Completes (value a) := ⟨a, c, rfl⟩

theorem not_completes_quit (c : Client) : ¬c.Completes (quit : Dialogue α) := by
  rintro ⟨a, last, ends⟩
  cases ends

theorem completes_tryRead (c : Client) (count : ℕ) (f : Option (List UInt8) → Dialogue β) :
    c.Completes (tryRead count >>= f) ↔
      if count ≤ c.stream.length then
        { c with stream := c.stream.drop count : Client }.Completes (f (some (c.stream.take count)))
      else { c with stream := [] : Client }.Completes (f none) := by
  rw [Completes]
  change (∃ a last, conclude clientPipe (.receive (-(count : ℤ)) f) c = _) ↔ _
  rw [conclude]
  dsimp only [clientPipe]
  rw [Int.natAbs_neg, Int.natAbs_natCast]
  by_cases there : count ≤ c.stream.length
  · rw [if_pos (Or.inr there), if_pos there]
    exact Iff.rfl
  · rw [if_neg (by omega), if_neg there]
    exact Iff.rfl

theorem completes_read (c : Client) (count : ℕ) (f : List UInt8 → Dialogue β) :
    c.Completes (Dialogue.read count >>= f) ↔
      ∃ bytes rest, c.stream = bytes ++ rest ∧ bytes.length = count ∧
        { c with stream := rest : Client }.Completes (f bytes) := by
  refine (c.completes_tryRead count _).trans ?_
  split
  · rename_i there
    dsimp only
    rw [if_pos (by rw [List.length_take]; omega)]
    constructor
    · intro completes
      refine ⟨_, _, (List.take_append_drop count _).symm, ?_, completes⟩
      rw [List.length_take]
      omega
    · rintro ⟨bytes, rest, whole, rfl, completes⟩
      rw [whole, List.take_left, List.drop_left]
      exact completes
  · rename_i ended
    constructor
    · exact fun completes => absurd completes (not_completes_quit _)
    · rintro ⟨bytes, rest, whole, rfl, -⟩
      rw [whole, List.length_append] at ended
      omega

theorem completes_tell (c : Client) (message : List UInt8) (f : Bool → Dialogue β) :
    c.Completes (tell message >>= f) ↔
      { c with taken := c.taken.tail : Client }.Completes (f (c.taken.headD true)) := by
  rw [Completes]
  change (∃ a last, conclude clientPipe (.send message f) c = _) ↔ _
  rw [conclude]
  dsimp only [clientPipe]
  cases c.taken.headD true with
  | true => exact Iff.rfl
  | false => exact Iff.rfl

end Client

/-! ### Clients that get through -/

/-- The name that the loop of `handshake4` has read, and the byte that has ended it. -/
structure EndsName (uid : List UInt8) (last : UInt8) : Prop where
  nonzero : 0 ∉ uid
  short : uid.length ≤ 256
  ended : last = 0 ∨ uid.length = 256

/-- How many bytes of an address stand behind its first one. -/
def addressRest (atyp first : UInt8) : ℕ :=
  match atyp with
  | 1 => 3
  | 3 => first.toNat
  | 4 => 15
  | _ => 0

/-- A client that sends a whole request which the handler accepts. Of the answers to it, the
one that names the method has to be taken. -/
inductive HandlerSocks.Serves (self : HandlerSocks) (c : Client) : Prop where
  | socks4 {port address rest : List UInt8} {last : UInt8} (allowed : self.allow4 = true)
      (stream : c.stream = 4 :: 1 :: (port ++ address ++ self.userid ++ last :: rest))
      (twoBytes : port.length = 2) (fourBytes : address.length = 4)
      (name : EndsName self.userid last)
  | socks5 {count rsv atyp first : UInt8} {methods auth more port rest : List UInt8}
      (allowed : self.allow5 = true)
      (stream : c.stream =
        5 :: count :: (methods ++ auth ++ [5, 1, rsv, atyp, first] ++ more ++ port ++ rest))
      (counted : methods.length = count.toNat) (passes : self.Passes methods auth)
      (told : c.taken.headD true = true) (address : more.length = addressRest atyp first)
      (twoBytes : port.length = 2)

variable {host : Host} {self : HandlerSocks} {c : Client} {β : Type}

namespace Client

theorem completes_byte (c : Client) (f : List UInt8 → Dialogue β) :
    c.Completes (Dialogue.read 1 >>= f) ↔ ∃ byte rest, c.stream = byte :: rest ∧
      { c with stream := rest : Client }.Completes (f [byte]) := by
  rw [completes_read]
  constructor
  · rintro ⟨bytes, rest, whole, long, completes⟩
    rcases List.length_eq_one_iff.mp long with ⟨byte, rfl⟩
    exact ⟨byte, rest, whole, completes⟩
  · rintro ⟨byte, rest, whole, completes⟩
    exact ⟨[byte], rest, whole, rfl, completes⟩

/-- The induction is on the fuel, of which there is enough for the longest name. -/
theorem completes_readUid {fuel : ℕ} {uid : List UInt8} (enough : 256 < fuel + uid.length)
    (short : uid.length ≤ 256) (nonzero : 0 ∉ uid) (c : Client) (f : List UInt8 → Dialogue β) :
    c.Completes (readUid fuel uid >>= f) ↔ ∃ more last rest, c.stream = more ++ last :: rest ∧
      EndsName (uid ++ more) last ∧
      { c with stream := rest : Client }.Completes (f (uid ++ more)) := by
  induction fuel generalizing uid c with
  | zero => omega
  | succ fuel ih =>
      rw [readUid, bind_assoc, completes_byte]
      constructor
      · rintro ⟨byte, rest, whole, completes⟩
        simp only [List.getD_cons_zero] at completes
        split at completes
        · rename_i ends
          refine ⟨[], byte, rest, whole, ⟨?_, ?_, ?_⟩, ?_⟩
          · rw [List.append_nil]
            exact nonzero
          · rw [List.append_nil]
            exact short
          · rw [List.append_nil]
            exact ends.imp_right fun long => by omega
          · rw [List.append_nil]
            exact completes
        · rename_i goesOn
          rw [not_or] at goesOn
          rw [ih (by simp; omega) (by simp; omega)
            (by simp [nonzero, Ne.symm goesOn.1])] at completes
          rcases completes with ⟨more, last, rest, rfl, name, completes⟩
          rw [List.append_assoc] at name completes
          exact ⟨byte :: more, last, rest, whole, name, completes⟩
      · rintro ⟨more, last, rest, whole, name, completes⟩
        cases more with
        | nil =>
            rw [List.append_nil] at name completes
            refine ⟨last, rest, whole, ?_⟩
            simp only [List.getD_cons_zero]
            rw [if_pos (name.ended.imp_right fun long => by omega)]
            exact completes
        | cons byte more =>
            have other : byte ≠ 0 := by
              rintro rfl
              exact name.nonzero (by simp)
            have room := name.short
            rw [List.length_append, List.length_cons] at room
            refine ⟨byte, more ++ last :: rest, whole, ?_⟩
            simp only [List.getD_cons_zero]
            rw [if_neg (not_or.mpr ⟨other, by omega⟩),
              ih (by simp; omega) (by simp; omega) (by simp [nonzero, Ne.symm other])]
            refine ⟨more, last, rest, rfl, ?_, ?_⟩
            · rw [List.append_assoc]
              exact name
            · rw [List.append_assoc]
              exact completes

theorem not_completes_refusal (c : Client) (message : List UInt8) :
    ¬c.Completes (tell message >>= fun _ => (quit : Dialogue β)) := by
  intro completes
  exact not_completes_quit _ ((completes_tell c message _).mp completes)

theorem completes_handshake4 (c : Client) : c.Completes (self.handshake4 host) ↔
    self.allow4 = true ∧ ∃ port address last rest,
      c.stream = 1 :: (port ++ address ++ self.userid ++ last :: rest) ∧ port.length = 2 ∧
        address.length = 4 ∧ EndsName self.userid last := by
  rw [HandlerSocks.handshake4]
  split
  · rename_i allowed
    rw [completes_read]
    constructor
    · rintro ⟨packet, rest, whole, seven, completes⟩
      split at completes
      · rename_i command
        rw [completes_readUid (by decide) (by decide) (by simp)] at completes
        rcases completes with ⟨uid, last, rest, rfl, name, completes⟩
        rw [List.nil_append] at name completes
        dsimp only at whole completes
        split at completes
        · rename_i same
          subst same
          rcases packet with _ | ⟨cd, others⟩
          · cases seven
          · have one : cd = 1 := command
            have six : others.length = 6 := Nat.succ.inj seven
            refine ⟨allowed, others.take 2, others.drop 2, last, rest, ?_, ?_, ?_, name⟩
            · rw [whole, one, List.take_append_drop, List.cons_append, List.append_assoc]
            · rw [List.length_take, six]
              rfl
            · rw [List.length_drop, six]
        · exact absurd completes (not_completes_refusal _ _)
      · exact absurd completes (not_completes_quit _)
    · rintro ⟨-, port, address, last, rest, whole, twoBytes, fourBytes, name⟩
      refine ⟨1 :: (port ++ address), self.userid ++ last :: rest, ?_, ?_, ?_⟩
      · rw [whole, List.cons_append, List.append_assoc (port ++ address)]
      · rw [List.length_cons, List.length_append, twoBytes, fourBytes]
      · rw [if_pos (by exact rfl), completes_readUid (by decide) (by decide) (by simp)]
        refine ⟨self.userid, last, rest, rfl, name, ?_⟩
        rw [List.nil_append, if_pos rfl]
        exact completes_value _ _
  · rename_i refused
    constructor
    · exact fun completes => absurd completes (not_completes_quit _)
    · exact fun allowed => absurd allowed.1 refused

theorem completes_negotiate (c : Client) (f : UInt8 → Dialogue β) :
    c.Completes (self.negotiate >>= f) ↔ ∃ count methods rest,
      c.stream = count :: (methods ++ rest) ∧ methods.length = count.toNat ∧
        c.taken.headD true = true ∧ self.selectMethod methods 0xff ≠ 0xff ∧
        (⟨rest, c.taken.tail⟩ : Client).Completes (f (self.selectMethod methods 0xff)) := by
  rw [HandlerSocks.negotiate, bind_assoc, completes_byte]
  constructor
  · rintro ⟨count, rest, whole, completes⟩
    rw [bind_assoc, completes_read] at completes
    rcases completes with ⟨methods, rest, rfl, counted, completes⟩
    rw [bind_assoc, completes_tell] at completes
    split at completes
    · rename_i agreed
      exact ⟨count, methods, rest, whole, counted, agreed.1, agreed.2, completes⟩
    · exact absurd completes (not_completes_quit _)
  · rintro ⟨count, methods, rest, whole, counted, taken, agreed, completes⟩
    refine ⟨count, methods ++ rest, whole, ?_⟩
    rw [bind_assoc, completes_read]
    refine ⟨methods, rest, rfl, counted, ?_⟩
    rw [bind_assoc, completes_tell, if_pos ⟨taken, agreed⟩]
    exact completes

theorem completes_authenticate (c : Client) (f : Unit → Dialogue β) :
    c.Completes (self.authenticate >>= f) ↔
      self.login.length ≤ 255 ∧ self.pass.length ≤ 255 ∧ ∃ rest,
        c.stream = [1] ++ pushs self.login ++ pushs self.pass ++ rest ∧
          (⟨rest, c.taken.tail⟩ : Client).Completes (f ()) := by
  rw [HandlerSocks.authenticate, bind_assoc, completes_read]
  constructor
  · rintro ⟨packet, rest, whole, two, completes⟩
    rcases List.length_eq_two.mp two with ⟨version, loginlen, rfl⟩
    simp only [List.getD_cons_zero, List.getD_cons_succ, Nat.add_sub_cancel_left] at completes
    split at completes
    · rename_i one
      subst one
      rw [bind_assoc, completes_read] at completes
      rcases completes with ⟨name, rest, rfl, long, completes⟩
      rw [bind_assoc, completes_read] at completes
      rcases completes with ⟨word, rest, rfl, longWord, completes⟩
      split at completes
      · rename_i same
        rw [bind_assoc, completes_tell] at completes
        rcases same with ⟨login, rfl⟩
        have whole' := eq_take_concat long
        rw [login] at whole'
        have loginLength : self.login.length = loginlen.toNat := by
          rw [← login, List.length_take]
          omega
        have small := loginlen.toNat_lt
        have small' := (name.getD loginlen.toNat 0).toNat_lt
        refine ⟨by omega, by omega, rest, ?_, completes⟩
        rw [pushs, pushs, loginLength, longWord, UInt8.ofNat_toNat, UInt8.ofNat_toNat, whole]
        nth_rewrite 1 [whole']
        simp
      · exact absurd completes (not_completes_refusal _ _)
    · exact absurd completes (not_completes_quit _)
  · rintro ⟨shortLogin, shortPass, rest, whole, completes⟩
    have loginLength : (UInt8.ofNat self.login.length).toNat = self.login.length := by
      rw [UInt8.toNat_ofNat']
      omega
    have passLength : (UInt8.ofNat self.pass.length).toNat = self.pass.length := by
      rw [UInt8.toNat_ofNat']
      omega
    refine ⟨[1, UInt8.ofNat self.login.length], self.login ++
      (UInt8.ofNat self.pass.length :: (self.pass ++ rest)), ?_, rfl, ?_⟩
    · rw [whole]
      simp [pushs]
    · simp only [List.getD_cons_zero, List.getD_cons_succ, Nat.add_sub_cancel_left]
      rw [if_pos trivial, bind_assoc, completes_read]
      refine ⟨self.login ++ [UInt8.ofNat self.pass.length], self.pass ++ rest, by simp, ?_, ?_⟩
      · rw [List.length_append, List.length_singleton, loginLength]
        omega
      · rw [bind_assoc, completes_read]
        refine ⟨self.pass, rest, rfl, ?_, ?_⟩
        · rw [loginLength]
          simp [passLength]
        · rw [loginLength, List.take_left, if_pos ⟨rfl, rfl⟩, bind_assoc, completes_tell]
          exact completes

/-- What is behind the address does not depend on it. -/
theorem completes_readAddress (c : Client) (packet : List UInt8) {f : Endpoint → Dialogue β}
    {after : Client → Prop} (ends : ∀ c ep, Completes c (f ep) ↔ after c) :
    c.Completes (readAddress host packet >>= f) ↔ ∃ more rest, c.stream = more ++ rest ∧
      more.length = addressRest (packet.getD 3 0) (packet.getD 4 0) ∧
        after { c with stream := rest } := by
  have reads (count : ℕ) (g : List UInt8 → Endpoint) :
      c.Completes ((Dialogue.read count >>= fun more => value (g more)) >>= f) ↔
        ∃ more rest, c.stream = more ++ rest ∧ more.length = count ∧
          after { c with stream := rest } := by
    rw [bind_assoc, completes_read]
    constructor
    · rintro ⟨more, rest, whole, long, completes⟩
      exact ⟨more, rest, whole, long, (ends _ _).mp completes⟩
    · rintro ⟨more, rest, whole, long, completes⟩
      exact ⟨more, rest, whole, long, (ends _ _).mpr completes⟩
  rw [readAddress]
  generalize packet.getD 3 0 = atyp
  split
  · exact reads 3 _
  · exact reads _ _
  · exact reads 15 _
  · rename_i notIp4 notDomain notIp6
    have none : addressRest atyp (packet.getD 4 0) = 0 := by
      unfold addressRest
      split
      · exact (notIp4 rfl).elim
      · exact (notDomain rfl).elim
      · exact (notIp6 rfl).elim
      · rfl
    rw [none]
    constructor
    · intro completes
      exact ⟨[], c.stream, rfl, rfl, (ends _ _).mp completes⟩
    · rintro ⟨more, rest, whole, nothing, completes⟩
      rw [List.length_eq_zero_iff.mp nothing, List.nil_append] at whole
      rw [← whole] at completes
      exact (ends _ _).mpr completes

theorem completes_request5 (c : Client) : c.Completes (request5 host) ↔
    ∃ rsv atyp first more port rest,
      c.stream = [5, 1, rsv, atyp, first] ++ more ++ port ++ rest ∧
        more.length = addressRest atyp first ∧ port.length = 2 := by
  have behind (c : Client) (ep : Endpoint) : c.Completes (Dialogue.read 2 >>= fun packet =>
      let port := portOf (packet.getD 0 0) (packet.getD 1 0)
      (value {
        inf := ep.setPort port
        answ ec := stored (stores5 host port (ep.setPort port) ec) 10 } : Dialogue Call)) ↔
        ∃ port rest, c.stream = port ++ rest ∧ port.length = 2 := by
    rw [completes_read]
    constructor
    · rintro ⟨port, rest, whole, two, -⟩
      exact ⟨port, rest, whole, two⟩
    · rintro ⟨port, rest, whole, two⟩
      exact ⟨port, rest, whole, two, completes_value _ _⟩
  rw [request5, completes_tryRead]
  constructor
  · intro completes
    split at completes
    · rename_i there
      dsimp only at completes
      split at completes
      · rename_i version
        split at completes
        · rename_i command
          rcases (completes_readAddress _ _ behind).mp completes with
            ⟨more, others, whole, address, port, rest, rfl, twoBytes⟩
          have five : (c.stream.take 5).length = 5 := version.1
          generalize packet : c.stream.take 5 = front at five version command address
          rcases front with _ | ⟨ver, _ | ⟨cmd, _ | ⟨rsv, _ | ⟨atyp, _ | ⟨first, others⟩⟩⟩⟩⟩
          case cons.cons.cons.cons.cons =>
            simp only [List.length_cons] at five
            have nothing : others = [] := List.length_eq_zero_iff.mp (by omega)
            have start : ver = 5 := version.2
            have one : cmd = 1 := command
            subst nothing start one
            refine ⟨rsv, atyp, first, more, port, rest, ?_, address, twoBytes⟩
            dsimp only at whole
            rw [← List.take_append_drop 5 c.stream, packet, whole]
            simp
          all_goals simp at five
        · exact absurd completes (not_completes_refusal _ _)
      · exact absurd completes (not_completes_refusal _ _)
    · exact absurd completes (not_completes_refusal _ _)
  · rintro ⟨rsv, atyp, first, more, port, rest, whole, address, twoBytes⟩
    have front : c.stream.take 5 = [5, 1, rsv, atyp, first] := by
      rw [whole, List.append_assoc, List.append_assoc]
      rfl
    have behindIt : c.stream.drop 5 = more ++ (port ++ rest) := by
      rw [whole, List.append_assoc, List.append_assoc]
      rfl
    rw [if_pos (by rw [whole]; simp), front, behindIt]
    dsimp only
    rw [if_pos ⟨rfl, rfl⟩, if_pos (by exact rfl)]
    apply (completes_readAddress _ _ behind).mpr
    exact ⟨more, port ++ rest, rfl, address, port, rest, rfl, twoBytes⟩

theorem completes_afterMethod (c : Client) {methods : List UInt8}
    (agreed : self.selectMethod methods 0xff ≠ 0xff) :
    c.Completes (afterMethod self host (self.selectMethod methods 0xff)) ↔
      ∃ auth rest taken, c.stream = auth ++ rest ∧ self.Passes methods auth ∧
        (⟨rest, taken⟩ : Client).Completes (request5 host) := by
  rw [afterMethod]
  split
  · rename_i picked
    rw [completes_authenticate]
    constructor
    · rintro ⟨login, pass, rest, whole, completes⟩
      exact ⟨_, rest, _, whole, .password picked login pass, completes⟩
    · rintro ⟨auth, rest, taken, whole, passes, completes⟩
      cases passes with
      | anonymous free =>
          rw [free] at picked
          cases picked
      | password picked login pass =>
          refine ⟨login, pass, rest, whole, ?_⟩
          rw [completes_request5] at completes ⊢
          exact completes
  · rename_i other
    have free : self.selectMethod methods 0xff = 0 := by
      rcases selectMethod_cases methods agreed with ⟨free, -⟩ | ⟨picked, -⟩
      · exact free
      · exact absurd picked other
    constructor
    · exact fun completes => ⟨[], c.stream, c.taken, rfl, .anonymous free, completes⟩
    · rintro ⟨auth, rest, taken, whole, passes, completes⟩
      cases passes with
      | anonymous free =>
          rw [List.nil_append] at whole
          subst whole
          rw [completes_request5] at completes ⊢
          exact completes
      | password picked login pass => exact absurd picked other

theorem completes_handshake5 (c : Client) : c.Completes (self.handshake5 host) ↔
    self.allow5 = true ∧ c.taken.headD true = true ∧
      ∃ count methods auth rsv atyp first more port rest,
        c.stream = count :: (methods ++ auth ++ [5, 1, rsv, atyp, first] ++ more ++ port ++ rest) ∧
          methods.length = count.toNat ∧ self.Passes methods auth ∧
          more.length = addressRest atyp first ∧ port.length = 2 := by
  rw [HandlerSocks.handshake5]
  split
  · rename_i allowed
    refine Iff.trans (completes_negotiate c (afterMethod self host)) ?_
    constructor
    · rintro ⟨count, methods, rest, whole, counted, told, agreed, completes⟩
      rcases (completes_afterMethod _ agreed).mp completes with
        ⟨auth, rest, taken, rfl, passes, completes⟩
      rcases (completes_request5 _).mp completes with
        ⟨rsv, atyp, first, more, port, rest, rfl, address, twoBytes⟩
      refine ⟨allowed, told, count, methods, auth, rsv, atyp, first, more, port, rest, ?_, counted,
        passes, address, twoBytes⟩
      rw [whole]
      simp
    · rintro ⟨-, told, count, methods, auth, rsv, atyp, first, more, port, rest, whole, counted,
        passes, address, twoBytes⟩
      have agreed : self.selectMethod methods 0xff ≠ 0xff := by
        cases passes with
        | anonymous picked =>
            rw [picked]
            decide
        | password picked login pass =>
            rw [picked]
            decide
      refine ⟨count, methods, auth ++ ([5, 1, rsv, atyp, first] ++ more ++ port ++ rest), ?_,
        counted, told, agreed, ?_⟩
      · rw [whole]
        simp
      · apply (completes_afterMethod _ agreed).mpr
        refine ⟨auth, _, c.taken, rfl, passes, ?_⟩
        apply (completes_request5 _).mpr
        exact ⟨rsv, atyp, first, more, port, rest, rfl, address, twoBytes⟩
  · rename_i refused
    constructor
    · exact fun completes => absurd completes (not_completes_quit _)
    · exact fun allowed => absurd allowed.1 refused

theorem completes_handshake (c : Client) : c.Completes (self.handshake host) ↔ self.Serves c := by
  rw [HandlerSocks.handshake, completes_byte]
  constructor
  · rintro ⟨version, others, whole, completes⟩
    simp only [List.getD_cons_zero] at completes
    split at completes
    · rename_i four
      rcases (completes_handshake4 _).mp completes with
        ⟨allowed, port, address, last, rest, stream, twoBytes, fourBytes, name⟩
      dsimp only at stream
      exact .socks4 allowed (by rw [whole, four, stream]) twoBytes fourBytes name
    · split at completes
      · rename_i five
        rcases (completes_handshake5 _).mp completes with
          ⟨allowed, told, count, methods, auth, rsv, atyp, first, more, port, rest, stream, counted,
            passes, address, twoBytes⟩
        dsimp only at stream
        exact .socks5 allowed (by rw [whole, five, stream]) counted passes told address twoBytes
      · exact absurd completes (not_completes_quit _)
  · intro served
    cases served with
    | socks4 allowed stream twoBytes fourBytes name =>
        refine ⟨4, _, stream, ?_⟩
        rw [if_pos (by exact rfl)]
        apply (completes_handshake4 _).mpr
        exact ⟨allowed, _, _, _, _, rfl, twoBytes, fourBytes, name⟩
    | socks5 allowed stream counted passes told address twoBytes =>
        refine ⟨5, _, stream, ?_⟩
        rw [if_neg (show ¬([5] : List UInt8).getD 0 0 = 4 by decide), if_pos (by exact rfl)]
        apply (completes_handshake5 _).mpr
        exact ⟨allowed, told, _, _, _, _, _, _, _, _, _, rfl, counted, passes, address, twoBytes⟩

end Client

/-! ### The pipe behind the handshake -/

/-- When the handshake has returned, the pipe has been released or handed to `bridge`. -/
def Kept (self : HandlerSocks) (host : Host) (connect : Endpoint → Bool) (c : Client) : Prop :=
  ∃ asked last, conclude clientPipe (self.handshake host >>= worker connect) c =
    some (asked, last) ∧ (refsOf asked).Accounted

theorem kept_iff_completes {connect : Endpoint → Bool} :
    Kept self host connect c ↔ c.Completes (self.handshake host) := by
  rw [Kept, Client.Completes]
  simp only [conclude_bind, accounted_refsOf]
  constructor
  · rintro ⟨asked, last, ends, some⟩
    split at ends
    · rename_i call pipe concluded
      exact ⟨call, pipe, concluded⟩
    · cases ends
      exact absurd rfl some
    · cases ends
  · rintro ⟨call, pipe, concluded⟩
    rw [concluded]
    dsimp only
    rw [worker]
    split
    · rename_i connected
      have tells := (Client.completes_tell pipe (call.answ .granted)
        fun _ => value (call.inf, true)).mpr (Client.completes_value _ _)
      rcases tells with ⟨asked, last, ends⟩
      exact ⟨some asked, last, ends, Option.some_ne_none _⟩
    · rename_i refused
      have tells := (Client.completes_tell pipe (call.answ .remoteHostUnrch)
        fun _ => value (call.inf, false)).mpr (Client.completes_value _ _)
      rcases tells with ⟨asked, last, ends⟩
      exact ⟨some asked, last, ends, Option.some_ne_none _⟩

/-- The pipe is only kept from leaking by clients that send a whole request which the handler
accepts. -/
theorem kept_iff (self : HandlerSocks) (host : Host) (connect : Endpoint → Bool) (c : Client) :
    Kept self host connect c ↔ self.Serves c := by
  rw [kept_iff_completes]
  exact c.completes_handshake

/-- A client that connects and sends nothing before the end of the stream. -/
theorem not_kept_silent : ¬Kept {} {} (fun _ => true) { stream := [] } := by
  rw [kept_iff_completes]
  rintro ⟨call, last, ends⟩
  cases ends

end Imconee.Socks
