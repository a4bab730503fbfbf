import Imconee.Lib.Duplex
import Imconee.Socks.Handler
import Imconee.Socks.Proxy

/-!
# A client and a server of this program

`proxy_socks5::prepare` at one end of a stream and `handler_socks::handshake` at the other
one. They take turns: each of the lemmas says what one of them makes of the last message of
the other one. Behind the handshake both ends send something through the tunnel, which shows
whether a byte of it has been taken for part of the handshake.
-/

set_option autoImplicit false

namespace Imconee.Socks

open Lib Netkit Dialogue

/-- The server admits a client with these credentials. -/
def Grants (self : HandlerSocks) (auth : List UInt8) : Prop :=
  (authpacket auth = [] ∧ self.socks5AllowAnon = true) ∨
    authpacket auth ≠ [] ∧ self.login ≠ [] ∧ credentials auth = (self.login, self.pass)

/-- An IPv4 address, or a name of at most 255 bytes; and a port. -/
structure Destination (addr : Endpoint) : Prop where
  known : addr.type ≠ .error
  port : addr.port ≠ 0
  name : addr.domain.length ≤ 255
  address : addr.domain = [] → addr.type = .tcpResolved ∧ addr.ip.v4 = true

/-- What the server makes of a destination. -/
def target (host : Host) (addr : Endpoint) : Endpoint :=
  if addr.domain = [] then { ip := addr.ip, type := .tcpResolved }
  else {
    domain := addr.domain
    ip := { Ipap.clear host.getipDef with port := addr.port }
    type := .tcpDomain }

section server

variable {self : HandlerSocks} {host client : Host}

theorem advances_negotiate {count : UInt8} {methods : List UInt8}
    (counted : methods.length = count.toNat) :
    Advances self.negotiate ([count] ++ (methods ++ []))
      ([5, self.selectMethod methods 0xff] ++ [])
      (if self.selectMethod methods 0xff = 0xff then quit
        else value (self.selectMethod methods 0xff)) := by
  refine .afterRead rfl (.afterRead counted (.afterTell ?_))
  by_cases refused : self.selectMethod methods 0xff = 0xff
  · rw [if_pos refused, if_neg fun both => both.2 refused]
    exact .here _
  · rw [if_neg refused, if_pos ⟨rfl, refused⟩]
    exact .here _

theorem advances_authenticate {user pwd : List UInt8} (shortUser : user.length ≤ 255)
    (shortPwd : pwd.length ≤ 255) :
    Advances self.authenticate ([1] ++ pushs user ++ pushs pwd)
      ((if user = self.login ∧ pwd = self.pass then [1, 0] else [1, 1]) ++ [])
      (if user = self.login ∧ pwd = self.pass then value () else quit) := by
  have userLength : (UInt8.ofNat user.length).toNat = user.length := by
    rw [UInt8.toNat_ofNat']
    omega
  have pwdLength : (UInt8.ofNat pwd.length).toNat = pwd.length := by
    rw [UInt8.toNat_ofNat']
    omega
  generalize named : UInt8.ofNat user.length = loginlen at userLength
  generalize worded : UInt8.ofNat pwd.length = passlen at pwdLength
  have message : [1] ++ pushs user ++ pushs pwd =
      [1, loginlen] ++ ((user ++ [passlen]) ++ (pwd ++ [])) := by
    simp [pushs, named, worded]
  have name : (user ++ [passlen]).take (1 + loginlen.toNat - 1) = user := by
    rw [Nat.add_sub_cancel_left, userLength, List.take_left]
  have word : (user ++ [passlen]).getD (1 + loginlen.toNat - 1) 0 = passlen := by
    rw [Nat.add_sub_cancel_left, userLength]
    simp
  rw [message]
  refine .afterRead rfl ?_
  simp only [List.getD_cons_zero, List.getD_cons_succ, ↓reduceIte]
  refine .afterRead (by rw [List.length_append, List.length_singleton]; omega) ?_
  rw [name, word]
  refine .afterRead pwdLength.symm ?_
  by_cases same : user = self.login ∧ pwd = self.pass
  · rw [if_pos same, if_pos same, if_pos same]
    exact .afterTell (.here _)
  · rw [if_neg same, if_neg same, if_neg same]
    exact .afterTell (.here _)

/-- The request for a destination, and what the server reads of it. -/
theorem advances_readAddress (v4 : host.getipDef.v4 = true) (clientV4 : client.getipDef.v4 = true)
    {addr : Endpoint} (destination : Destination addr) :
    ∃ code first rest,
      connectRequest client addr = [5, 1, 0, code, first] ++ (rest ++ (push16 addr.port ++ [])) ∧
      ∃ ep, Advances (readAddress host [5, 1, 0, code, first]) (rest ++ []) [] (value ep) ∧
        ep.setPort addr.port = target host addr := by
  rcases addr with ⟨domain, ⟨isV4, octets, port, size⟩, type⟩
  by_cases numeric : domain = []
  · rcases destination.address numeric with ⟨resolved, given⟩
    dsimp only at resolved given
    subst numeric resolved given
    rcases octets with _ | ⟨a, _ | ⟨b, _ | ⟨c, _ | ⟨d, _ | ⟨e, more⟩⟩⟩⟩⟩
    case cons.cons.cons.cons.nil =>
      have built : Ipap.build host.getipDef [a, b, c, d] 4 0 = ⟨true, [a, b, c, d], 0, rfl⟩ := by
        simp [Ipap.build, v4]
      have read : Advances (readAddress host [5, 1, 0, 1, a]) ([b, c, d] ++ []) []
          (value (Endpoint.setIpap { ip := .clear host.getipDef }
            (.build host.getipDef [a, b, c, d] 4 0))) :=
        .afterRead rfl (.here _)
      rw [built] at read
      refine ⟨1, a, [b, c, d], ?_, _, read, rfl⟩
      simp [connectRequest, Endpoint.getIp, clientV4, pgen, pushIp, push16, Endpoint.port]
    all_goals simp at size
  · have short := destination.name
    have length : domain.length = (UInt8.ofNat domain.length).toNat := by
      rw [UInt8.toNat_ofNat']
      dsimp only at short
      omega
    have read : Advances (readAddress host [5, 1, 0, 3, UInt8.ofNat domain.length])
        (domain ++ []) [] (value (Endpoint.setDomain { ip := .clear host.getipDef } domain)) :=
      .afterRead length (.here _)
    refine ⟨3, UInt8.ofNat domain.length, domain, ?_, _, read, ?_⟩
    · simp [connectRequest, numeric, pgen, pushs, push16, Endpoint.port]
    · simp [target, numeric, Endpoint.setPort, Endpoint.setDomain, Endpoint.port]

/-- What the server calls `worker` with. -/
def serverCall (host : Host) (addr : Endpoint) : Call where
  inf := target host addr
  answ ec := stored (stores5 host addr.port (target host addr) ec) 10

theorem advances_request5 (v4 : host.getipDef.v4 = true) (clientV4 : client.getipDef.v4 = true)
    {addr : Endpoint} (destination : Destination addr) :
    Advances (request5 host) (connectRequest client addr) [] (value (serverCall host addr)) := by
  rcases advances_readAddress v4 clientV4 destination with
    ⟨code, first, rest, message, ep, read, there⟩
  rw [message]
  refine .afterTryRead rfl ?_
  dsimp only
  rw [if_pos ⟨rfl, rfl⟩, if_pos (show [5, 1, 0, code, first].getD 1 0 = 1 from rfl)]
  rw [List.append_nil] at read
  refine read.andThen (.afterRead rfl ?_)
  rw [portOf_push16, there]
  exact .here _

/-- The rest of the server, once the method is agreed upon. -/
def afterMethod (self : HandlerSocks) (host : Host) (rauth : UInt8) : Dialogue Call :=
  if rauth = 2 then self.authenticate >>= fun _ => request5 host else request5 host

theorem advances_handshake (allow5 : self.allow5 = true) {count : UInt8} {methods : List UInt8}
    (counted : methods.length = count.toNat) :
    Advances (self.handshake host) ([5] ++ ([count] ++ (methods ++ [])))
      ([5, self.selectMethod methods 0xff] ++ [])
      (if self.selectMethod methods 0xff = 0xff then quit
        else afterMethod self host (self.selectMethod methods 0xff)) := by
  refine .afterRead rfl ?_
  have five : Advances (self.handshake5 host) ([count] ++ (methods ++ []))
      ([5, self.selectMethod methods 0xff] ++ [])
      (if self.selectMethod methods 0xff = 0xff then quit
        else afterMethod self host (self.selectMethod methods 0xff)) := by
    rw [HandlerSocks.handshake5, if_pos allow5]
    have chosen := (@advances_negotiate self count methods counted).bind
      fun rauth => afterMethod self host rauth
    split at chosen
    · rename_i refused
      rw [if_pos refused]
      exact chosen
    · rename_i agreed
      rw [if_neg agreed]
      exact chosen
  exact five

theorem advances_worker (connect : Endpoint → Bool) (call : Call) :
    Advances (worker connect call) []
      (call.answ (if connect call.inf then .granted else .remoteHostUnrch) ++ [])
      (value (call.inf, connect call.inf)) := by
  rw [worker]
  split
  · rename_i connected
    rw [connected]
    exact .afterTell (.here _)
  · rename_i refused
    rw [Bool.eq_false_iff.mpr refused]
    exact .afterTell (.here _)

end server

section client

variable {client host : Host} {auth : List UInt8} {addr : Endpoint}

theorem advances_prepare5 (destination : Destination addr) :
    Advances (prepare5 client auth addr) [] ([5, 1, method auth] ++ [])
      (readMethod client auth addr) := by
  rw [prepare5, if_neg (not_or.mpr ⟨destination.known, destination.port⟩)]
  exact .afterTell (.here _)

theorem quits_readMethod {rauth : UInt8} (other : rauth ≠ method auth) :
    Advances (readMethod client auth addr) ([5, rauth] ++ []) [] quit := by
  refine .afterRead rfl ?_
  rw [if_neg fun both => other both.2]
  exact .here _

theorem advances_sayRequest :
    Advances (sayRequest client addr) [] (connectRequest client addr ++ []) readAnswer :=
  .afterTell (.here _)

theorem advances_readMethod {rauth : UInt8} (same : rauth = method auth) :
    Advances (readMethod client auth addr) ([5, rauth] ++ [])
      (if authpacket auth = [] then connectRequest client addr ++ [] else authpacket auth ++ [])
      (if authpacket auth = [] then readAnswer else readPassed client addr) := by
  refine .afterRead rfl ?_
  rw [if_pos ⟨rfl, same⟩]
  by_cases anonymous : authpacket auth = []
  · rw [if_pos anonymous, if_pos anonymous, if_pos anonymous]
    exact advances_sayRequest
  · rw [if_neg anonymous, if_neg anonymous, if_neg anonymous]
    exact .afterTell (.here _)

theorem advances_readPassed :
    Advances (readPassed client addr) ([1, 0] ++ []) (connectRequest client addr ++ [])
      readAnswer := by
  refine .afterRead rfl ?_
  rw [if_pos (show ([1, 0] : List UInt8).getD 1 0 = 0 from rfl)]
  exact advances_sayRequest

theorem quits_readPassed : Advances (readPassed client addr) ([1, 1] ++ []) [] quit := by
  refine .afterRead rfl ?_
  rw [if_neg (show ¬([1, 1] : List UInt8).getD 1 0 = 0 by decide)]
  exact .here _

/-- The answer of a server, the address and the port apart. -/
theorem stored_stores5 (host : Host) (port : UInt16) (ep : Endpoint) (ec : Rslt) :
    ∃ code rest, stored (stores5 host port ep ec) 10 = [5, code] ++ ([0, 1] ++ (rest ++ [])) ∧
      rest.length = 6 ∧ (code = 0 ↔ ec = .granted) := by
  have parts (rp : Memory UInt8) :
      rp.read 0 10 = [rp 0, rp 1] ++ ([rp 2, rp 3] ++ (rp.read 4 6 ++ [])) := rfl
  rw [stored, parts]
  refine ⟨_, _, rfl, Memory.length_read _ 4 6, ?_⟩
  cases ec with
  | granted => exact iff_of_true rfl rfl
  | failed =>
      change (1 : UInt8) = 0 ↔ _
      decide
  | remoteHostUnrch =>
      change (4 : UInt8) = 0 ↔ _
      decide

theorem advances_readAnswer {rest : List UInt8} (long : rest.length = 6) :
    Advances readAnswer ([5, 0] ++ ([0, 1] ++ (rest ++ []))) [] (value ()) := by
  refine .afterTryRead rfl ?_
  dsimp only [Option.getD_some]
  rw [if_pos ⟨rfl, rfl⟩]
  exact .afterTryRead rfl (.afterRead long (.here _))

theorem quits_readAnswer {code : UInt8} (fails : code ≠ 0) :
    Advances readAnswer ([5, code] ++ []) [] quit := by
  refine .afterTryRead rfl ?_
  dsimp only [Option.getD_some]
  rw [if_neg fun both => fails both.2]
  exact .here _

end client

/-! ### Names, passwords and methods -/

theorem authpacket_eq {auth : List UInt8} (given : authpacket auth ≠ []) :
    authpacket auth = [1] ++ pushs (credentials auth).1 ++ pushs (credentials auth).2 := by
  rw [authpacket] at given ⊢
  dsimp only at given ⊢
  split
  · rename_i anonymous
    rw [if_pos anonymous] at given
    exact absurd rfl given
  · apply List.take_of_length_le
    simp [pushs]
    omega

theorem credentials_short {auth : List UInt8} (given : authpacket auth ≠ []) :
    (credentials auth).1.length ≤ 254 ∧ (credentials auth).2.length ≤ 254 := by
  have named : (credentials auth).1 ≠ [] := by
    intro anonymous
    rw [authpacket] at given
    dsimp only at given
    rw [if_pos anonymous] at given
    exact given rfl
  rw [credentials] at named ⊢
  split
  · rename_i long
    rw [if_pos long] at named
    exact absurd rfl named
  · rename_i short
    rw [not_or] at short
    exact ⟨Nat.le_of_not_lt short.1, Nat.le_of_not_lt short.2⟩

variable {self : HandlerSocks}

theorem selectMethod_anonymous :
    self.selectMethod [0] 0xff = if self.socks5AllowAnon then 0 else 0xff := by
  simp [HandlerSocks.selectMethod]

theorem selectMethod_password :
    self.selectMethod [2] 0xff = if self.login = [] then 0xff else 2 := by
  simp [HandlerSocks.selectMethod]

/-! ### Both ends -/

/-- What the client sends through the tunnel. -/
def tunnelled (tail : List UInt8) (_ : Unit) : Dialogue Unit := do
  let _ ← Dialogue.tell tail
  return ()

/-- The client. -/
def clientEnd (client : Host) (auth : List UInt8) (addr : Endpoint) (tail : List UInt8) :
    Dialogue Unit :=
  prepare5 client auth addr >>= tunnelled tail

/-- What the server sends through the tunnel, if there is one. -/
def bridged (tail : List UInt8) (asked : Endpoint × Bool) : Dialogue (Endpoint × Bool) := do
  if asked.2 then
    let _ ← Dialogue.tell tail
    return asked
  else return asked

/-- The end of the server. -/
def served (connect : Endpoint → Bool) (tail : List UInt8) (call : Call) :
    Dialogue (Endpoint × Bool) :=
  worker connect call >>= bridged tail

/-- The server. -/
def serverEnd (self : HandlerSocks) (host : Host) (connect : Endpoint → Bool)
    (tail : List UInt8) : Dialogue (Endpoint × Bool) :=
  self.handshake host >>= served connect tail

/-- How the handshake ends. -/
structure Agreed (self : HandlerSocks) (connect : Endpoint → Bool) (auth : List UInt8)
    (addr : Endpoint) (toServer toClient : List UInt8)
    (last : Duplex Unit (Endpoint × Bool)) : Prop where
  ended : last.left.program.Over ∧ last.right.program.Over
  asked : (∃ ep connected, last.right.program = value (ep, connected)) ↔ Grants self auth
  reaches : ∀ ep connected, last.right.program = value (ep, connected) →
    Reaches addr ep ∧ connected = connect ep
  returned : last.left.program = value () ↔ ∃ ep, last.right.program = value (ep, true)
  aligned : last.left.program = value () →
    last.left.arrived = toClient ∧ last.right.arrived = toServer

section run

variable {host client : Host} {connect : Endpoint → Bool} {auth : List UInt8} {addr : Endpoint}
  {toServer toClient : List UInt8}

theorem reaches_target : Reaches addr (target host addr) := by
  by_cases numeric : addr.domain = []
  · rw [target, if_pos numeric]
    exact ⟨numeric.symm, rfl, fun _ => ⟨rfl, rfl⟩, fun named => absurd numeric named⟩
  · rw [target, if_neg numeric]
    exact ⟨rfl, rfl, fun unnamed => absurd unnamed numeric, fun _ => rfl⟩

theorem agreed_refused {arrived arrived' : List UInt8} (refused : ¬Grants self auth) :
    Agreed self connect auth addr toServer toClient
      ⟨⟨quit, [], arrived⟩, ⟨quit, [], arrived'⟩⟩ where
  ended := ⟨trivial, trivial⟩
  asked := by
    constructor
    · rintro ⟨ep, connected, asked⟩
      cases asked
    · exact fun granted => absurd granted refused
  reaches ep connected asked := by cases asked
  returned := by
    constructor
    · intro returned
      cases returned
    · rintro ⟨ep, asked⟩
      cases asked
  aligned returned := by cases returned

theorem agreed_connected (granted : Grants self auth)
    (connected : connect (target host addr) = true) :
    Agreed self connect auth addr toServer toClient
      ⟨⟨value (), [], toClient⟩, ⟨value (target host addr, true), [], toServer⟩⟩ where
  ended := ⟨trivial, trivial⟩
  asked := ⟨fun _ => granted, fun _ => ⟨_, _, rfl⟩⟩
  reaches ep taken asked := by
    cases asked
    exact ⟨reaches_target, connected.symm⟩
  returned := ⟨fun _ => ⟨_, rfl⟩, fun _ => rfl⟩
  aligned _ := ⟨rfl, rfl⟩

theorem agreed_unreachable {arrived arrived' : List UInt8} (granted : Grants self auth)
    (unreachable : connect (target host addr) = false) :
    Agreed self connect auth addr toServer toClient
      ⟨⟨quit, [], arrived⟩, ⟨value (target host addr, false), [], arrived'⟩⟩ where
  ended := ⟨trivial, trivial⟩
  asked := ⟨fun _ => granted, fun _ => ⟨_, _, rfl⟩⟩
  reaches ep taken asked := by
    cases asked
    exact ⟨reaches_target, unreachable.symm⟩
  returned := by
    constructor
    · intro returned
      cases returned
    · rintro ⟨ep, asked⟩
      cases asked
  aligned returned := by cases returned

theorem advances_call (v4 : host.getipDef.v4 = true) (clientV4 : client.getipDef.v4 = true)
    (destination : Destination addr) {output : List UInt8} {last : Dialogue (Endpoint × Bool)}
    (behind : Advances (bridged toClient (target host addr, connect (target host addr))) []
      output last) :
    ∃ code rest, rest.length = 6 ∧ (code = 0 ↔ connect (target host addr) = true) ∧
      Advances (request5 host >>= served connect toClient)
        (connectRequest client addr) ([5, code] ++ ([0, 1] ++ (rest ++ [])) ++ output) last := by
  have called : Advances (served connect toClient (serverCall host addr)) [] _ _ :=
    (advances_worker connect (serverCall host addr)).andThen behind
  rcases stored_stores5 host addr.port (target host addr)
    (if connect (target host addr) then .granted else .remoteHostUnrch) with
    ⟨code, rest, answer, long, zero⟩
  refine ⟨code, rest, long, zero.trans (by simp), ?_⟩
  rw [List.append_nil] at called
  rw [← answer, ← List.append_nil (connectRequest client addr)]
  exact (advances_request5 v4 clientV4 destination).andThen called

theorem ends_requested (v4 : host.getipDef.v4 = true) (clientV4 : client.getipDef.v4 = true)
    (destination : Destination addr) (granted : Grants self auth) :
    (Duplex.actors Unit (Endpoint × Bool)).Finally
      ⟨⟨readAnswer >>= tunnelled toServer, [], []⟩,
        ⟨request5 host >>= served connect toClient, [], connectRequest client addr ++ []⟩⟩
      (Agreed self connect auth addr toServer toClient) := by
  rcases connected : connect (target host addr) with _ | _
  · have behind : Advances (bridged toClient (target host addr, connect (target host addr))) [] []
        (value (target host addr, false)) := by
      rw [connected]
      exact .here _
    rcases @advances_call host client connect addr toClient v4 clientV4 destination _ _ behind with
      ⟨code, rest, -, fails, server⟩
    have failing : code ≠ 0 := by
      intro zero
      rw [fails.mp zero] at connected
      cases connected
    have refused := (@quits_readAnswer code failing).bind (tunnelled toServer)
    rw [List.append_nil] at refused server
    apply Duplex.finally_return server
    apply Duplex.finally_turn refused
    exact Duplex.finally_here trivial trivial (agreed_unreachable granted connected)
  · have behind : Advances (bridged toClient (target host addr, connect (target host addr))) []
        (toClient ++ []) (value (target host addr, true)) := by
      rw [connected]
      exact .afterTell (.here _)
    rcases @advances_call host client connect addr toClient v4 clientV4 destination _ _ behind with
      ⟨code, rest, long, works, server⟩
    rw [works.mpr connected] at server
    have tunnel : Advances (tunnelled toServer ()) [] (toServer ++ []) (value ()) :=
      .afterTell (.here _)
    have passed := @Advances.andThen _ _ _ (tunnelled toServer) _ _ _ _ _ _
      (advances_readAnswer long) tunnel
    rw [List.append_nil, List.append_nil toServer] at passed
    rw [List.append_nil toClient] at server
    apply Duplex.finally_return server
    apply Duplex.finally_turn passed
    exact Duplex.finally_here trivial trivial (agreed_connected granted connected)

theorem ends_anonymous (v4 : host.getipDef.v4 = true) (clientV4 : client.getipDef.v4 = true)
    (destination : Destination addr) (anonymous : authpacket auth = [])
    (granted : Grants self auth) :
    (Duplex.actors Unit (Endpoint × Bool)).Finally
      ⟨⟨readMethod client auth addr >>= tunnelled toServer, [], [5, 0] ++ []⟩,
        ⟨request5 host >>= served connect toClient, [], []⟩⟩
      (Agreed self connect auth addr toServer toClient) := by
  have offered : 0 = method auth := (if_pos anonymous).symm
  have asks := (@advances_readMethod client auth addr 0 offered).bind (tunnelled toServer)
  rw [if_pos anonymous, if_pos anonymous] at asks
  apply Duplex.finally_turn asks
  exact ends_requested v4 clientV4 destination granted

/-- The server tests the name and the password that the client gives. -/
theorem advances_credentials (named : authpacket auth ≠ []) :
    Advances self.authenticate (authpacket auth)
      ((if (credentials auth).1 = self.login ∧ (credentials auth).2 = self.pass then [1, 0]
        else [1, 1]) ++ [])
      (if (credentials auth).1 = self.login ∧ (credentials auth).2 = self.pass then value ()
        else quit) := by
  rcases credentials_short named with ⟨shortUser, shortPwd⟩
  rw [authpacket_eq named]
  exact advances_authenticate (Nat.le_succ_of_le shortUser) (Nat.le_succ_of_le shortPwd)

theorem ends_known (v4 : host.getipDef.v4 = true) (clientV4 : client.getipDef.v4 = true)
    (destination : Destination addr) (named : authpacket auth ≠ []) (granted : Grants self auth)
    (same : (credentials auth).1 = self.login ∧ (credentials auth).2 = self.pass) :
    (Duplex.actors Unit (Endpoint × Bool)).Finally
      ⟨⟨readPassed client addr >>= tunnelled toServer, [], []⟩,
        ⟨self.authenticate >>= (fun _ => request5 host) >>= served connect toClient, [],
          authpacket auth ++ []⟩⟩
      (Agreed self connect auth addr toServer toClient) := by
  have knows := ((@advances_credentials self auth named).bind fun _ => request5 host).bind
    (served connect toClient)
  rw [if_pos same, if_pos same] at knows
  have asks := (@advances_readPassed client addr).bind (tunnelled toServer)
  apply Duplex.finally_return knows
  apply Duplex.finally_turn asks
  exact ends_requested v4 clientV4 destination granted

/-- The server does not know the name and the password. -/
theorem ends_unknown (named : authpacket auth ≠ []) (refused : ¬Grants self auth)
    (other : ¬((credentials auth).1 = self.login ∧ (credentials auth).2 = self.pass)) :
    (Duplex.actors Unit (Endpoint × Bool)).Finally
      ⟨⟨readPassed client addr >>= tunnelled toServer, [], []⟩,
        ⟨self.authenticate >>= (fun _ => request5 host) >>= served connect toClient, [],
          authpacket auth ++ []⟩⟩
      (Agreed self connect auth addr toServer toClient) := by
  have rejects := ((@advances_credentials self auth named).bind fun _ => request5 host).bind
    (served connect toClient)
  rw [if_neg other, if_neg other] at rejects
  have gives := (@quits_readPassed client addr).bind (tunnelled toServer)
  apply Duplex.finally_return rejects
  apply Duplex.finally_turn gives
  exact Duplex.finally_here trivial trivial (agreed_refused refused)

theorem ends_password (v4 : host.getipDef.v4 = true) (clientV4 : client.getipDef.v4 = true)
    (destination : Destination addr) (named : authpacket auth ≠ []) (login : self.login ≠ []) :
    (Duplex.actors Unit (Endpoint × Bool)).Finally
      ⟨⟨readMethod client auth addr >>= tunnelled toServer, [], [5, 2] ++ []⟩,
        ⟨self.authenticate >>= (fun _ => request5 host) >>= served connect toClient, [], []⟩⟩
      (Agreed self connect auth addr toServer toClient) := by
  have offered : 2 = method auth := (if_neg named).symm
  have tells := (@advances_readMethod client auth addr 2 offered).bind (tunnelled toServer)
  rw [if_neg named, if_neg named] at tells
  apply Duplex.finally_turn tells
  by_cases same : (credentials auth).1 = self.login ∧ (credentials auth).2 = self.pass
  · exact ends_known v4 clientV4 destination named
      (Or.inr ⟨named, login, Prod.ext same.1 same.2⟩) same
  · refine ends_unknown named ?_ same
    rintro (⟨anonymous, -⟩ | ⟨-, -, known⟩)
    · exact named anonymous
    · rw [known] at same
      exact same ⟨rfl, rfl⟩

theorem ends_rejected {rauth : UInt8} (other : rauth ≠ method auth)
    (refused : ¬Grants self auth) :
    (Duplex.actors Unit (Endpoint × Bool)).Finally
      ⟨⟨readMethod client auth addr >>= tunnelled toServer, [], [5, rauth] ++ []⟩, ⟨quit, [], []⟩⟩
      (Agreed self connect auth addr toServer toClient) := by
  have gives := (@quits_readMethod client auth addr rauth other).bind (tunnelled toServer)
  apply Duplex.finally_turn gives
  exact Duplex.finally_here trivial trivial (agreed_refused refused)

/-- The server has answered to the offer of a method. -/
theorem ends_offered (v4 : host.getipDef.v4 = true) (clientV4 : client.getipDef.v4 = true)
    (destination : Destination addr) :
    (Duplex.actors Unit (Endpoint × Bool)).Finally
      ⟨⟨readMethod client auth addr >>= tunnelled toServer, [],
          [5, self.selectMethod [method auth] 0xff] ++ []⟩,
        ⟨(if self.selectMethod [method auth] 0xff = 0xff then quit
          else afterMethod self host (self.selectMethod [method auth] 0xff)) >>=
            served connect toClient, [], []⟩⟩
      (Agreed self connect auth addr toServer toClient) := by
  by_cases anonymous : authpacket auth = []
  · have offered : method auth = 0 := if_pos anonymous
    rw [offered, selectMethod_anonymous]
    by_cases allowed : self.socks5AllowAnon = true
    · rw [if_pos allowed]
      exact ends_anonymous v4 clientV4 destination anonymous (Or.inl ⟨anonymous, allowed⟩)
    · rw [if_neg allowed]
      refine ends_rejected ?_ ?_
      · rw [offered]
        decide
      · rintro (⟨-, allows⟩ | ⟨named, -⟩)
        · exact allowed allows
        · exact named anonymous
  · have offered : method auth = 2 := if_neg anonymous
    rw [offered, selectMethod_password]
    by_cases login : self.login = []
    · rw [if_pos login]
      refine ends_rejected ?_ ?_
      · rw [offered]
        decide
      · rintro (⟨unnamed, -⟩ | ⟨-, given, -⟩)
        · exact anonymous unnamed
        · exact given login
    · rw [if_neg login]
      exact ends_password v4 clientV4 destination anonymous login

/-- A client and a server of this program, however their bytes are cut and scheduled. -/
theorem always_agreed (v4 : host.getipDef.v4 = true) (clientV4 : client.getipDef.v4 = true)
    (allow5 : self.allow5 = true) (destination : Destination addr) :
    (Duplex.actors Unit (Endpoint × Bool)).Always
      ⟨{ program := clientEnd client auth addr toServer },
        { program := serverEnd self host connect toClient }⟩
      (Agreed self connect auth addr toServer toClient) := by
  apply Actors.Finally.always
  have offers := (@advances_prepare5 client auth addr destination).bind (tunnelled toServer)
  have answers := (@advances_handshake self host allow5 1 [method auth] rfl).bind
    (served connect toClient)
  refine @Duplex.finally_turn _ _ _ _ _ _ [] _ [] [] offers ?_
  apply Duplex.finally_return answers
  exact ends_offered v4 clientV4 destination

end run

/-- A client with the password of the server asks for 10.0.0.1, port 80. -/
theorem always_agreed_password :
    (Duplex.actors Unit (Endpoint × Bool)).Always
      ⟨{ program := clientEnd {} [109, 101, 58, 112]
            { ip := ⟨true, [10, 0, 0, 1], 80, rfl⟩, type := .tcpResolved } [1, 2] },
        { program := serverEnd { login := [109, 101], pass := [112] } {} (fun _ => true) [3] }⟩
      (Agreed { login := [109, 101], pass := [112] } (fun _ => true) [109, 101, 58, 112]
        { ip := ⟨true, [10, 0, 0, 1], 80, rfl⟩, type := .tcpResolved } [1, 2] [3]) := by
  refine always_agreed rfl rfl rfl ?_
  exact ⟨by decide, by decide, by decide, fun _ => ⟨rfl, rfl⟩⟩

end Imconee.Socks
