import Imconee.Socks.Agreement
import Imconee.Socks.Width

/-!
# A chain of proxies

`handler::connect` opens a pipe to the first proxy of its chain and lets each of them prepare it
for the next one, the last for the address that is asked for. Behind a server that has connected
the same pipe leads to what the server has connected to, whose bridge hands on what either side
sends; so what the client meets is one server after another.
-/

set_option autoImplicit false

namespace Imconee.Socks

open Lib Netkit Dialogue

/-- `proxy_socks4` and `proxy_socks5`, with the address of the proxy -/
inductive Proxy where
  | socks4 (addr : Endpoint) (userid : List UInt8)
  | socks5 (addr : Endpoint) (auth : List UInt8)

namespace Proxy

def addr : Proxy → Endpoint
  | socks4 addr _ | socks5 addr _ => addr

def prepare (client : Host) : Proxy → Endpoint → Dialogue Unit
  | socks4 _ userid => prepare4 client userid
  | socks5 _ auth => prepare5 client auth

end Proxy

/-- `na`: what comes behind a proxy, with the rest of the chain -/
def nextAddr (addr : Endpoint) : List Proxy → Endpoint
  | [] => addr
  | next :: _ => next.addr

/-- The loop of `connect` -/
def prepareAll (client : Host) (addr : Endpoint) : List Proxy → Dialogue Unit
  | [] => return ()
  | proxy :: rest => do
      proxy.prepare client (nextAddr addr rest)
      prepareAll client addr rest

/-- `handler::connect`: what it gives to `conn::connect`, and what is said over the pipe that
comes back -/
def connect (client : Host) (proxychain : List Proxy) (addr : Endpoint) (direct : Bool) :
    Endpoint × Dialogue Unit :=
  if direct ∨ proxychain = [] then (addr, return ())
  else (nextAddr addr proxychain, prepareAll client addr proxychain)

/-! ### Servers -/

/-- Where an endpoint leads to -/
structure Place where
  domain : List UInt8
  ip : Option Ipap
  port : UInt16
  deriving DecidableEq

def place (ep : Endpoint) : Place where
  domain := ep.domain
  ip := if ep.domain = [] then some ep.ip else none
  port := ep.port

theorem place_of_reaches {addr ep : Endpoint} (reaches : Reaches addr ep) :
    place ep = place addr := by
  rw [place, place, reaches.domain, reaches.port]
  split
  · rename_i numeric
    rw [(reaches.address numeric).2]
  · rfl

/-- A listener with `handler_socks` that has no chain of its own, and its machine -/
structure Node where
  handler : HandlerSocks
  host : Host

/-- Where connections are accepted, and where by a listener of this program -/
structure Network where
  accepts : Place → Bool
  node : Place → Option Node

namespace Network

variable (network : Network)

/-- One server: what it has asked `connect` for and with which outcome, if it has come to that -/
def serve (node : Node) : Dialogue (Option (Endpoint × Bool)) :=
  (node.handler.handshake node.host >>= worker fun ep => network.accepts (place ep)).attempt

/-- What lies behind a server that has connected -/
def behind (opened : Endpoint → Dialogue (List (Option (Endpoint × Bool))))
    (asked : Option (Endpoint × Bool)) : Dialogue (List (Option (Endpoint × Bool))) :=
  match asked with
  | some (ep, true) => do
      let others ← opened ep
      return asked :: others
  | _ => return [asked]

/-- Who is at the other end of a connection to the endpoint, with at most so many servers behind
one another: what all of them come to. In the end there is somebody who sends `tail`. -/
def opened (tail : List UInt8) : ℕ → Endpoint → Dialogue (List (Option (Endpoint × Bool)))
  | 0, _ => .quit
  | fuel + 1, ep =>
      match network.node (place ep) with
      | some node => network.serve node >>= behind (opened tail fuel)
      | none => do
          let _ ← Dialogue.tell tail
          return []

end Network

/-! ### One proxy -/

section exchange

variable {β γ : Type} {network : Network} {client : Host} {node : Node}
  {k : Unit → Dialogue γ} {f : Option (Endpoint × Bool) → Dialogue β}
  {holds : Duplex γ β → Prop}

/-- How both sides go on after a proxy has been asked to connect. -/
structure GoesOn (network : Network) (admitted : Prop) (ep : Endpoint) (k : Unit → Dialogue γ)
    (f : Option (Endpoint × Bool) → Dialogue β) (holds : Duplex γ β → Prop) : Prop where
  connected : admitted → network.accepts (place ep) = true →
    (Duplex.actors γ β).Finally ⟨⟨k (), [], []⟩, ⟨f (some (ep, true)), [], []⟩⟩ holds
  unreachable : admitted → network.accepts (place ep) = false → ∀ arrived,
    (Duplex.actors γ β).Finally ⟨⟨quit, [], arrived⟩, ⟨f (some (ep, false)), [], []⟩⟩ holds
  refused : ¬admitted → ∀ arrived,
    (Duplex.actors γ β).Finally ⟨⟨quit, [], arrived⟩, ⟨f none, [], []⟩⟩ holds

/-- The server calls `worker` and answers. -/
theorem advances_called {call : Call} {ep : Endpoint} (asks : call.inf = ep) :
    Advances ((worker (fun ep => network.accepts (place ep)) call).attempt >>= f) []
      (call.answ (if network.accepts (place ep) then .granted else .remoteHostUnrch))
      (f (some (ep, network.accepts (place ep)))) := by
  subst asks
  have answers := ((advances_worker (fun ep => network.accepts (place ep)) call).attempt).bind f
  rw [List.append_nil] at answers
  exact answers

/-- The request of SOCKS 5 and the answer to it -/
theorem ends_asked5 {addr : Endpoint} (v4 : node.host.getipDef.v4 = true)
    (clientV4 : client.getipDef.v4 = true) (destination : Destination addr) {admitted : Prop}
    (admits : admitted)
    (goesOn : GoesOn network admitted (target node.host addr) k f holds) :
    (Duplex.actors γ β).Finally
      ⟨⟨readAnswer >>= k, [], []⟩,
        ⟨(request5 node.host >>= worker fun ep => network.accepts (place ep)).attempt >>= f, [],
          connectRequest client addr⟩⟩ holds := by
  have called := ((advances_request5 v4 clientV4 destination).bind
    (worker fun ep => network.accepts (place ep))).attempt.bind f
  have asks : (serverCall node.host addr).inf = target node.host addr := rfl
  have server := called.trans (advances_called asks)
  rcases stored_stores5 node.host addr.port (target node.host addr)
    (if network.accepts (place (target node.host addr)) then .granted else .remoteHostUnrch) with
    ⟨code, rest, answer, long, zero⟩
  change Advances _ _ ([] ++ stored (stores5 _ _ _ _) 10) _ at server
  rw [answer, List.nil_append, List.append_nil] at server
  rw [← List.append_nil (connectRequest client addr)]
  apply Duplex.finally_return server
  cases connected : network.accepts (place (target node.host addr)) with
  | false =>
      have failing : code ≠ 0 := by
        intro works
        have granted := zero.mp works
        rw [connected] at granted
        cases granted
      have refused := (quits_readAnswer failing).bind k
      rw [List.append_nil] at refused
      apply Duplex.finally_turn refused
      exact goesOn.unreachable admits connected _
  | true =>
      rw [zero.mpr (if_pos connected)]
      have passed := (advances_readAnswer long).bind k
      rw [List.nil_append, ← List.append_nil ([5, 0] ++ _)]
      apply Duplex.finally_turn passed
      exact goesOn.connected admits connected

/-- The client has been told that it may go on, and sends the request. -/
theorem ends_passed {addr : Endpoint} {first : Dialogue Unit} {heard : List UInt8}
    (v4 : node.host.getipDef.v4 = true) (clientV4 : client.getipDef.v4 = true)
    (destination : Destination addr) {admitted : Prop} (admits : admitted)
    (goesOn : GoesOn network admitted (target node.host addr) k f holds)
    (asks : Advances first heard (connectRequest client addr ++ []) readAnswer) :
    (Duplex.actors γ β).Finally
      ⟨⟨first >>= k, [], heard⟩,
        ⟨(request5 node.host >>= worker fun ep => network.accepts (place ep)).attempt >>= f, [],
          []⟩⟩ holds := by
  have sends := asks.bind k
  rw [List.append_nil] at sends
  rw [← List.append_nil heard]
  apply Duplex.finally_turn sends
  rw [List.nil_append]
  exact ends_asked5 v4 clientV4 destination admits goesOn

/-- The server tests the name and the password. -/
theorem ends_tested {addr : Endpoint} {auth : List UInt8}
    (v4 : node.host.getipDef.v4 = true) (clientV4 : client.getipDef.v4 = true)
    (destination : Destination addr) (named : authpacket auth ≠ [])
    (login : node.handler.login ≠ [])
    (goesOn : GoesOn network (Grants node.handler auth) (target node.host addr) k f holds) :
    (Duplex.actors γ β).Finally
      ⟨⟨readPassed client addr >>= k, [], []⟩,
        ⟨((node.handler.authenticate >>= fun _ => request5 node.host) >>=
            worker fun ep => network.accepts (place ep)).attempt >>= f, [], authpacket auth⟩⟩
      holds := by
  have tests := (((@advances_credentials node.handler auth named).bind
    fun _ => request5 node.host).bind
      (worker fun ep => network.accepts (place ep))).attempt.bind f
  rw [List.append_nil] at tests
  rw [← List.append_nil (authpacket auth)]
  apply Duplex.finally_return tests
  by_cases same : (credentials auth).1 = node.handler.login ∧
      (credentials auth).2 = node.handler.pass
  · have granted : Grants node.handler auth := Or.inr ⟨named, login, Prod.ext same.1 same.2⟩
    rw [if_pos same, if_pos same]
    exact ends_passed v4 clientV4 destination granted goesOn advances_readPassed
  · have refused : ¬Grants node.handler auth := by
      rintro (⟨anonymous, -⟩ | ⟨-, -, known⟩)
      · exact named anonymous
      · rw [known] at same
        exact same ⟨rfl, rfl⟩
    have gives := (@quits_readPassed client addr).bind k
    rw [if_neg same, if_neg same]
    apply Duplex.finally_turn gives
    exact goesOn.refused refused []

/-- The offer of a method has been turned down. -/
theorem ends_declined {addr : Endpoint} {auth : List UInt8} {rauth : UInt8} {admitted : Prop}
    {ep : Endpoint} (other : rauth ≠ method auth) (refused : ¬admitted)
    (goesOn : GoesOn network admitted ep k f holds) :
    (Duplex.actors γ β).Finally
      ⟨⟨readMethod client auth addr >>= k, [], [5, rauth]⟩, ⟨f none, [], []⟩⟩ holds := by
  have gives := (@quits_readMethod client auth addr rauth other).bind k
  apply Duplex.finally_turn gives
  exact goesOn.refused refused []

/-- One proxy of SOCKS 5 -/
theorem ends_prepare5 {addr : Endpoint} {auth : List UInt8}
    (v4 : node.host.getipDef.v4 = true) (clientV4 : client.getipDef.v4 = true)
    (allow5 : node.handler.allow5 = true) (destination : Destination addr)
    (goesOn : GoesOn network (Grants node.handler auth) (target node.host addr) k f holds) :
    (Duplex.actors γ β).Finally
      ⟨⟨prepare5 client auth addr >>= k, [], []⟩, ⟨network.serve node >>= f, [], []⟩⟩ holds := by
  have offers := (@advances_prepare5 client auth addr destination).bind k
  have answers := ((@advances_handshake node.handler node.host allow5 1 [method auth] rfl).bind
    (worker fun ep => network.accepts (place ep))).attempt.bind f
  refine @Duplex.finally_turn _ _ _ _ _ _ [] _ [] [] offers ?_
  apply Duplex.finally_return answers
  rw [List.nil_append, List.append_nil]
  by_cases anonymous : authpacket auth = []
  · have offered : method auth = 0 := if_pos anonymous
    rw [offered, selectMethod_anonymous]
    by_cases allowed : node.handler.socks5AllowAnon = true
    · have asks := @advances_readMethod client auth addr 0 offered.symm
      rw [if_pos anonymous, if_pos anonymous] at asks
      rw [if_pos allowed]
      exact ends_passed v4 clientV4 destination (Or.inl ⟨anonymous, allowed⟩) goesOn asks
    · have refused : ¬Grants node.handler auth := by
        rintro (⟨-, allows⟩ | ⟨named, -⟩)
        · exact allowed allows
        · exact named anonymous
      rw [if_neg allowed]
      refine ends_declined ?_ refused goesOn
      rw [offered]
      decide
  · have offered : method auth = 2 := if_neg anonymous
    rw [offered, selectMethod_password]
    by_cases login : node.handler.login = []
    · have refused : ¬Grants node.handler auth := by
        rintro (⟨unnamed, -⟩ | ⟨-, given, -⟩)
        · exact anonymous unnamed
        · exact given login
      rw [if_pos login]
      refine ends_declined ?_ refused goesOn
      rw [offered]
      decide
    · have tells := (@advances_readMethod client auth addr 2 offered.symm).bind k
      rw [if_neg anonymous, if_neg anonymous] at tells
      rw [if_neg login]
      apply Duplex.finally_turn tells
      rw [List.nil_append, List.append_nil]
      exact ends_tested v4 clientV4 destination anonymous login goesOn

/-! ### SOCKS 4, where a `u32` has four bytes -/

/-- What the client reads of the answer of SOCKS 4. -/
def readGrant : Dialogue Unit := do
  let answ ← Dialogue.read 8
  if answ.getD 0 0 = 0 ∧ answ.getD 1 0 = 90 then return ()
  else .quit

theorem advances_prepare4 {addr : Endpoint} {userid : List UInt8} (destination : Resolved4 addr) :
    Advances (prepare4 client userid addr) [] (connectPacket client userid addr ++ [])
      readGrant := by
  have found : addr.getIp client .only4 false = (addr.ip, addr) :=
    if_pos ⟨destination.resolved, Or.inr destination.v4⟩
  rw [prepare4, found]
  dsimp only
  rw [if_pos ⟨destination.resolved, destination.port⟩]
  exact .afterTell (.here _)

theorem connectPacket_eq {addr : Endpoint} {userid : List UInt8} (width : client.sizeofU32 = 4)
    (destination : Resolved4 addr) :
    connectPacket client userid addr =
      [4] ++ ([1] ++ push16 addr.port ++ addr.ip.octets ++ (userid ++ [0] ++ [])) := by
  have found : addr.getIp client .only4 false = (addr.ip, addr) :=
    if_pos ⟨destination.resolved, Or.inr destination.v4⟩
  rw [connectPacket, found, width, u32_four destination.v4]
  simp

theorem advances_readGrant {answ : List UInt8} (long : answ.length = 8) :
    Advances readGrant (answ ++ []) []
      (if answ.getD 0 0 = 0 ∧ answ.getD 1 0 = 90 then value () else quit) := by
  refine .afterRead long ?_
  exact .here _

/-- The answer of SOCKS 4 -/
theorem stored_stores4 (host : Host) (port : UInt16) (dst : Ipap) (ec : Rslt) :
    (stored (stores4 host port dst ec) 8).length = 8 ∧
      (stored (stores4 host port dst ec) 8).getD 0 0 = 0 ∧
      ((stored (stores4 host port dst ec) 8).getD 1 0 = 90 ↔ ec = .granted) := by
  refine ⟨Memory.length_read _ 0 8, rfl, ?_⟩
  cases ec with
  | granted => exact iff_of_true rfl rfl
  | failed =>
      change (91 : UInt8) = 90 ↔ _
      decide
  | remoteHostUnrch =>
      change (92 : UInt8) = 90 ↔ _
      decide

/-- One proxy of SOCKS 4 -/
theorem ends_prepare4 {addr : Endpoint} {userid : List UInt8}
    (width : client.sizeofU32 = 4) (allow4 : node.handler.allow4 = true)
    (destination : Resolved4 addr) (short : userid.length ≤ 255) (nonzero : 0 ∉ userid)
    (goesOn : GoesOn network (userid = node.handler.userid) (serverCall4 node.host addr).inf k f
      holds) :
    (Duplex.actors γ β).Finally
      ⟨⟨prepare4 client userid addr >>= k, [], []⟩, ⟨network.serve node >>= f, [], []⟩⟩ holds := by
  have asks := (@advances_prepare4 client addr userid destination).bind k
  rw [connectPacket_eq width destination] at asks
  refine @Duplex.finally_turn _ _ _ _ _ _ [] _ [] [] asks ?_
  have reads := ((@advances_handshake4 node.host node.handler userid addr destination allow4 short
    nonzero).bind (worker fun ep => network.accepts (place ep))).attempt.bind f
  rw [List.nil_append]
  by_cases same : userid = node.handler.userid
  · rw [if_pos same, if_pos same] at reads
    have server := reads.trans (advances_called rfl)
    rcases stored_stores4 node.host addr.port (serverCall4 node.host addr).inf.ip
      (if network.accepts (place (serverCall4 node.host addr).inf) then .granted
        else .remoteHostUnrch) with ⟨long, first, second⟩
    have answers := (advances_readGrant long).bind k
    rw [List.append_nil, List.nil_append] at server
    apply Duplex.finally_return server
    apply Duplex.finally_turn answers
    cases connected : network.accepts (place (serverCall4 node.host addr).inf) with
    | false =>
        rw [connected] at second
        rw [if_neg fun both => by cases second.mp both.2]
        exact goesOn.unreachable same connected []
    | true =>
        rw [connected] at first second
        rw [if_pos ⟨first, second.mpr rfl⟩]
        exact goesOn.connected same connected
  · rw [if_neg same, if_neg same] at reads
    have gives := (@advances_readGrant [0, 93, 0, 0, 0, 0, 0, 0] rfl).bind k
    apply Duplex.finally_return reads
    apply Duplex.finally_turn gives
    exact goesOn.refused same []

end exchange

/-! ### The chain -/

/-- The server lets the client in. -/
def Proxy.Admitted (node : Node) : Proxy → Prop
  | .socks4 _ userid => userid = node.handler.userid
  | .socks5 _ auth => Grants node.handler auth

instance (self : HandlerSocks) (auth : List UInt8) : Decidable (Grants self auth) :=
  inferInstanceAs (Decidable (_ ∨ _))

instance (node : Node) (proxy : Proxy) : Decidable (proxy.Admitted node) :=
  match proxy with
  | .socks4 _ userid => inferInstanceAs (Decidable (userid = node.handler.userid))
  | .socks5 _ auth => inferInstanceAs (Decidable (Grants node.handler auth))

/-- Both sides know the protocol, and the destination can be said in it. -/
def Proxy.Speaks (client : Host) (node : Node) (next : Endpoint) : Proxy → Prop
  | .socks4 _ userid => node.handler.allow4 = true ∧ client.sizeofU32 = 4 ∧
      node.host.sizeofU32 = 4 ∧ node.host.getipDef.v4 = true ∧ Resolved4 next ∧
      userid.length ≤ 255 ∧ 0 ∉ userid
  | .socks5 _ _ => node.handler.allow5 = true ∧ client.getipDef.v4 = true ∧
      node.host.getipDef.v4 = true ∧ Destination next

/-- At the place of each proxy there is a server that speaks with it, and none of this program
at the place of the address. -/
def Spoken (client : Host) (network : Network) (addr : Endpoint) : List Proxy → Prop
  | [] => network.node (place addr) = none
  | proxy :: rest =>
      (∃ node, network.node (place proxy.addr) = some node ∧
        proxy.Speaks client node (nextAddr addr rest)) ∧
      Spoken client network addr rest

/-- What the servers come to, one after another, up to the first that does not connect: the
place that it has asked for and whether that has accepted, or nothing if it has turned the
client away. -/
def visits (network : Network) (addr : Endpoint) : List Proxy → List (Option (Place × Bool))
  | [] => []
  | proxy :: rest =>
      let next := place (nextAddr addr rest)
      match network.node (place proxy.addr) with
      | some node =>
          if proxy.Admitted node then
            if network.accepts next then some (next, true) :: visits network addr rest
            else [some (next, false)]
          else [none]
      | none => []

/-- The endpoints of the servers as places -/
def placed (asked : Option (Endpoint × Bool)) : Option (Place × Bool) :=
  asked.map fun call => (place call.1, call.2)

/-- How the run through the chain ends. -/
structure Chained (expected : List (Option (Place × Bool))) (toServer toClient : List UInt8)
    (last : Duplex Unit (List (Option (Endpoint × Bool)))) : Prop where
  visited : ∃ visited, last.right.program = value visited ∧ visited.map placed = expected
  returned : last.left.program = value () ∨ last.left.program = quit
  connected : last.left.program = value () ↔ ∀ visit ∈ expected, ∃ there, visit = some (there, true)
  aligned : last.left.program = value () →
    last.left.arrived = toClient ∧ last.right.arrived = toServer

/-- One proxy of either kind -/
theorem ends_prepare {β γ : Type} {network : Network} {client : Host} {node : Node}
    {proxy : Proxy} {next : Endpoint} (speaks : proxy.Speaks client node next) :
    ∃ ep, place ep = place next ∧ ∀ (k : Unit → Dialogue γ)
      (f : Option (Endpoint × Bool) → Dialogue β) (holds : Duplex γ β → Prop),
      GoesOn network (proxy.Admitted node) ep k f holds →
        (Duplex.actors γ β).Finally
          ⟨⟨proxy.prepare client next >>= k, [], []⟩, ⟨network.serve node >>= f, [], []⟩⟩
          holds := by
  cases proxy with
  | socks4 addr userid =>
      rcases speaks with ⟨allow4, width, -, family, destination, short, nonzero⟩
      have found : (serverCall4 node.host next).inf.ip = next.ip :=
        Ipap.build_octets destination.v4 family
      refine ⟨(serverCall4 node.host next).inf, ?_, ?_⟩
      · apply place_of_reaches
        exact ⟨destination.numeric.symm, congrArg Ipap.port found, fun _ => ⟨rfl, found⟩,
          fun named => absurd destination.numeric named⟩
      · intro k f holds goesOn
        exact ends_prepare4 width allow4 destination short nonzero goesOn
  | socks5 addr auth =>
      rcases speaks with ⟨allow5, clientV4, v4, destination⟩
      refine ⟨target node.host next, place_of_reaches reaches_target, ?_⟩
      intro k f holds goesOn
      exact ends_prepare5 v4 clientV4 allow5 destination goesOn

section chain

variable {client : Host} {network : Network} {addr : Endpoint} {toServer toClient : List UInt8}

/-- Servers that have connected do not keep the rest from coming to its end. -/
theorem connected_append {front expected : List (Option (Place × Bool))}
    (through : ∀ visit ∈ front, ∃ there, visit = some (there, true)) :
    (∀ visit ∈ front ++ expected, ∃ there, visit = some (there, true)) ↔
      ∀ visit ∈ expected, ∃ there, visit = some (there, true) := by
  constructor
  · intro all visit mem
    exact all visit (List.mem_append_right front mem)
  · intro rest visit mem
    rcases List.mem_append.mp mem with early | late
    · exact through visit early
    · exact rest visit late

/-- A run that ends before the end of the chain -/
theorem chained_stopped {visited : List (Option (Endpoint × Bool))}
    {expected : List (Option (Place × Bool))} {arrived arrived' : List UInt8}
    (same : visited.map placed = expected)
    (stops : ¬∀ visit ∈ expected, ∃ there, visit = some (there, true)) :
    Chained expected toServer toClient ⟨⟨quit, [], arrived⟩, ⟨value visited, [], arrived'⟩⟩ where
  visited := ⟨visited, rfl, same⟩
  returned := .inr rfl
  connected := by
    constructor
    · intro never
      cases never
    · intro through
      exact absurd through stops
  aligned never := by cases never

theorem ends_chain {chain : List Proxy} {ep : Endpoint} {fuel : ℕ}
    {front : List (Option (Endpoint × Bool))} (spoken : Spoken client network addr chain)
    (there : place ep = place (nextAddr addr chain)) (enough : chain.length < fuel)
    (through : ∀ visit ∈ front.map placed, ∃ there, visit = some (there, true)) :
    (Duplex.actors Unit (List (Option (Endpoint × Bool)))).Finally
      ⟨⟨prepareAll client addr chain >>= tunnelled toServer, [], []⟩,
        ⟨network.opened toClient fuel ep >>= fun others => value (front ++ others), [], []⟩⟩
      (Chained (front.map placed ++ visits network addr chain) toServer toClient) := by
  induction chain generalizing ep fuel front with
  | nil =>
      rcases fuel with _ | fuel
      · exact absurd enough (Nat.not_lt_zero _)
      have nobody : network.node (place ep) = none := there ▸ spoken
      rw [Network.opened, nobody]
      have sends : Advances (tunnelled toServer ()) [] toServer (value ()) := .tells toServer
      have tells : Advances (Dialogue.tell toClient >>= fun _ => value (front ++ [])) [] toClient
          (value (front ++ [])) := .tells toClient
      refine @Duplex.finally_turn _ _ _ _ _ _ [] _ [] [] sends ?_
      refine @Duplex.finally_return _ _ _ _ _ _ [] _ toServer [] tells ?_
      refine Duplex.finally_here trivial trivial ?_
      refine ⟨⟨_, rfl, ?_⟩, .inl rfl, iff_of_true rfl ?_, fun _ => ⟨rfl, rfl⟩⟩
      · simp [visits]
      · rw [connected_append through]
        simp [visits]
  | cons proxy rest ih =>
      rcases fuel with _ | fuel
      · exact absurd enough (Nat.not_lt_zero _)
      rcases spoken with ⟨⟨node, found, speaks⟩, spoken⟩
      rcases ends_prepare speaks with ⟨next, same, ends⟩
      change place ep = place proxy.addr at there
      have expected : visits network addr (proxy :: rest) =
          if proxy.Admitted node then
            if network.accepts (place (nextAddr addr rest)) then
              some (place (nextAddr addr rest), true) :: visits network addr rest
            else [some (place (nextAddr addr rest), false)]
          else [none] := by
        rw [visits, found]
      rw [prepareAll, Network.opened, there, found, expected, Dialogue.bind_assoc,
        Dialogue.bind_assoc]
      apply ends
      refine ⟨?_, ?_, ?_⟩
      · intro admitted accepts
        rw [same] at accepts
        rw [if_pos admitted, if_pos accepts]
        have onward := @ih next fuel (front ++ [some (next, true)]) spoken same
          (Nat.lt_of_succ_lt_succ enough) ?_
        · simp only [List.append_assoc, List.singleton_append, List.map_append, List.map_cons,
            List.map_nil] at onward
          rw [← same, Network.behind, Dialogue.bind_assoc]
          exact onward
        · rw [List.map_append, connected_append through]
          simp [placed]
      · intro admitted unreachable arrived
        rw [same] at unreachable
        rw [if_pos admitted, if_neg (by simp [unreachable])]
        refine @Duplex.finally_here _ _ _ quit (value (front ++ [some (next, false)])) arrived []
          trivial trivial ?_
        apply chained_stopped
        · simp [placed, same]
        · rw [connected_append through]
          simp
      · intro refused arrived
        rw [if_neg refused]
        refine @Duplex.finally_here _ _ _ quit (value (front ++ [none])) arrived []
          trivial trivial ?_
        apply chained_stopped
        · simp [placed]
        · rw [connected_append through]
          simp

/-- A client that connects through a chain of servers of this program, however the bytes are cut
and scheduled. It gets the pipe if and only if every server lets it in and reaches what it is
asked for; the servers are asked one after another for the next proxy, and the last one for the
address; and behind them the pipe carries what the two ends send and nothing else. -/
theorem always_chained {chain : List Proxy} (spoken : Spoken client network addr chain) :
    (Duplex.actors Unit (List (Option (Endpoint × Bool)))).Always
      ⟨{ program := (connect client chain addr false).2 >>= tunnelled toServer },
        { program :=
            network.opened toClient (chain.length + 1) (connect client chain addr false).1 }⟩
      (Chained (visits network addr chain) toServer toClient) := by
  have plan : connect client chain addr false =
      (nextAddr addr chain, prepareAll client addr chain) := by
    cases chain <;> rfl
  have ends := @ends_chain client network addr toServer toClient chain (nextAddr addr chain)
    (chain.length + 1) [] spoken rfl (Nat.lt_succ_self _) (by simp)
  rw [plan]
  apply Actors.Finally.always
  have whole := Dialogue.bind_value
    (network.opened toClient (chain.length + 1) (nextAddr addr chain))
  simp only [List.nil_append, List.map_nil] at ends
  rwa [whole] at ends

end chain

/-- A proxy with a password at 10.0.0.2, port 1080 -/
def firstProxy : Proxy :=
  .socks5 { ip := ⟨true, [10, 0, 0, 2], 1080, rfl⟩, type := .tcpResolved } [97, 58, 98]

/-- A proxy of SOCKS 4 for a user `u` that is called `b`, port 1081 -/
def secondProxy : Proxy :=
  .socks4 { domain := [98], ip := { Ipap.clear .prior4 with port := 1081 }, type := .tcpDomain }
    [117]

/-- A host with a `u32` of four bytes -/
def narrowHost : Host := { sizeofU32 := 4 }

/-- The two of them, and nobody else of this program -/
def twoProxies : Network where
  accepts _ := true
  node there :=
    if there = place firstProxy.addr then some ⟨{ login := [97], pass := [98] }, narrowHost⟩
    else if there = place secondProxy.addr then some ⟨{ userid := [117] }, narrowHost⟩
    else none

theorem always_chained_two :
    (Duplex.actors Unit (List (Option (Endpoint × Bool)))).Always
      ⟨{ program :=
          (connect narrowHost [firstProxy, secondProxy] tenNet false).2 >>= tunnelled [1, 2] },
        { program := twoProxies.opened [3] 3
            (connect narrowHost [firstProxy, secondProxy] tenNet false).1 }⟩
      (Chained [some (place secondProxy.addr, true), some (place tenNet, true)] [1, 2] [3]) := by
  have second : Destination secondProxy.addr :=
    ⟨by decide, by decide, by decide, fun unnamed => by cases unnamed⟩
  have last : Resolved4 tenNet := by
    constructor <;> decide
  have spoken : Spoken narrowHost twoProxies tenNet [firstProxy, secondProxy] :=
    ⟨⟨_, rfl, rfl, rfl, rfl, second⟩, ⟨_, rfl, rfl, rfl, rfl, rfl, last, by decide, by decide⟩, rfl⟩
  exact always_chained spoken

end Imconee.Socks
