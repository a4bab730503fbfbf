import Imconee.Lib.Duplex
import Imconee.Netkit.Endpoint

/-!
# The request of a Shadowsocks client

`proxy_shadowsocks::prepare` at one end of an encrypted stream and `handler_ss::worker` at the
other one. The server does not answer: what the client sends behind the request is meant for
the tunnel.
-/

set_option autoImplicit false

namespace Imconee.Shadowsocks

open Lib Netkit Dialogue

/-- The plain text of the request, as `prepare` sends it. -/
def requestHeader (host : Host) (addr : Endpoint) : List UInt8 :=
  if addr.domain = [] then
    let ip := (addr.getIp host host.getipDef false).1
    pgen 7 ([if ip.v4 then 1 else 4] ++ pushIp ip true)
  else pgen (addr.domain.length + 4) ([3] ++ pushs addr.domain ++ push16 addr.port)

def prepare (host : Host) (addr : Endpoint) : Dialogue Unit := do
  if addr.type = .error ∨ addr.port = 0 then .quit
  else
    let taken ← Dialogue.tell (requestHeader host addr)
    if taken then return () else .quit

/-- The address of a request, of which `packet` is the first two bytes. -/
def readAddress (host : Host) (packet : List UInt8) : Dialogue Endpoint := do
  let ep : Endpoint := { ip := .clear host.getipDef }
  match packet.getD 0 0 with
  | 1 => -- ip4
      let more ← Dialogue.read 3
      return ep.setIpap (.build host.getipDef (packet.drop 1 ++ more) 4 0)
  | 3 => -- domain name
      let domain ← Dialogue.read (packet.getD 1 0).toNat
      return ep.setDomain domain
  | 4 => -- ipv6 not supported yet
      let _ ← Dialogue.tryRead 15
      .quit
  | _ => return ep

/-- `worker`: what it calls `connect` with. -/
def worker (host : Host) : Dialogue Endpoint := do
  let packet ← Dialogue.read 2
  let ep ← readAddress host packet
  let packet ← Dialogue.read 2
  return ep.setPort (portOf (packet.getD 0 0) (packet.getD 1 0))

/-- A complete request for an endpoint. -/
inductive Header (addr : Endpoint) : List UInt8 → Prop where
  | ip4 (numeric : addr.domain = []) (resolved : addr.type = .tcpResolved)
      (v4 : addr.ip.v4 = true) : Header addr ([1] ++ addr.ip.octets ++ push16 addr.port)
  | ip6 (numeric : addr.domain = []) (resolved : addr.type = .tcpResolved)
      (v6 : addr.ip.v4 = false) : Header addr ([4] ++ addr.ip.octets ++ push16 addr.port)
  | domain (named : addr.domain ≠ []) (short : addr.domain.length ≤ 255) :
      Header addr ([3, UInt8.ofNat addr.domain.length] ++ addr.domain ++ push16 addr.port)

/-- The client, and what it sends through the tunnel. -/
def clientEnd (client : Host) (addr : Endpoint) (tail : List UInt8) : Dialogue Unit := do
  prepare client addr
  let _ ← Dialogue.tell tail
  return ()

/-- The server connects to the endpoint. What is behind the request stays in the stream. -/
structure Connected (addr : Endpoint) (tail : List UInt8) (last : Duplex Unit Endpoint) : Prop where
  reaches : ∃ ep, last.right.program = value ep ∧ Reaches addr ep
  aligned : last.right.arrived = tail

/-- The request is complete and the server understands it, however its bytes are cut. -/
structure Carries (client host : Host) (addr : Endpoint) : Prop where
  header : Header addr (requestHeader client addr)
  connected : ∀ tail, (Duplex.actors Unit Endpoint).Always
    ⟨{ program := clientEnd client addr tail }, { program := worker host }⟩ (Connected addr tail)

/-- A name that fits, or an IPv4 address in a configuration for IPv4. -/
def Supported (client host : Host) (addr : Endpoint) : Prop :=
  (addr.domain ≠ [] ∧ addr.domain.length ≤ 255) ∨
    (addr.domain = [] ∧ addr.type = .tcpResolved ∧ addr.ip.v4 = true ∧
      client.getipDef.v4 = true ∧ host.getipDef.v4 = true)

section request

variable {client host : Host} {addr : Endpoint}

theorem requestHeader_domain (named : addr.domain ≠ []) :
    requestHeader client addr =
      [3, UInt8.ofNat addr.domain.length] ++ addr.domain ++ push16 addr.port := by
  rw [requestHeader, if_neg named]
  apply List.take_of_length_le
  simp [pushs, push16]

theorem requestHeader_ip4 (numeric : addr.domain = []) (resolved : addr.type = .tcpResolved)
    (v4 : addr.ip.v4 = true) (clientV4 : client.getipDef.v4 = true) :
    requestHeader client addr = [1] ++ addr.ip.octets ++ push16 addr.port := by
  have found : (addr.getIp client client.getipDef false).1 = addr.ip := by
    rw [Endpoint.getIp, if_pos ⟨resolved, Or.inr (v4.trans clientV4.symm)⟩]
  have size := addr.ip.size
  rw [v4, if_pos rfl] at size
  rw [requestHeader, if_pos numeric]
  dsimp only
  rw [found, v4, if_pos rfl]
  apply List.take_of_length_le
  simp [pushIp, push16, size]

/-- A client that is configured for IPv6 does not send an IPv4 address. -/
theorem requestHeader_refused (lookup : client.dnsresolve [] = none) (numeric : addr.domain = [])
    (resolved : addr.type = .tcpResolved) (v4 : addr.ip.v4 = true)
    (clientV6 : client.getipDef.v4 = false) : (requestHeader client addr).head? = some 4 := by
  have other : ¬(addr.type = .tcpResolved ∧ (False ∨ addr.ip.v4 = client.getipDef.v4)) := by
    rw [v4, clientV6]
    simp
  have cleared : (addr.getIp client client.getipDef false).1 = .clear client.getipDef := by
    rw [Endpoint.getIp, if_neg (by simpa using other), if_neg (by rw [resolved]; decide), numeric,
      lookup]
  rw [requestHeader, if_pos numeric]
  dsimp only
  rw [cleared, Ipap.clear]
  simp [clientV6, pgen]

theorem length_requestHeader (numeric : addr.domain = []) :
    (requestHeader client addr).length ≤ 7 := by
  rw [requestHeader, if_pos numeric]
  exact List.length_take_le _ _

theorem advances_worker {packet rest : List UInt8} {ep : Endpoint} (long : packet.length = 2)
    (read : Advances (readAddress host packet) rest [] (value ep)) (port : UInt16) :
    Advances (worker host) (packet ++ (rest ++ (push16 port ++ []))) []
      (value (ep.setPort port)) := by
  refine .afterRead long (read.andThen (.afterRead rfl ?_))
  rw [portOf_push16]
  exact .here _

theorem advances_domain (short : addr.domain.length ≤ 255) :
    Advances (worker host)
      ([3, UInt8.ofNat addr.domain.length] ++ (addr.domain ++ (push16 addr.port ++ []))) []
      (value {
        domain := addr.domain
        ip := { Ipap.clear host.getipDef with port := addr.port }
        type := .tcpDomain }) := by
  have length : addr.domain.length = (UInt8.ofNat addr.domain.length).toNat := by
    rw [UInt8.toNat_ofNat']
    omega
  have read : Advances (readAddress host [3, UInt8.ofNat addr.domain.length]) (addr.domain ++ [])
      [] (value (Endpoint.setDomain { ip := .clear host.getipDef } addr.domain)) :=
    .afterRead length (.here _)
  rw [List.append_nil] at read
  exact advances_worker rfl read addr.port

theorem advances_ip4 (v4 : addr.ip.v4 = true) :
    Advances (worker host) ([1] ++ addr.ip.octets ++ push16 addr.port) []
      (value {
        ip := { Ipap.build host.getipDef addr.ip.octets 4 0 with port := addr.port }
        type := .tcpResolved }) := by
  rcases octets : addr.ip.octets with _ | ⟨a, _ | ⟨b, _ | ⟨c, _ | ⟨d, _ | ⟨e, more⟩⟩⟩⟩⟩
  case cons.cons.cons.cons.nil =>
    have read : Advances (readAddress host [1, a]) ([b, c, d] ++ []) [] (value
        (Endpoint.setIpap { ip := .clear host.getipDef }
          (.build host.getipDef [a, b, c, d] 4 0))) :=
      .afterRead rfl (.here _)
    exact advances_worker rfl read addr.port
  all_goals
    have size := addr.ip.size
    rw [octets, v4] at size
    simp at size

/-- The whole conversation, if the server gets through with the request. -/
theorem settles_request (known : addr.type ≠ .error) (port : addr.port ≠ 0) {ep : Endpoint}
    (reads : Advances (worker host) (requestHeader client addr) [] (value ep))
    (tail : List UInt8) :
    (Duplex.actors Unit Endpoint).Settles
      ⟨{ program := clientEnd client addr tail }, { program := worker host }⟩
      ⟨⟨value (), [], []⟩, ⟨value ep, [], tail⟩⟩ := by
  have sends : Advances (clientEnd client addr tail) []
      (requestHeader client addr ++ (tail ++ [])) (value ()) := by
    rw [clientEnd, prepare, if_neg (not_or.mpr ⟨known, port⟩)]
    exact .afterTell (.afterTell (.here _))
  rw [List.append_nil] at sends
  have read := @Duplex.settles_return _ _ _ _ (value ()) _ _ tail [] _ reads
    (Duplex.settles_here trivial trivial)
  exact @Duplex.settles_turn _ _ _ _ _ [] _ [] [] _ sends read

/-- The server gets through with a request for an endpoint that is supported. -/
theorem reads_supported (supported : Supported client host addr) :
    ∃ ep, Advances (worker host) (requestHeader client addr) [] (value ep) ∧ Reaches addr ep := by
  rcases supported with ⟨named, short⟩ | ⟨numeric, resolved, v4, clientV4, hostV4⟩
  · rw [requestHeader_domain named]
    have read := @advances_domain host addr short
    rw [List.append_nil, ← List.append_assoc] at read
    exact ⟨_, read, rfl, rfl, fun numeric => absurd numeric named, fun _ => rfl⟩
  · rw [requestHeader_ip4 numeric resolved v4 clientV4]
    refine ⟨_, advances_ip4 v4, numeric.symm, rfl, fun _ => ⟨rfl, ?_⟩, fun named => ?_⟩
    · exact Ipap.build_octets v4 hostV4
    · exact absurd numeric named

theorem header_supported (supported : Supported client host addr) :
    Header addr (requestHeader client addr) := by
  rcases supported with ⟨named, short⟩ | ⟨numeric, resolved, v4, clientV4, -⟩
  · rw [requestHeader_domain named]
    exact .domain named short
  · rw [requestHeader_ip4 numeric resolved v4 clientV4]
    exact .ip4 numeric resolved v4

theorem carries_supported (known : addr.type ≠ .error) (port : addr.port ≠ 0)
    (supported : Supported client host addr) : Carries client host addr := by
  rcases reads_supported supported with ⟨ep, reads, reaches⟩
  refine ⟨header_supported supported, fun tail => ?_⟩
  exact (settles_request known port reads tail).always ⟨⟨ep, rfl, reaches⟩, rfl⟩

theorem supported_of_carries (lookup : client.dnsresolve [] = none) (known : addr.type ≠ .error)
    (port : addr.port ≠ 0) (carries : Carries client host addr) :
    Supported client host addr := by
  rcases carries with ⟨header, connected⟩
  generalize whole : requestHeader client addr = bytes at header
  cases header with
  | domain named short => exact Or.inl ⟨named, short⟩
  | ip6 numeric resolved v6 =>
      have short := @length_requestHeader client addr numeric
      have size := addr.ip.size
      rw [v6] at size
      rw [whole] at short
      simp [push16, size] at short
  | ip4 numeric resolved v4 =>
      rcases clientFamily : client.getipDef.v4 with _ | _
      · have other := requestHeader_refused lookup numeric resolved v4 clientFamily
        rw [whole] at other
        simp at other
      · have reads := @advances_ip4 host addr v4
        rw [← whole] at reads
        have last := (settles_request known port reads []).always_iff.mp (connected [])
        rcases last.reaches with ⟨ep, there, reaches⟩
        cases there
        have family := congrArg Ipap.v4 (reaches.address numeric).2
        refine Or.inr ⟨numeric, resolved, v4, clientFamily, ?_⟩
        rw [← v4, ← family]
        rfl

theorem carries_iff (lookup : client.dnsresolve [] = none) (known : addr.type ≠ .error)
    (port : addr.port ≠ 0) : Carries client host addr ↔ Supported client host addr :=
  ⟨supported_of_carries lookup known port, carries_supported known port⟩

theorem not_reads_ip6 (more : List UInt8) (ep : Endpoint) :
    ¬(worker host).Reads (4 :: more) ep := by
  intro reads
  rcases reads_bind reads with ⟨first, second, packet, whole, before, after⟩
  rcases reads_read before with ⟨rfl, long⟩
  rcases first with _ | ⟨atyp, rest⟩
  · cases long
  · rw [List.cons_append, List.cons.injEq] at whole
    rcases reads_bind after with ⟨third, fourth, address, -, decoded, -⟩
    rw [← whole.1] at decoded
    rcases reads_bind decoded with ⟨fifth, sixth, received, -, -, quits⟩
    exact not_reads_quit quits

/-- What the two agree on, and the address that the server does not take. -/
theorem request_carried (known : addr.type ≠ .error) (port : addr.port ≠ 0) :
    (Supported client host addr → Carries client host addr) ∧
      ∀ more ep, ¬(worker host).Reads (4 :: more) ep :=
  ⟨carries_supported known port, not_reads_ip6⟩

end request

/-- The request for 10.0.0.1, port 80. -/
theorem request_carried_ip4 :
    Carries {} {} { ip := ⟨true, [10, 0, 0, 1], 80, rfl⟩, type := .tcpResolved } := by
  refine (request_carried (by decide) (by decide)).1 (Or.inr ?_)
  exact ⟨rfl, rfl, rfl, rfl, rfl⟩

/-- The server connects to no IPv6 address, and the client does not send it to the end. -/
theorem not_carried :
    ¬Carries { getipDef := .prior6 } { getipDef := .prior6 }
        { ip := ⟨false, [32, 1, 13, 184, 0, 0, 0, 0, 0, 0, 0, 0, 0, 0, 0, 1], 443, rfl⟩
          type := .tcpResolved } ∧
      ∀ more ep, ¬(worker { getipDef := .prior6 }).Reads
        ([4, 32, 1, 13, 184, 0, 0, 0, 0, 0, 0, 0, 0, 0, 0, 0, 1, 1, 187] ++ more) ep := by
  constructor
  · intro carries
    have supported := supported_of_carries rfl (by decide) (by decide) carries
    revert supported
    simp [Supported]
  · intro more ep
    exact not_reads_ip6 _ ep

end Imconee.Shadowsocks
