import Imconee.Socks.Proxy

/-!
# Requests of the client

What `proxy_socks5::prepare` sends for an endpoint, compared with the messages of RFC 1928.
The size of the packet is declared before anything is pushed, for a number it is that of an
IPv4 address; the length of a name is kept in one byte.
-/

set_option autoImplicit false

namespace Imconee.Socks

open Lib Netkit Dialogue

/-- The addresses of the messages of SOCKS 5. -/
inductive Address where
  | ip4 (octets : List UInt8) (size : octets.length = 4)
  | domain (name : List UInt8) (short : name.length ≤ 255)
  | ip6 (octets : List UInt8) (size : octets.length = 16)

namespace Address

/-- The type and the address, as they are sent. -/
def bytes : Address → List UInt8
  | ip4 octets _ => 1 :: octets
  | domain name _ => 3 :: UInt8.ofNat name.length :: name
  | ip6 octets _ => 4 :: octets

/-- The address by which an endpoint is known: its name, if it has one. -/
def Names (addr : Endpoint) : Address → Prop
  | ip4 octets _ =>
      addr.domain = [] ∧ addr.type = .tcpResolved ∧ addr.ip.v4 = true ∧ addr.ip.octets = octets
  | domain name _ => addr.domain = name ∧ (name = [] → addr.type = .tcpDomain)
  | ip6 octets _ =>
      addr.domain = [] ∧ addr.type = .tcpResolved ∧ addr.ip.v4 = false ∧ addr.ip.octets = octets

end Address

/-- A request or a reply. -/
def message (code : UInt8) (address : Address) (port : UInt16) : List UInt8 :=
  [5, code, 0] ++ address.bytes ++ push16 port

theorem length_message (code : UInt8) (address : Address) (port : UInt16) :
    (message code address port).length ≤ 262 := by
  cases address with
  | ip4 octets size =>
      simp only [message, Address.bytes, push16, List.length_append, List.length_cons,
        List.length_nil]
      omega
  | domain name short =>
      simp only [message, Address.bytes, push16, List.length_append, List.length_cons,
        List.length_nil]
      omega
  | ip6 octets size =>
      simp only [message, Address.bytes, push16, List.length_append, List.length_cons,
        List.length_nil]
      omega

section

variable {host : Host} {auth : List UInt8} {addr : Endpoint}

/-- The size that `pgen` is given. -/
def declaredSize (addr : Endpoint) : ℕ :=
  if addr.domain = [] then 10 else addr.domain.length + 7

/-- What is pushed into the packet. -/
def pushedRequest (host : Host) (addr : Endpoint) : List UInt8 :=
  if addr.domain = [] then
    let a := (addr.getIp host host.getipDef false).1
    [5, 1, 0] ++ [if a.v4 then 1 else 4] ++ pushIp a true
  else [5, 1, 0, 3] ++ pushs addr.domain ++ push16 addr.port

theorem connectRequest_eq :
    connectRequest host addr = pgen (declaredSize addr) (pushedRequest host addr) := by
  rw [connectRequest, declaredSize, pushedRequest]
  split <;> rfl

/-! ### What is sent -/

theorem silent_readAnswer : readAnswer.Silent := by
  apply (only_tryRead 2).bind
  intro received
  dsimp only
  split
  · apply (only_tryRead 2).bind
    intro received
    split
    · exact (only_read 6).bind fun _ => trivial
    · apply (only_read 1).bind
      intro length answer
      change Only _ (if _ then _ else _)
      split <;> trivial
    · exact (only_read 18).bind fun _ => trivial
    · trivial
  · trivial

theorem told_sayRequest {heard : List UInt8} {told : List (List UInt8)} {last : Dialogue Unit}
    (talks : Talks (sayRequest host addr) heard told last) :
    ∀ request ∈ told, request = connectRequest host addr := by
  rcases talks.of_tell with rfl | ⟨taken, more, rfl, rest⟩
  · intro request sent
    cases sent
  · have nothing : more = [] := by
      split at rest
      · exact silent_readAnswer.told rest
      · exact rest.of_quit
    intro request sent
    rw [nothing] at sent
    exact List.mem_singleton.mp sent

theorem told_readPassed {heard : List UInt8} {told : List (List UInt8)} {last : Dialogue Unit}
    (talks : Talks (readPassed host addr) heard told last) :
    ∀ request ∈ told, request = connectRequest host addr := by
  intro request sent
  rcases talks.of_read with rfl | ⟨packet, more, -, -, rest⟩
  · cases sent
  · split at rest
    · exact told_sayRequest rest request sent
    · rw [rest.of_quit] at sent
      cases sent

theorem told_readMethod {heard : List UInt8} {told : List (List UInt8)} {last : Dialogue Unit}
    (talks : Talks (readMethod host auth addr) heard told last) :
    ∀ request ∈ told.drop (if authpacket auth = [] then 0 else 1),
      request = connectRequest host addr := by
  intro request sent
  rcases talks.of_read with rfl | ⟨packet, more, -, -, rest⟩
  · rw [List.drop_nil] at sent
    cases sent
  · split at rest
    · split at rest
      · rename_i anonymous
        rw [if_pos anonymous] at sent
        exact told_sayRequest rest request sent
      · rename_i given
        rw [if_neg given] at sent
        rcases rest.of_tell with rfl | ⟨taken, others, rfl, passed⟩
        · cases sent
        · split at passed
          · exact told_readPassed passed request sent
          · rw [passed.of_quit] at sent
            cases sent
    · rw [rest.of_quit, List.drop_nil] at sent
      cases sent

/-- How many messages the client sends before the request. -/
def preliminaries (auth : List UInt8) : ℕ := (if authpacket auth = [] then 0 else 1) + 1

/-- Behind the greeting, and the name and the password, there is nothing but the request. -/
theorem told_prepare5 {heard : List UInt8} {told : List (List UInt8)} {last : Dialogue Unit}
    (talks : Talks (prepare5 host auth addr) heard told last) :
    ∀ request ∈ told.drop (preliminaries auth), request = connectRequest host addr := by
  intro request sent
  rw [prepare5] at talks
  split at talks
  · rw [talks.of_quit, List.drop_nil] at sent
    cases sent
  · rcases talks.of_tell with rfl | ⟨taken, more, rfl, rest⟩
    · rw [List.drop_nil] at sent
      cases sent
    · rw [preliminaries, List.drop_succ_cons] at sent
      split at rest
      · exact told_readMethod rest request sent
      · rw [rest.of_quit, List.drop_nil] at sent
        cases sent

theorem talks_readMethod : ∃ heard told last, Talks (readMethod host auth addr) heard told last ∧
    connectRequest host addr ∈ told.drop (if authpacket auth = [] then 0 else 1) := by
  have asks : Talks (sayRequest host addr) [] [connectRequest host addr] readAnswer :=
    .afterTell (.here _)
  by_cases anonymous : authpacket auth = []
  · refine ⟨[5, method auth] ++ [], [connectRequest host addr], readAnswer, .afterRead rfl ?_, ?_⟩
    · rw [if_pos ⟨rfl, rfl⟩, if_pos anonymous]
      exact asks
    · rw [if_pos anonymous]
      exact List.mem_singleton_self _
  · refine ⟨[5, method auth] ++ ([1, 0] ++ []), [authpacket auth, connectRequest host addr],
      readAnswer, .afterRead rfl ?_, ?_⟩
    · rw [if_pos ⟨rfl, rfl⟩, if_neg anonymous]
      refine .afterTell (.afterRead rfl ?_)
      rw [if_pos (show ([1, 0] : List UInt8).getD 1 0 = 0 from rfl)]
      exact asks
    · rw [if_neg anonymous]
      exact List.mem_singleton_self _

/-- A proxy that agrees to everything is sent the request. -/
theorem talks_prepare5 (known : addr.type ≠ .error) (port : addr.port ≠ 0) :
    ∃ heard told last, Talks (prepare5 host auth addr) heard told last ∧
      connectRequest host addr ∈ told.drop (preliminaries auth) := by
  rcases @talks_readMethod host auth addr with ⟨heard, told, last, talks, sent⟩
  rw [prepare5, if_neg (not_or.mpr ⟨known, port⟩)]
  refine ⟨heard, [5, 1, method auth] :: told, last, .afterTell talks, ?_⟩
  rw [preliminaries, List.drop_succ_cons]
  exact sent

/-! ### What the request is -/

/-- The request is that of RFC 1928 for the endpoint, and the packet has been filled. -/
structure WellEncoded (host : Host) (addr : Endpoint) (request : List UInt8) : Prop where
  rfc : ∃ address, Address.Names addr address ∧ request = message 1 address addr.port
  filled : (pushedRequest host addr).length = declaredSize addr
  inside : declaredSize addr ≤ 512

/-- Whatever the proxy answers, the request is as it should be if one is sent. -/
def Encodes (host : Host) (auth : List UInt8) (addr : Endpoint) : Prop :=
  ∀ heard told last, Talks (prepare5 host auth addr) heard told last →
    ∀ request ∈ told.drop (preliminaries auth), WellEncoded host addr request

/-- A name whose length is a byte, or an IPv4 address. On a machine that is configured for
IPv6 the resolver is asked about the empty name, which would have to be that address. -/
def Encodable (host : Host) (addr : Endpoint) : Prop :=
  if addr.domain = [] then
    addr.type = .tcpResolved ∧ addr.ip.v4 = true ∧
      (host.getipDef.v4 = true ∨
        ∃ found, host.dnsresolve [] = some found ∧ found.v4 = true ∧
          found.octets = addr.ip.octets)
  else addr.domain.length ≤ 255

theorem encodes_iff_wellEncoded (known : addr.type ≠ .error) (port : addr.port ≠ 0) :
    Encodes host auth addr ↔ WellEncoded host addr (connectRequest host addr) := by
  constructor
  · intro encodes
    rcases @talks_prepare5 host auth addr known port with ⟨heard, told, last, talks, sent⟩
    exact encodes heard told last talks _ sent
  · intro fine heard told last talks request sent
    rw [told_prepare5 talks request sent]
    exact fine

theorem length_pushIp (ip : Ipap) : (pushIp ip true).length = if ip.v4 then 6 else 18 := by
  rw [pushIp, if_pos rfl, List.length_append, ip.size]
  split <;> rfl

theorem filled_iff (numeric : addr.domain = []) :
    (pushedRequest host addr).length = declaredSize addr ↔
      (addr.getIp host host.getipDef false).1.v4 = true := by
  rw [pushedRequest, declaredSize, if_pos numeric, if_pos numeric]
  simp only [List.length_append, length_pushIp, List.length_cons, List.length_nil]
  split
  · rename_i v4
    simp [v4]
  · rename_i v6
    simp [v6]

/-- `get_ip` gives the address of the endpoint, the family apart. -/
theorem getIp_numeric (numeric : addr.domain = []) (resolved : addr.type = .tcpResolved)
    (v4 : addr.ip.v4 = true) :
    ((addr.getIp host host.getipDef false).1.v4 = true ∧
        (addr.getIp host host.getipDef false).1.octets = addr.ip.octets ∧
        (addr.getIp host host.getipDef false).1.port = addr.port) ↔
      (host.getipDef.v4 = true ∨
        ∃ found, host.dnsresolve [] = some found ∧ found.v4 = true ∧
          found.octets = addr.ip.octets) := by
  rw [Endpoint.getIp]
  by_cases family : host.getipDef.v4 = true
  · rw [if_pos ⟨resolved, Or.inr (v4.trans family.symm)⟩]
    exact ⟨fun _ => Or.inl family, fun _ => ⟨v4, rfl, rfl⟩⟩
  · have other : ¬(addr.type = .tcpResolved ∧ ((false : Bool) = true ∨
        addr.ip.v4 = host.getipDef.v4)) := by
      rintro ⟨-, wrong | same⟩
      · cases wrong
      · exact family (same.symm.trans v4)
    rw [if_neg other, if_neg (by rw [resolved]; exact AddrType.noConfusion), numeric]
    cases host.dnsresolve [] with
    | none => simp [Ipap.clear, family]
    | some found =>
        simp only [family, Option.some.injEq, exists_eq_left', Bool.false_eq_true, false_or]
        constructor
        · rintro ⟨v4, octets, -⟩
          exact ⟨v4, octets⟩
        · rintro ⟨v4, octets⟩
          exact ⟨v4, octets, rfl⟩

theorem wellEncoded_numeric (numeric : addr.domain = []) :
    WellEncoded host addr (connectRequest host addr) ↔
      addr.type = .tcpResolved ∧ addr.ip.v4 = true ∧
        (addr.getIp host host.getipDef false).1.v4 = true ∧
        (addr.getIp host host.getipDef false).1.octets = addr.ip.octets ∧
        (addr.getIp host host.getipDef false).1.port = addr.port := by
  have request (v4 : (addr.getIp host host.getipDef false).1.v4 = true) :
      connectRequest host addr =
        [5, 1, 0, 1] ++ (addr.getIp host host.getipDef false).1.octets ++
          push16 (addr.getIp host host.getipDef false).1.port := by
    have filled := (filled_iff numeric).mpr v4
    rw [connectRequest_eq, pgen, ← filled, List.take_length, pushedRequest, if_pos numeric]
    simp [v4, pushIp]
  constructor
  · intro fine
    have v4 := (filled_iff numeric).mp fine.filled
    rcases fine.rfc with ⟨address, names, bytes⟩
    rw [request v4] at bytes
    cases address with
    | ip4 octets size =>
        rcases names with ⟨-, resolved, own, rfl⟩
        have long : (addr.getIp host host.getipDef false).1.octets.length = 4 := by
          rw [Ipap.size, if_pos v4]
        simp only [message, Address.bytes, List.cons_append, List.nil_append, List.cons.injEq,
          true_and] at bytes
        rcases List.append_inj bytes (long.trans size.symm) with ⟨octets, ports⟩
        refine ⟨resolved, own, v4, octets, ?_⟩
        have back := portOf_push16 (addr.getIp host host.getipDef false).1.port
        rw [ports, portOf_push16] at back
        exact back.symm
    | domain name short => simp [message, Address.bytes] at bytes
    | ip6 octets size => simp [message, Address.bytes] at bytes
  · rintro ⟨resolved, own, v4, octets, ports⟩
    refine ⟨⟨.ip4 addr.ip.octets ?_, ⟨numeric, resolved, own, rfl⟩, ?_⟩,
      (filled_iff numeric).mpr v4, ?_⟩
    · rw [addr.ip.size, if_pos own]
    · rw [request v4, octets, ports]
      rfl
    · rw [declaredSize, if_pos numeric]
      decide

theorem wellEncoded_named (named : addr.domain ≠ []) :
    WellEncoded host addr (connectRequest host addr) ↔ addr.domain.length ≤ 255 := by
  constructor
  · intro fine
    rcases fine.rfc with ⟨address, names, -⟩
    cases address with
    | ip4 octets size => exact absurd names.1 named
    | domain name short =>
        rw [names.1]
        exact short
    | ip6 octets size => exact absurd names.1 named
  · intro short
    have filled : (pushedRequest host addr).length = declaredSize addr := by
      rw [pushedRequest, declaredSize, if_neg named, if_neg named]
      simp [pushs, push16]
    refine ⟨⟨.domain addr.domain short, ⟨rfl, fun none => absurd none named⟩, ?_⟩, filled, ?_⟩
    · rw [connectRequest_eq, pgen, ← filled, List.take_length, pushedRequest, if_neg named]
      rfl
    · rw [declaredSize, if_neg named]
      omega

/-- The request is that of RFC 1928, whatever the proxy answers, for the endpoints that are
encodable. -/
theorem encodes_iff (known : addr.type ≠ .error) (port : addr.port ≠ 0) :
    Encodes host auth addr ↔ Encodable host addr := by
  rw [encodes_iff_wellEncoded known port, Encodable]
  by_cases numeric : addr.domain = []
  · rw [if_pos numeric, wellEncoded_numeric numeric]
    constructor
    · rintro ⟨resolved, own, given⟩
      exact ⟨resolved, own, (getIp_numeric numeric resolved own).mp given⟩
    · rintro ⟨resolved, own, found⟩
      exact ⟨resolved, own, (getIp_numeric numeric resolved own).mpr found⟩
  · rw [if_neg numeric]
    exact wellEncoded_named numeric

end

/-- The endpoint 10.0.0.1, port 80. -/
def ip4Endpoint : Endpoint where
  ip := { v4 := true, octets := [10, 0, 0, 1], port := 80, size := rfl }
  type := .tcpResolved

theorem encodes_iff_ip4 : Encodes {} [] ip4Endpoint := by
  apply (encodes_iff (by decide) (by decide)).mpr
  exact ⟨rfl, rfl, Or.inl rfl⟩

/-- The endpoint ::1, port 80. -/
def ip6Endpoint : Endpoint where
  ip := { v4 := false, octets := List.replicate 15 0 ++ [1], port := 80, size := rfl }
  type := .tcpResolved

/-- The packet is declared to have ten bytes, and 22 are pushed. -/
theorem not_encodes_ip6 : ip6Endpoint.type ≠ .error ∧ ip6Endpoint.port ≠ 0 ∧
    ¬Encodes { getipDef := .prior6 } [] ip6Endpoint := by
  refine ⟨by decide, by decide, ?_⟩
  intro encodes
  have fine := (encodes_iff_wellEncoded (by decide) (by decide)).mp encodes
  have own := ((wellEncoded_numeric rfl).mp fine).2.1
  cases own

end Imconee.Socks
