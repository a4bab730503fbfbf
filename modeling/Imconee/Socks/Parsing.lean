import Imconee.Netkit.Arrival
import Imconee.Socks.Agreement
import Imconee.Socks.Encoding

/-!
# Requests of any client

The server reads a request that has been sent by some other program, in whatever pieces it
arrives. Four octets are read into what `ipap()` is in the configuration at hand, so that an
IPv4 address is only understood as one where the machine is configured for IPv4.
-/

set_option autoImplicit false

namespace Imconee.Socks

open Lib Netkit Dialogue

namespace Address

/-- The endpoint has this address, and the port. -/
def Is (address : Address) (port : UInt16) (ep : Endpoint) : Prop :=
  ep.port = port ∧
    match address with
    | ip4 octets _ =>
        ep.type = .tcpResolved ∧ ep.domain = [] ∧ ep.ip.v4 = true ∧ ep.ip.octets = octets
    | domain name _ => ep.type = .tcpDomain ∧ ep.domain = name
    | ip6 octets _ =>
        ep.type = .tcpResolved ∧ ep.domain = [] ∧ ep.ip.v4 = false ∧ ep.ip.octets = octets

def IsIp4 : Address → Prop
  | ip4 _ _ => True
  | _ => False

end Address

/-- What a client sends behind the methods that it offers: nothing, if the anonymous one is
picked, or the name and the password. -/
inductive HandlerSocks.Passes (self : HandlerSocks) (methods : List UInt8) : List UInt8 → Prop where
  | anonymous (picked : self.selectMethod methods 0xff = 0) : Passes self methods []
  | password (picked : self.selectMethod methods 0xff = 2) (login : self.login.length ≤ 255)
      (pass : self.pass.length ≤ 255) :
      Passes self methods ([1] ++ pushs self.login ++ pushs self.pass)

variable {self : HandlerSocks} {host : Host} {methods auth : List UInt8} {count : UInt8}

/-- The address of a request, and what the server makes of it. -/
theorem advances_address (host : Host) (address : Address) (port : UInt16) :
    ∃ atyp first rest ep, address.bytes = atyp :: first :: rest ∧
      Advances (readAddress host [5, 1, 0, atyp, first]) rest [] (value ep) ∧
      (address.Is port (ep.setPort port) ↔ (address.IsIp4 → host.getipDef.v4 = true)) := by
  cases address with
  | ip4 octets size =>
      rcases octets with _ | ⟨a, _ | ⟨b, _ | ⟨c, _ | ⟨d, _ | ⟨e, more⟩⟩⟩⟩⟩
      case cons.cons.cons.cons.nil =>
        have read : Advances (readAddress host [5, 1, 0, 1, a]) ([b, c, d] ++ []) []
            (value (Endpoint.setIpap { ip := .clear host.getipDef }
              (.build host.getipDef [a, b, c, d] 4 0))) :=
          .afterRead rfl (.here _)
        refine ⟨1, a, [b, c, d], _, rfl, read, ?_⟩
        constructor
        · rintro ⟨-, -, -, family, -⟩ -
          exact family
        · intro family
          have v4 := family trivial
          refine ⟨rfl, rfl, rfl, v4, ?_⟩
          simp [Endpoint.setPort, Endpoint.setIpap, Ipap.build, v4]
      all_goals simp at size
  | domain name short =>
      have length : name.length = (UInt8.ofNat name.length).toNat := by
        rw [UInt8.toNat_ofNat']
        omega
      have read : Advances (readAddress host [5, 1, 0, 3, UInt8.ofNat name.length])
          (name ++ []) [] (value (Endpoint.setDomain { ip := .clear host.getipDef } name)) :=
        .afterRead length (.here _)
      rw [List.append_nil] at read
      refine ⟨3, UInt8.ofNat name.length, name, _, rfl, read, ?_⟩
      constructor
      · exact fun _ four => four.elim
      · exact fun _ => ⟨rfl, rfl, rfl⟩
  | ip6 octets size =>
      rcases octets with _ | ⟨a, rest⟩
      · simp at size
      · have read : Advances (readAddress host [5, 1, 0, 4, a]) (rest ++ []) []
            (value (Endpoint.setIpap { ip := .clear host.getipDef }
              (.build host.getipDef ([a] ++ rest) 16 0))) :=
          .afterRead (Nat.succ.inj size) (.here _)
        rw [List.append_nil] at read
        refine ⟨4, a, rest, _, rfl, read, ?_⟩
        constructor
        · exact fun _ four => four.elim
        · intro _
          refine ⟨rfl, rfl, rfl, rfl, ?_⟩
          have whole : (a :: rest).takeD 16 0 = a :: rest := by
            rw [List.takeD_eq_take _ (Nat.le_of_eq size.symm)]
            exact List.take_of_length_le (Nat.le_of_eq size)
          exact whole

theorem advances_request {address : Address} {port : UInt16} :
    ∃ call, Advances (request5 host) (message 1 address port) [] (value call) ∧
      (address.Is port call.inf ↔ (address.IsIp4 → host.getipDef.v4 = true)) := by
  rcases advances_address host address port with ⟨atyp, first, rest, ep, bytes, read, is⟩
  have whole : message 1 address port =
      [5, 1, 0, atyp, first] ++ (rest ++ (push16 port ++ [])) := by
    rw [message, bytes]
    simp
  rw [whole]
  refine ⟨⟨ep.setPort port, fun ec => stored (stores5 host port (ep.setPort port) ec) 10⟩,
    .afterTryRead rfl ?_, is⟩
  dsimp only
  rw [if_pos ⟨rfl, rfl⟩, if_pos (show [5, 1, 0, atyp, first].getD 1 0 = 1 from rfl)]
  refine read.andThen (.afterRead rfl ?_)
  rw [portOf_push16]
  exact .here _

/-- The server gets through with the greeting, and with the name and the password. -/
theorem advances_greeting (allow5 : self.allow5 = true) (counted : methods.length = count.toNat)
    (passes : self.Passes methods auth) :
    ∃ output, Advances (self.handshake host) (5 :: count :: (methods ++ auth)) output
      (request5 host) := by
  have greets := @advances_handshake self host allow5 count methods counted
  cases passes with
  | anonymous picked =>
      rw [picked, if_neg (by decide), afterMethod, if_neg (by decide)] at greets
      exact ⟨_, greets⟩
  | password picked login pass =>
      rw [picked, if_neg (by decide), afterMethod, if_pos rfl] at greets
      have known := (@advances_authenticate self _ _ login pass).bind fun _ => request5 host
      rw [if_pos ⟨rfl, rfl⟩, if_pos ⟨rfl, rfl⟩] at known
      have both := greets.trans known
      simp only [List.append_nil, List.singleton_append] at both
      exact ⟨_, both⟩

theorem HandlerSocks.Passes.length (passes : self.Passes methods auth) : auth.length ≤ 513 := by
  cases passes with
  | anonymous picked => exact Nat.zero_le _
  | password picked login pass =>
      simp only [pushs, List.length_append, List.length_cons, List.length_nil]
      omega

/-- The server calls `worker` with the address and the port of the request, and leaves the
bytes behind it in the stream. -/
def Parsed (impl : PipeImpl (TcpPipe Arriving)) (self : HandlerSocks) (host : Host)
    (pipe : TcpPipe Arriving) (address : Address) (port : UInt16) (tail : List UInt8) : Prop :=
  ∃ call last, conclude impl (self.handshake host) pipe = some (some call, last) ∧
    address.Is port call.inf ∧ last.stream Arriving.incoming = tail

section

variable {address : Address} {port : UInt16} {tail : List UInt8} {socket : Arriving} {fuel : ℕ}

/-- What the server makes of a request, in whatever pieces it arrives. -/
theorem handshake_concludes (allow5 : self.allow5 = true)
    (counted : methods.length = count.toNat) (passes : self.Passes methods auth)
    (enough : socket.coming.length + 2 ≤ fuel)
    (stream : socket.incoming =
      5 :: count :: (methods ++ auth) ++ message 1 address port ++ tail) :
    ∃ call last, conclude (tcpPipe arriving fuel) (self.handshake host) { socket } =
        some (some call, last) ∧
      (address.Is port call.inf ↔ (address.IsIp4 → host.getipDef.v4 = true)) ∧
      last.stream Arriving.incoming = tail := by
  rcases @advances_greeting self host methods auth count allow5 counted passes with ⟨output, greets⟩
  rcases @advances_request host address port with ⟨call, reads, is⟩
  have short : (5 :: count :: (methods ++ auth) ++ message 1 address port).length ≤ 47851 := by
    have offered := count.toNat_lt
    have proved := passes.length
    have asked := length_message 1 address port
    simp only [List.length_append, List.length_cons]
    omega
  rcases (answering_arriving fuel).advances (greets.trans reads) (TcpPipe.usable_new enough) stream
    short with ⟨last, -, left, ends, -⟩
  exact ⟨call, last, ends, is, left⟩

/-- A request is parsed, in whatever pieces it arrives, if it is not one for an IPv4 address on
a machine that is configured for IPv6. -/
theorem parsed_iff (allow5 : self.allow5 = true) (counted : methods.length = count.toNat)
    (passes : self.Passes methods auth) (enough : socket.coming.length + 2 ≤ fuel)
    (stream : socket.incoming =
      5 :: count :: (methods ++ auth) ++ message 1 address port ++ tail) :
    Parsed (tcpPipe arriving fuel) self host { socket } address port tail ↔
      (address.IsIp4 → host.getipDef.v4 = true) := by
  rcases @handshake_concludes self host methods auth count address port tail socket fuel allow5
    counted passes enough stream with ⟨call, last, ends, is, left⟩
  rw [← is]
  constructor
  · rintro ⟨call', last', ends', parsed, -⟩
    rw [ends] at ends'
    cases ends'
    exact parsed
  · intro parsed
    exact ⟨call, last, ends, parsed, left⟩

end

/-- The greeting, and a request for 10.0.0.1, port 80, in two pieces. -/
def ip4Client : Arriving where
  coming := [[5, 1], [0, 5, 1, 0, 1, 10, 0, 0], [], [1, 0, 80, 71, 69, 84]]

theorem parsed_iff_ip4 :
    Parsed (tcpPipe arriving 8) { socks5AllowAnon := true } {} { socket := ip4Client }
      (.ip4 [10, 0, 0, 1] rfl) 80 [71, 69, 84] := by
  have parsed := @parsed_iff { socks5AllowAnon := true } {} [0] [] 1 (.ip4 [10, 0, 0, 1] rfl) 80
    [71, 69, 84] ip4Client 8 rfl rfl (.anonymous rfl) (by decide) rfl
  exact parsed.mpr fun _ => rfl

/-- The same client, where the machine is configured for IPv6. -/
theorem not_parsed_ip4 :
    ¬Parsed (tcpPipe arriving 8) { socks5AllowAnon := true } { getipDef := .prior6 }
      { socket := ip4Client } (.ip4 [10, 0, 0, 1] rfl) 80 [71, 69, 84] := by
  rcases @handshake_concludes { socks5AllowAnon := true } { getipDef := .prior6 } [0] [] 1
    (.ip4 [10, 0, 0, 1] rfl) 80 [71, 69, 84] ip4Client 8 rfl rfl (.anonymous rfl) (by decide) rfl
    with ⟨call, last, ends, is, -⟩
  rintro ⟨call', last', ends', parsed, -⟩
  rw [ends] at ends'
  cases ends'
  cases is.mp parsed trivial

end Imconee.Socks
