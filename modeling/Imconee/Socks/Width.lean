import Imconee.Socks.Gate
import Imconee.Socks.Proxy

/-!
# SOCKS 4 and the width of `u32`

The request of `proxy_socks4::prepare` is a structure that ends in a `u32`, and `handshake4`
stores a `u32` into the last four bytes of its answer. Where `u32` has four bytes both ends
agree. On the 64-bit Linux build it has eight of them.
-/

set_option autoImplicit false

namespace Imconee.Socks

open Lib Netkit Dialogue

/-- What a dialogue sends before it receives anything. -/
def firstSent {α : Type} : Dialogue α → Option (List UInt8)
  | .send bytes _ => some bytes
  | _ => none

/-- A resolved IPv4 address with a port. -/
structure Resolved4 (addr : Endpoint) : Prop where
  numeric : addr.domain = []
  resolved : addr.type = .tcpResolved
  v4 : addr.ip.v4 = true
  port : addr.port ≠ 0

/-- The request is the one of the protocol. -/
def Requests (client : Host) (userid : List UInt8) (addr : Endpoint) : Prop :=
  firstSent (prepare4 client userid addr) =
    some ([4, 1] ++ push16 addr.port ++ addr.ip.octets ++ userid ++ [0])

/-- The server reads all of the request, and calls `worker` for the destination. -/
def Decodes (client host : Host) (self : HandlerSocks) (addr : Endpoint) : Prop :=
  ∃ request call, firstSent (prepare4 client self.userid addr) = some request ∧
    (self.handshake host).Reads request call ∧ Reaches addr call.inf

/-- The answer stays inside `rp[8]`. -/
def Fits (host : Host) (addr : Endpoint) : Prop :=
  ∀ ec, ∀ store ∈ stores4 host addr.port addr.ip ec, store.1 + store.2.length ≤ 8

section width

variable {client host : Host} {self : HandlerSocks} {userid : List UInt8} {addr : Endpoint}

theorem length_u32 (host : Host) (ip : Ipap) : (ip.u32 host.sizeofU32).length = host.sizeofU32 :=
  List.takeD_length _ _ _

/-- The request, with the address as wide as a `u32`. -/
theorem firstSent_prepare4 (destination : Resolved4 addr) :
    firstSent (prepare4 client userid addr) =
      some ([4, 1] ++ push16 addr.port ++ addr.ip.u32 client.sizeofU32 ++ userid ++ [0]) := by
  have found : addr.getIp client .only4 false = (addr.ip, addr) :=
    if_pos ⟨destination.resolved, Or.inr destination.v4⟩
  rw [prepare4, found]
  dsimp only
  rw [if_pos ⟨destination.resolved, destination.port⟩, connectPacket, found]
  rfl

theorem length_octets (v4 : addr.ip.v4 = true) : addr.ip.octets.length = 4 := by
  have size := addr.ip.size
  rwa [v4, if_pos rfl] at size

theorem u32_eight (v4 : addr.ip.v4 = true) : addr.ip.u32 8 = addr.ip.octets ++ [0, 0, 0, 0] := by
  have long := length_octets v4
  rw [Ipap.u32, if_pos v4]
  generalize addr.ip.octets = octets at long ⊢
  rcases octets with _ | ⟨a, _ | ⟨b, _ | ⟨c, _ | ⟨d, _ | ⟨e, more⟩⟩⟩⟩⟩
  case cons.cons.cons.cons.nil => rfl
  all_goals simp at long

theorem u32_four (v4 : addr.ip.v4 = true) : addr.ip.u32 4 = addr.ip.octets := by
  have long := length_octets v4
  rw [Ipap.u32, if_pos v4, List.takeD_eq_take _ (Nat.le_of_eq long.symm)]
  exact List.take_of_length_le (Nat.le_of_eq long)

/-! ### Four bytes -/

theorem advances_readUid {fuel : ℕ} {uid name : List UInt8} (enough : name.length < fuel)
    (short : uid.length + name.length ≤ 255) (nonzero : 0 ∉ name) :
    Advances (readUid fuel uid) (name ++ [0]) [] (value (uid ++ name)) := by
  induction name generalizing fuel uid with
  | nil =>
      rcases fuel with _ | fuel
      · cases enough
      · rw [readUid, List.append_nil]
        refine @Advances.afterRead _ 1 _ [0] [] _ _ rfl ?_
        dsimp only
        rw [if_pos (Or.inl (show ([0] : List UInt8).getD 0 0 = 0 from rfl))]
        exact .here _
  | cons byte name ih =>
      rw [List.length_cons] at enough short
      rw [List.mem_cons, not_or] at nonzero
      rcases fuel with _ | fuel
      · cases enough
      · have rest := @ih fuel (uid ++ [byte]) (by omega) (by simp; omega) nonzero.2
        rw [List.append_assoc] at rest
        rw [readUid]
        have goesOn : ¬([byte].getD 0 0 = 0 ∨ 255 < uid.length) := by
          rw [not_or]
          exact ⟨fun zero => nonzero.1 zero.symm, by omega⟩
        refine @Advances.afterRead _ 1 _ [byte] _ _ _ rfl ?_
        dsimp only
        rw [if_neg goesOn]
        exact rest

theorem requests_four (width : client.sizeofU32 = 4) (destination : Resolved4 addr) :
    Requests client userid addr := by
  rw [Requests, firstSent_prepare4 destination, width, u32_four destination.v4]

/-- What the server calls `worker` with. -/
def serverCall4 (host : Host) (addr : Endpoint) : Call where
  inf := { ip := .build host.getipDef addr.ip.octets 4 addr.port, type := .tcpResolved }
  answ ec := stored
    (stores4 host addr.port (.build host.getipDef addr.ip.octets 4 addr.port) ec) 8

/-- The server reads the request, and tests the name of the user. -/
theorem advances_handshake4 (destination : Resolved4 addr) (allow4 : self.allow4 = true)
    (short : userid.length ≤ 255) (nonzero : 0 ∉ userid) :
    Advances (self.handshake host)
      ([4] ++ ([1] ++ push16 addr.port ++ addr.ip.octets ++ (userid ++ [0] ++ [])))
      (if userid = self.userid then [] else [0, 93, 0, 0, 0, 0, 0, 0] ++ [])
      (if userid = self.userid then value (serverCall4 host addr) else quit) := by
  refine .afterRead rfl ?_
  rw [if_pos (show ([4] : List UInt8).getD 0 0 = 4 from rfl), HandlerSocks.handshake4,
    if_pos allow4]
  refine .afterRead (by simp [push16, length_octets destination.v4]) ?_
  have command : ([1] ++ push16 addr.port ++ addr.ip.octets : List UInt8).getD 0 0 = 1 := rfl
  rw [if_pos command]
  dsimp only
  have port : portOf (([1] ++ push16 addr.port ++ addr.ip.octets).getD 1 0)
      (([1] ++ push16 addr.port ++ addr.ip.octets).getD 2 0) = addr.port := portOf_bytes addr.port
  rw [port, ← List.nil_append (if userid = self.userid then ([] : List UInt8) else _)]
  refine (advances_readUid (by omega) (by simpa using short) nonzero).andThen ?_
  rw [List.nil_append]
  by_cases same : userid = self.userid
  · rw [if_pos same, if_pos same, if_pos same]
    exact .here _
  · rw [if_neg same, if_neg same, if_neg same]
    exact .afterTell (.here _)

theorem decodes_four (width : client.sizeofU32 = 4) (destination : Resolved4 addr)
    (allow4 : self.allow4 = true) (family : host.getipDef.v4 = true)
    (short : self.userid.length ≤ 255) (nonzero : 0 ∉ self.userid) :
    Decodes client host self addr := by
  have reads := @advances_handshake4 host self self.userid addr destination allow4 short nonzero
  rw [if_pos rfl, if_pos rfl] at reads
  have found : (serverCall4 host addr).inf.ip = addr.ip := Ipap.build_octets destination.v4 family
  refine ⟨_, _, requests_four width destination, ?_, destination.numeric.symm, ?_,
    fun _ => ⟨rfl, found⟩, fun named => absurd destination.numeric named⟩
  · simpa using reads.reads
  · exact congrArg Ipap.port found

theorem fits_four (width : host.sizeofU32 = 4) : Fits host addr := by
  intro ec store stored
  simp only [stores4, List.mem_cons, List.not_mem_nil, or_false] at stored
  rcases stored with rfl | rfl | rfl | rfl | rfl
  case inr.inr.inr.inr =>
    have long : (addr.ip.u32 host.sizeofU32).length = 4 := (length_u32 host addr.ip).trans width
    exact Nat.add_le_add_left (Nat.le_of_eq long) 4
  all_goals exact Nat.le_of_ble_eq_true rfl

/-- Where a `u32` has four bytes, as its name says, the two agree. -/
theorem agree_of_four (widthClient : client.sizeofU32 = 4) (width : host.sizeofU32 = 4)
    (destination : Resolved4 addr) (allow4 : self.allow4 = true)
    (family : host.getipDef.v4 = true) (short : self.userid.length ≤ 255)
    (nonzero : 0 ∉ self.userid) :
    Requests client self.userid addr ∧ Decodes client host self addr ∧ Fits host addr :=
  ⟨requests_four widthClient destination,
    decodes_four widthClient destination allow4 family short nonzero, fits_four width⟩

/-! ### Eight bytes -/

theorem not_requests (lp64 : client.sizeofU32 = 8) (destination : Resolved4 addr) :
    ¬Requests client userid addr := by
  intro requests
  rw [Requests, firstSent_prepare4 destination, lp64, u32_eight destination.v4] at requests
  have same := congrArg List.length (Option.some.inj requests)
  simp only [List.length_append, List.length_cons, List.length_nil] at same
  omega

/-- The bytes behind the address end the name before it has begun: a client that has a name is
turned away, and the rest of the request of any other one stays in the stream. -/
theorem reads_wide (lp64 : client.sizeofU32 = 8) (destination : Resolved4 addr)
    (short : self.userid.length ≤ 255) {front more : List UInt8} {call : Call}
    (sent : firstSent (prepare4 client self.userid addr) = some (front ++ more))
    (reads : (self.handshake host).Reads front call) :
    self.userid = [] ∧ more = [0, 0, 0, 0] := by
  rw [firstSent_prepare4 destination, lp64, u32_eight destination.v4] at sent
  have started := Option.some.inj sent
  cases reads_handshake short reads with
  | socks5 allowed counted authenticated => cases started
  | @socks4 port address allowed twoBytes fourBytes name =>
      have long := length_octets destination.v4
      have fixed : ([4, 1] ++ push16 addr.port ++ addr.ip.octets).length =
          (4 :: 1 :: (port ++ address)).length := by
        simp [push16, long, twoBytes, fourBytes]
      have apart : ([4, 1] ++ push16 addr.port ++ addr.ip.octets) ++
            ([0, 0, 0, 0] ++ self.userid ++ [0]) =
          4 :: 1 :: (port ++ address) ++ (self.userid ++ [0] ++ more) := by
        simpa using started
      have behind := (List.append_inj apart fixed).2
      rcases userid : self.userid with _ | ⟨byte, rest⟩
      · rw [userid] at behind
        exact ⟨rfl, (List.cons.inj behind).2.symm⟩
      · rw [userid] at behind name
        have zero : 0 = byte := (List.cons.inj behind).1
        exact absurd (zero ▸ List.mem_cons_self) name

theorem not_decodes (lp64 : client.sizeofU32 = 8) (destination : Resolved4 addr)
    (short : self.userid.length ≤ 255) : ¬Decodes client host self addr := by
  rintro ⟨request, call, sent, reads, -⟩
  rw [← List.append_nil request] at sent
  cases (reads_wide lp64 destination short sent reads).2

theorem not_fits (lp64 : host.sizeofU32 = 8) : ¬Fits host addr := by
  intro fits
  have last := fits .granted (4, addr.ip.u32 host.sizeofU32) (by simp [stores4])
  rw [length_u32, lp64] at last
  omega

/-- On the 64-bit Linux build the request is not the one of the protocol, the server does not
read it to the end and the answer does not stay inside its array. -/
theorem never_agree (lp64Client : client.sizeofU32 = 8) (lp64 : host.sizeofU32 = 8)
    (destination : Resolved4 addr) (short : self.userid.length ≤ 255) :
    ¬Requests client self.userid addr ∧ ¬Decodes client host self addr ∧ ¬Fits host addr :=
  ⟨not_requests lp64Client destination, not_decodes lp64Client destination short, not_fits lp64⟩

end width

theorem length_tenNet : ([10, 0, 0, 1] : List UInt8).length = if true = true then 4 else 16 := rfl

/-- The destination 10.0.0.1, port 80. -/
def tenNet : Endpoint := { ip := ⟨true, [10, 0, 0, 1], 80, length_tenNet⟩, type := .tcpResolved }

theorem never_agree_tenNet :
    ¬Requests {} [109, 101] tenNet ∧ ¬Decodes {} {} { userid := [109, 101] } tenNet ∧
      ¬Fits {} tenNet :=
  @never_agree {} {} { userid := [109, 101] } tenNet rfl rfl ⟨rfl, rfl, rfl, by decide⟩ (by decide)

/-- Four bytes too many, and the last store ends four bytes behind the array. -/
theorem wide_request :
    firstSent (prepare4 {} [109, 101] tenNet) =
        some [4, 1, 0, 80, 10, 0, 0, 1, 0, 0, 0, 0, 109, 101, 0] ∧
      ¬(Requests {} [109, 101] tenNet ∧ Decodes {} {} { userid := [109, 101] } tenNet ∧
        Fits {} tenNet) := by
  refine ⟨rfl, ?_⟩
  rintro ⟨-, -, fits⟩
  exact absurd fits (not_fits rfl)

end Imconee.Socks
