import Imconee.Lib.Dialogue
import Imconee.Netkit.Endpoint

/-!
# `proxy_socks4` and `proxy_socks5`

What a client says to a proxy before it hands the pipe over. A dialogue that quits is a
`prepare` that returns no pipe.
-/

set_option autoImplicit false

namespace Imconee.Socks

open Lib Netkit

/-! ### SOCKS 4 -/

/-- `connect_packet_socks4`, and what stands behind it. The address is a `u32`. -/
def connectPacket (host : Host) (userid : List UInt8) (addr : Endpoint) : List UInt8 :=
  [4, 1] ++ push16 addr.port ++ (addr.getIp host .only4 false).1.u32 host.sizeofU32 ++ userid ++ [0]

def prepare4 (host : Host) (userid : List UInt8) (addr : Endpoint) : Dialogue Unit := do
  let addr := (addr.getIp host .only4 false).2
  if addr.type = .tcpResolved ∧ addr.port ≠ 0 then
    let taken ← Dialogue.tell (connectPacket host userid addr)
    if taken then
      let answ ← Dialogue.read 8
      if answ.getD 0 0 = 0 ∧ answ.getD 1 0 = 90 then return ()
      else .quit
    else .quit
  else .quit

/-! ### SOCKS 5 -/

/-- The name and the password in a string; without a name there are none. -/
def credentials (auth : List UInt8) : List UInt8 × List UInt8 :=
  let user := auth.takeWhile (· ≠ 58) -- ':'
  let pwd := (auth.dropWhile (· ≠ 58)).drop 1
  if 254 < user.length ∨ 254 < pwd.length then ([], pwd) else (user, pwd)

/-- `authpacket`, as the constructor makes it -/
def authpacket (auth : List UInt8) : List UInt8 :=
  let (user, pwd) := credentials auth
  if user = [] then [] else pgen (user.length + pwd.length + 3) ([1] ++ pushs user ++ pushs pwd)

/-- The method that the client offers. -/
def method (auth : List UInt8) : UInt8 := if authpacket auth = [] then 0 else 2

/-- The request of the client. -/
def connectRequest (host : Host) (addr : Endpoint) : List UInt8 :=
  if addr.domain = [] then
    let a := (addr.getIp host host.getipDef false).1
    pgen 10 ([5, 1, 0] ++ [if a.v4 then 1 else 4] ++ pushIp a true)
  else pgen (addr.domain.length + 7) ([5, 1, 0, 3] ++ pushs addr.domain ++ push16 addr.port)

/-- What the client reads of the answer. Where a call fails, the array still holds what it has
held before; the size that is looked at is that of the answer to the first message. -/
def readAnswer : Dialogue Unit := do
  let received ← Dialogue.tryRead 2
  let packet := received.getD [5, 1]
  if packet.getD 0 0 = 5 ∧ packet.getD 1 0 = 0 then
    let received ← Dialogue.tryRead 2
    match (received.getD packet).getD 1 0 with
    | 1 => -- read ip4 and port
        let _ ← Dialogue.read 6
        return ()
    | 3 =>
        let length ← Dialogue.read 1 -- read domain len
        let rb := (length.getD 0 0).toNat + 2
        let rest ← Dialogue.receive rb .value -- read domain and port
        if rest.map List.length = some rb then return () else .quit
    | 4 => -- read ip6 and port
        let _ ← Dialogue.read 18
        return ()
    | _ => .quit
  else .quit

def sayRequest (host : Host) (addr : Endpoint) : Dialogue Unit := do
  let taken ← Dialogue.tell (connectRequest host addr)
  if taken then readAnswer else .quit

/-- The answer to the name and the password. -/
def readPassed (host : Host) (addr : Endpoint) : Dialogue Unit := do
  let packet ← Dialogue.read 2
  if packet.getD 1 0 = 0 then sayRequest host addr else .quit

/-- The answer to the first message. It names the method that has been offered. -/
def readMethod (host : Host) (auth : List UInt8) (addr : Endpoint) : Dialogue Unit := do
  let packet ← Dialogue.read 2
  if packet.getD 0 0 = 5 ∧ packet.getD 1 0 = method auth then
    if authpacket auth = [] then sayRequest host addr
    else
      let taken ← Dialogue.tell (authpacket auth)
      if taken then readPassed host addr else .quit
  else .quit

def prepare5 (host : Host) (auth : List UInt8) (addr : Endpoint) : Dialogue Unit := do
  if addr.type = .error ∨ addr.port = 0 then .quit
  else
    let taken ← Dialogue.tell [5, 1, method auth]
    if taken then readMethod host auth addr else .quit

end Imconee.Socks
