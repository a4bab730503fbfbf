import Imconee.Lib.Dialogue
import Imconee.Lib.Memory
import Imconee.Netkit.Endpoint

/-!
# `handler_socks`

The handshakes of SOCKS 4 and 5 as dialogues. All of them end in a call of `worker` or return
before it: the value of a handshake is that call, and a handshake that quits is one that has
returned.
-/

set_option autoImplicit false

namespace Imconee.Socks

open Lib Netkit

/-- `handler_socks` -/
structure HandlerSocks where
  userid : List UInt8 := []
  login : List UInt8 := []
  pass : List UInt8 := []
  socks5AllowAnon : Bool := false
  allow4 : Bool := true
  allow5 : Bool := true

/-- `rslt` -/
inductive Rslt where
  | granted
  | failed
  | remoteHostUnrch
  deriving DecidableEq

/-- An array after some stores, the offset and the bytes of each. -/
def stored (stores : List (ℕ × List UInt8)) (size : ℕ) : List UInt8 :=
  (stores.foldl (fun rp store => rp.write store.1 store.2) (Memory.fill 0)).read 0 size

/-- The stores into `rp[8]` of `handshake4`. -/
def stores4 (host : Host) (port : UInt16) (dst : Ipap) (ec : Rslt) : List (ℕ × List UInt8) :=
  [(0, [0]),
    (1, [match ec with
      | .granted => 90
      | .remoteHostUnrch => 92
      | .failed => 91]),
    (2, [highByte port]), (3, [lowByte port]), (4, dst.u32 host.sizeofU32)]

/-- The stores into `rp[10]` of `handshake5`. -/
def stores5 (host : Host) (port : UInt16) (ep : Endpoint) (ec : Rslt) : List (ℕ × List UInt8) :=
  [(0, [5]), (2, [0]), (3, [1]),
    (1, [match ec with
      | .granted => 0
      | .remoteHostUnrch => 4
      | .failed => 1]),
    (4, (ep.getIp host .only4 false).1.u32 host.sizeofU32), (8, [highByte port]),
    (9, [lowByte port])]

/-- The arguments of `worker`, the pipe apart. -/
structure Call where
  inf : Endpoint
  answ : Rslt → List UInt8

/-- `worker`: what it has asked `connect` for, and whether that has succeeded. -/
def worker (connect : Endpoint → Bool) (call : Call) : Dialogue (Endpoint × Bool) := do
  if connect call.inf then
    let _ ← Dialogue.tell (call.answ .granted)
    return (call.inf, true)
  else
    let _ ← Dialogue.tell (call.answ .remoteHostUnrch)
    return (call.inf, false)

/-- The loop that reads the name of the user. A name that has got too long ends it. -/
def readUid : ℕ → List UInt8 → Dialogue (List UInt8)
  | 0, _ => .quit
  | fuel + 1, uid => do
      let packet ← Dialogue.read 1
      let byte := packet.getD 0 0
      if byte = 0 ∨ 255 < uid.length then return uid
      else readUid fuel (uid ++ [byte])

theorem readUid_enough {fuel : ℕ} {uid : List UInt8} (short : uid.length ≤ 256)
    (enough : 256 < fuel + uid.length) : readUid (fuel + 1) uid = readUid fuel uid := by
  induction fuel generalizing uid with
  | zero => omega
  | succ fuel ih =>
      rw [readUid, readUid]
      congr 1
      funext packet
      dsimp only
      split
      · rfl
      · rename_i goesOn
        rw [not_or] at goesOn
        apply ih
        · rw [List.length_append, List.length_singleton]
          omega
        · rw [List.length_append, List.length_singleton]
          omega

namespace HandlerSocks

variable (host : Host) (self : HandlerSocks)

def handshake4 : Dialogue Call := do
  if self.allow4 then
    let packet ← Dialogue.read 7
    if packet.getD 0 0 = 1 then
      let port := portOf (packet.getD 1 0) (packet.getD 2 0)
      let dst := Ipap.build host.getipDef (packet.drop 3) 4 port
      let uid ← readUid 257 []
      if uid = self.userid then
        return {
          inf := { ip := dst, type := .tcpResolved }
          answ ec := stored (stores4 host port dst ec) 8 }
      else
        let _ ← Dialogue.tell [0, 93, 0, 0, 0, 0, 0, 0]
        .quit
    else .quit
  else .quit

/-- The loop that picks a method of authentication, as long as it is not the anonymous one. -/
def selectMethod : List UInt8 → UInt8 → UInt8
  | [], rauth => rauth
  | method :: rest, rauth =>
      if rauth = 0 then rauth
      else if method = 0 ∧ self.socks5AllowAnon ∧ 0 < rauth then selectMethod rest 0
      else if method = 2 ∧ self.login ≠ [] ∧ 2 < rauth then selectMethod rest 2
      else selectMethod rest rauth

/-- The beginning of `handshake5`: the method that has been agreed upon. -/
def negotiate : Dialogue UInt8 := do
  let packet ← Dialogue.read 1
  let packet ← Dialogue.read (packet.getD 0 0).toNat
  let rauth := self.selectMethod packet 0xff
  let taken ← Dialogue.tell [5, rauth]
  if taken ∧ rauth ≠ 0xff then return rauth
  else .quit

/-- The name and the password, if the method asks for them. -/
def authenticate : Dialogue Unit := do
  let packet ← Dialogue.read 2
  if packet.getD 0 0 = 1 then
    let loginlen := 1 + (packet.getD 1 0).toNat -- and one byte - len of pass
    let packet ← Dialogue.read loginlen
    let rlogin := packet.take (loginlen - 1)
    let rpass ← Dialogue.read (packet.getD (loginlen - 1) 0).toNat
    if rlogin = self.login ∧ rpass = self.pass then
      let _ ← Dialogue.tell [1, 0]
      return ()
    else
      let _ ← Dialogue.tell [1, 1]
      .quit
  else .quit

end HandlerSocks

/-- `fail_answer` -/
def failAnswer {α : Type} (code : UInt8) : Dialogue α := do
  let _ ← Dialogue.tell [5, code, 0, 1, 0, 0, 0, 0, 0, 0]
  .quit

/-- The address of a request, of which `packet` is the first five bytes. -/
def readAddress (host : Host) (packet : List UInt8) : Dialogue Endpoint := do
  let ep : Endpoint := { ip := .clear host.getipDef }
  match packet.getD 3 0 with
  | 1 => -- ip4
      let more ← Dialogue.read 3
      return ep.setIpap (.build host.getipDef (packet.drop 4 ++ more) 4 0)
  | 3 => -- domain name
      let domain ← Dialogue.read (packet.getD 4 0).toNat
      return ep.setDomain domain
  | 4 => -- ipv6
      let more ← Dialogue.read 15
      return ep.setIpap (.build host.getipDef (packet.drop 4 ++ more) 16 0)
  | _ => return ep

/-- The rest of `handshake5`. -/
def request5 (host : Host) : Dialogue Call := do
  let received ← Dialogue.tryRead 5
  match received with
  | none => failAnswer 1 -- FAILURE
  | some packet =>
      if packet.length = 5 ∧ packet.getD 0 0 = 5 then
        if packet.getD 1 0 = 1 then
          let ep ← readAddress host packet
          let packet ← Dialogue.read 2
          let port := portOf (packet.getD 0 0) (packet.getD 1 0)
          let ep := ep.setPort port
          return { inf := ep, answ ec := stored (stores5 host port ep ec) 10 }
        else failAnswer 7 -- COMMAND NOT SUPPORTED
      else failAnswer 1

namespace HandlerSocks

variable (host : Host) (self : HandlerSocks)

def handshake5 : Dialogue Call := do
  if self.allow5 then
    let rauth ← self.negotiate
    if rauth = 2 then self.authenticate
    request5 host
  else .quit

def handshake : Dialogue Call := do
  let packet ← Dialogue.read 1
  if packet.getD 0 0 = 4 then self.handshake4 host
  else if packet.getD 0 0 = 5 then self.handshake5 host
  else .quit

end HandlerSocks

end Imconee.Socks
