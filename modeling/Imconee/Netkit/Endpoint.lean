import Mathlib.Data.List.TakeDrop
import Mathlib.Tactic.Common

/-!
# `netkit::endpoint`

Addresses with their ports, and the bytes that `pgen` makes of them. The machine is
little-endian; how wide its `u32` is, and what its resolver returns, are parameters.
-/

set_option autoImplicit false

namespace Imconee.Netkit

/-- `getip_options`, and `getip_def` -/
inductive GetIp where
  | prior4
  | prior6
  | only4
  | only6
  deriving DecidableEq

/-- `GIP_ONLY4` or `GIP_PRIOR4` -/
def GetIp.v4 : GetIp → Bool
  | .prior4 => true
  | .only4 => true
  | _ => false

/-- `ipap`, the octets in network order and the port in the native one. -/
structure Ipap where
  v4 : Bool
  octets : List UInt8
  port : UInt16 := 0
  size : octets.length = if v4 then 4 else 16
  deriving DecidableEq

namespace Ipap

/-- `ipap()` -/
def clear (getipDef : GetIp) : Ipap where
  v4 := getipDef.v4
  octets := List.replicate (if getipDef.v4 then 4 else 16) 0
  size := List.length_replicate

/-- `build`: four octets are written into what `ipap()` is. -/
def build (getipDef : GetIp) (packet : List UInt8) (plen : ℕ) (port : UInt16) : Ipap :=
  if plen = 4 then
    { v4 := getipDef.v4
      octets := (packet.take 4).takeD (if getipDef.v4 then 4 else 16) 0
      port
      size := List.takeD_length _ _ _ }
  else if plen = 16 then
    { v4 := false, octets := packet.takeD 16 0, port, size := List.takeD_length _ _ _ }
  else { clear getipDef with port }

/-- `(u32)ip` as a little-endian machine keeps it. -/
def u32 (self : Ipap) (sizeofU32 : ℕ) : List UInt8 :=
  (if self.v4 then self.octets else []).takeD sizeofU32 0

end Ipap

/-- An IPv4 address comes back if the machine is configured for IPv4. -/
theorem Ipap.build_octets {getipDef : GetIp} {ip : Ipap} (v4 : ip.v4 = true)
    (family : getipDef.v4 = true) :
    ({ build getipDef ip.octets 4 0 with port := ip.port } : Ipap) = ip := by
  rcases ip with ⟨isV4, octets, port, size⟩
  dsimp only at v4
  subst v4
  rw [if_pos rfl] at size
  simp only [build, family, ↓reduceIte, Ipap.mk.injEq, and_true, true_and]
  rw [List.take_of_length_le (Nat.le_of_eq size), List.takeD_eq_take _ (Nat.le_of_eq size.symm)]
  exact List.take_of_length_le (Nat.le_of_eq size)

/-- `addr_type` -/
inductive AddrType where
  | error
  | tcpDomain
  | tcpResolved
  deriving DecidableEq

/-- `endpoint` -/
structure Endpoint where
  domain : List UInt8 := []
  ip : Ipap
  type : AddrType := .error
  deriving DecidableEq

/-- What the machine decides: `getip_def`, `dnsresolve` and `sizeof(u32)`. -/
structure Host where
  getipDef : GetIp := .prior4
  dnsresolve : List UInt8 → Option Ipap := fun _ => none
  sizeofU32 : ℕ := 8

namespace Endpoint

def port (self : Endpoint) : UInt16 := self.ip.port

def setIpap (self : Endpoint) (ip : Ipap) : Endpoint := { self with ip, type := .tcpResolved }

def setPort (self : Endpoint) (port : UInt16) : Endpoint :=
  { self with ip := { self.ip with port } }

def setDomain (self : Endpoint) (domain : List UInt8) : Endpoint :=
  { self with domain, type := .tcpDomain }

/-- `get_ip`, with `GIP_ANY` apart: the address, and the endpoint, in which it is kept. -/
def getIp (host : Host) (options : GetIp) (any : Bool) (self : Endpoint) : Ipap × Endpoint :=
  if self.type = .tcpResolved ∧ (any ∨ self.ip.v4 = options.v4) then (self.ip, self)
  else if self.type = .error then (.clear host.getipDef, self)
  else
    match host.dnsresolve self.domain with
    | some found =>
        let ip := { found with port := self.ip.port }
        (ip, { self with ip, type := .tcpResolved })
    | none => (.clear host.getipDef, self)

end Endpoint

/-- The address and the port are those of the destination. -/
structure Reaches (addr ep : Endpoint) : Prop where
  domain : ep.domain = addr.domain
  port : ep.port = addr.port
  address : addr.domain = [] → ep.type = .tcpResolved ∧ ep.ip = addr.ip
  named : addr.domain ≠ [] → ep.type = .tcpDomain

/-! ### `pgen` -/

def highByte (port : UInt16) : UInt8 := (port >>> 8).toUInt8

def lowByte (port : UInt16) : UInt8 := port.toUInt8

/-- `(high << 8) | low` -/
def portOf (high low : UInt8) : UInt16 := high.toUInt16 <<< 8 ||| low.toUInt16

def push16 (port : UInt16) : List UInt8 := [highByte port, lowByte port]

def pushs (s : List UInt8) : List UInt8 := UInt8.ofNat s.length :: s

def pushIp (ip : Ipap) (pushPort : Bool) : List UInt8 :=
  ip.octets ++ if pushPort then push16 ip.port else []

/-- What is sent of what has been pushed: the size is the one that `pgen` has been given. -/
def pgen (sz : ℕ) (pushed : List UInt8) : List UInt8 := pushed.take sz

theorem portOf_bytes (port : UInt16) : portOf (highByte port) (lowByte port) = port := by
  apply UInt16.toNat_inj.mp
  have small := port.toNat_lt
  have high : (port.toNat >>> 8 % 256) <<< 8 % 65536 = (port.toNat / 256) <<< 8 := by
    rw [Nat.shiftRight_eq_div_pow, Nat.shiftLeft_eq, Nat.shiftLeft_eq]
    omega
  simp only [portOf, highByte, lowByte, UInt16.toNat_or, UInt16.toNat_shiftLeft,
    UInt8.toNat_toUInt16, UInt16.toNat_toUInt8, UInt16.toNat_shiftRight]
  calc (port.toNat >>> 8 % 256) <<< 8 % 65536 ||| port.toNat % 256
      = (port.toNat / 256) <<< 8 ||| port.toNat % 256 := by rw [high]
    _ = (port.toNat / 256) <<< 8 + port.toNat % 256 :=
        (Nat.shiftLeft_add_eq_or_of_lt (Nat.mod_lt _ (by decide)) _).symm
    _ = port.toNat := by
        rw [Nat.shiftLeft_eq]
        omega

/-- What is read back of a port that has been pushed. -/
@[simp]
theorem portOf_push16 (port : UInt16) :
    portOf ((push16 port).getD 0 0) ((push16 port).getD 1 0) = port := portOf_bytes port

end Imconee.Netkit
