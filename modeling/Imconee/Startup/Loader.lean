import Imconee.Config.Access
import Imconee.Lib.Visit
import Imconee.Netkit.IpParse

/-!
# `loader`

The blocks of a configuration that has been read, the code with which loading ends, and the loops
over the blocks. The name of an element is a null pointer in a block that has none.
-/

set_option autoImplicit false

namespace Imconee.Startup

open Lib Str Config Netkit

/-- The codes of the program that loading can end with -/
inductive ExitCode where
  | ok
  | noConfig
  | noListeners
  | noHandler
  | proxyNotFound
  | portUndefined
  | typeUndefined
  | addrUndefined
  | methodUndefined
  | ipv46Vals
  deriving DecidableEq

/-- What ends the program: a null name that is dereferenced, what `stod` throws, or how
`ipap::parse` fails -/
inductive Fault where
  | nullName
  | thrown (error : Errc)
  | parse (fault : ParseFault)
  deriving DecidableEq

/-- `loader`, with `netkit::getip_def`, which it sets -/
structure Loader where
  listeners : Option Sts := none
  prox : Option Sts := none
  settings : Option Sts := none
  getipDef : GetIp := .prior4
  exitCode : ExitCode := .ok

/-- `getip_def` of the two values of the settings, which must not be equal -/
def getipOf (ipv4 ipv6 : ℤ) : Option GetIp :=
  let ipv4 := if ipv4 < 0 then 0 else ipv4
  let ipv6 := if ipv6 < 0 then 0 else ipv6
  if ipv4 = ipv6 then none
  else if ipv4 = 0 then some .only6
  else if ipv6 = 0 then some .only4
  else if ipv6 < ipv4 then some .prior4
  else some .prior6

/-- The block of the listeners -/
def listenersName : List UInt8 := ascii ['l', 'i', 's', 't', 'e', 'n', 'e', 'r', 's']

/-- The block of the proxies -/
def proxyName : List UInt8 := ascii ['p', 'r', 'o', 'x', 'y']

/-- The block of the settings -/
def settingsName : List UInt8 := ascii ['s', 'e', 't', 't', 'i', 'n', 'g', 's']

/-- What `settings` says of addresses of version 4 -/
def ipv4Name : List UInt8 := ascii ['i', 'p', 'v', '4']

/-- What `settings` says of addresses of version 6 -/
def ipv6Name : List UInt8 := ascii ['i', 'p', 'v', '6']

namespace Loader

/-- The block `settings` -/
def readSettings (ldr : Loader) (settings : Sts) : Except Fault (Loader × Bool) := do
  let ipv4 ← (settings.getInt ipv4Name 1).mapError .thrown
  let ipv6 ← (settings.getInt ipv6Name 0).mapError .thrown
  match getipOf ipv4 ipv6 with
  | none => .ok ({ ldr with exitCode := .ipv46Vals }, false)
  | some getipDef => .ok ({ ldr with getipDef }, true)

/-- `load_conf`: `cfg` is what has been read of the file, if there is one. -/
def loadConf : Option Sts → Except Fault (Loader × Bool)
  | none => .ok ({ exitCode := .noConfig }, false)
  | some cfg =>
      let ldr : Loader := { listeners := cfg.get listenersName, prox := cfg.get proxyName }
      match ldr.listeners with
      | none => .ok ({ ldr with exitCode := .noListeners }, false)
      | some _ =>
          let ldr := { ldr with settings := cfg.get settingsName }
          match ldr.settings with
          | none => .ok (ldr, true)
          | some settings => ldr.readSettings settings

variable {σ : Type}

/-- The body of the loops; a name that begins with `!` is skipped. -/
def element (call : σ → List UInt8 → Sts → Except Fault (σ × Bool)) (s : σ) :
    ElementName × Sts → Except Fault (σ × Bool)
  | (.comment, _) => .ok (s, true)
  | (.none, _) => .error .nullName
  | (.named name, sts) => if name.getD 0 0 = '!'.toUInt8 then .ok (s, true) else call s name sts

/-- `iterate_p` -/
def iterateP (call : σ → List UInt8 → Sts → Except Fault (σ × Bool)) (ldr : Loader) (s : σ) :
    Except Fault (σ × Bool) :=
  match ldr.prox with
  | none => .ok (s, true)
  | some prox => visit (element call) s prox.elements

/-- `iterate_l` -/
def iterateL (call : σ → List UInt8 → Sts → Except Fault (σ × Bool)) (ldr : Loader) (s : σ) :
    Except Fault (σ × Bool) :=
  match ldr.listeners with
  | none => .ok (s, false)
  | some listeners => visit (element call) s listeners.elements

end Loader

end Imconee.Startup
