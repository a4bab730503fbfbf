import Imconee.Conn.ValidAddr
import Imconee.Startup.Loader
import Imconee.Socks.Configuration
import Imconee.Socks.Proxy

/-!
# `proxy::build`, `handler::build` and `listener::build`

The constructors leave a code in the loader where they fail, and go on to those of the derived
classes, which may leave another one. `build` returns nothing if there is a code. The digests that
make up a master key are a parameter.
-/

set_option autoImplicit false

namespace Imconee.Startup

open Str Config Netkit

/-- The kind of what a block describes -/
def typeName : List UInt8 := ascii ['t', 'y', 'p', 'e']

namespace Loader

/-- `ldr.exit_code = exitCode`: the last failure is the one that stays. -/
def fail (ldr : Loader) (exitCode : ExitCode) : Loader := { ldr with exitCode }

/-- What has been constructed is deleted if the loader has a code. -/
def kept {α : Type} : α × Loader → Option α × Loader
  | (object, ldr) => if ldr.exitCode ≠ .ok then (none, ldr) else (some object, ldr)

end Loader

/-! ### `ss::core` -/

/-- What `cb` makes -/
inductive Cipher where
  | chachapoly
  | aesgcm256
  | aesgcm192
  | aesgcm128
  | unencrypted
  deriving DecidableEq

/-- `ss::core`, with the sizes of `cp` -/
structure Core where
  keySize : ℕ := 0
  nonceSize : ℕ := 0
  cb : Option Cipher := none
  masterKey : List UInt8 := []

/-- The cipher of shadowsocks -/
def methodName : List UInt8 := ascii ['m', 'e', 't', 'h', 'o', 'd']

/-- The sizes and the cipher of a method -/
def cipherOf (method : List UInt8) : Option (ℕ × ℕ × Cipher) :=
  if method = ascii ['x', 'c', 'h', 'a', 'c', 'h', 'a', '2', '0', '-', 'i', 'e', 't', 'f', '-',
      'p', 'o', 'l', 'y', '1', '3', '0', '5'] then some (32, 24, .chachapoly)
  else if method = ascii ['c', 'h', 'a', 'c', 'h', 'a', '2', '0', '-', 'i', 'e', 't', 'f', '-',
      'p', 'o', 'l', 'y', '1', '3', '0', '5'] then some (32, 12, .chachapoly)
  else if method = ascii ['a', 'e', 's', '-', '2', '5', '6', '-', 'g', 'c', 'm'] then
    some (32, 12, .aesgcm256)
  else if method = ascii ['a', 'e', 's', '-', '1', '9', '2', '-', 'g', 'c', 'm'] then
    some (24, 12, .aesgcm192)
  else if method = ascii ['a', 'e', 's', '-', '1', '2', '8', '-', 'g', 'c', 'm'] then
    some (16, 12, .aesgcm128)
  else if method = ascii ['n', 'o', 'n', 'e'] then some (0, 0, .unencrypted)
  else none

section Md5

variable (md5 : List UInt8 → Vector UInt8 16)

/-- The loop of `evpBytesToKey`; each digest makes the key longer. -/
def evpLoop (keyLen : ℕ) (password mss prevm : List UInt8) : List UInt8 :=
  let prevm := (md5 (prevm ++ password)).toList
  if keyLen ≤ (mss ++ prevm).length then (mss ++ prevm).take keyLen
  else evpLoop keyLen password (mss ++ prevm) prevm
termination_by keyLen - mss.length
decreasing_by
  simp only [List.length_append, Vector.length_toList] at *
  omega

/-- `evpBytesToKey`: a key of this length out of a password -/
def evpBytesToKey (keyLen : ℕ) (password : List UInt8) : List UInt8 :=
  evpLoop md5 keyLen password [] []

/-- `load` -/
def Core.load (ldr : Loader) (bb : Sts) : Core × Loader :=
  let method := bb.getString methodName
  let password := bb.getString (ascii ['p', 'a', 's', 's', 'w', 'o', 'r', 'd'])
  match cipherOf method with
  | none => ({}, ldr.fail .methodUndefined)
  | some (keySize, nonceSize, cb) =>
      let masterKey := evpBytesToKey md5 keySize password
      ({ keySize, nonceSize, cb := some cb, masterKey }, ldr)

end Md5

/-! ### Proxies -/

/-- What the classes of proxies have of their own -/
inductive ProxyKind where
  | socks4 (userid : List UInt8)
  | socks5 (authpacket : List UInt8)
  | shadowsocks (core : Core)

/-- `proxy`, with what its class adds to it -/
structure Proxy where
  name : List UInt8
  addr : Endpoint
  kind : ProxyKind

/-- The address of a proxy -/
def addrName : List UInt8 := ascii ['a', 'd', 'd', 'r']

/-- The constructor of `proxy` -/
def Proxy.base (ldr : Loader) (bb : Sts) : Endpoint × Loader :=
  let a := bb.getString addrName
  if a = [] then (.new ldr.getipDef, ldr.fail .addrUndefined)
  else ((Endpoint.new ldr.getipDef).preparse a, ldr)

/-- The constructor of `proxy_socks4`: a userid that is too long is cut off. -/
def proxySocks4 (ldr : Loader) (name : List UInt8) (bb : Sts) : Proxy × Loader :=
  let (addr, ldr) := Proxy.base ldr bb
  let userid := bb.getString (ascii ['u', 's', 'e', 'r', 'i', 'd'])
  let userid := if 255 < userid.length then userid.take 255 else userid
  ({ name, addr, kind := .socks4 userid }, ldr)

/-- The name and the password for SOCKS5 -/
def authName : List UInt8 := ascii ['a', 'u', 't', 'h']

/-- The constructor of `proxy_socks5`: what the client says first is made in it. -/
def proxySocks5 (ldr : Loader) (name : List UInt8) (bb : Sts) : Proxy × Loader :=
  let (addr, ldr) := Proxy.base ldr bb
  ({ name, addr, kind := .socks5 (Socks.authpacket (bb.getString authName)) }, ldr)

/-- `socks4`, the kind of a proxy -/
def socks4Type : List UInt8 := ascii ['s', 'o', 'c', 'k', 's', '4']

/-- `socks5`, the kind of a proxy -/
def socks5Type : List UInt8 := ascii ['s', 'o', 'c', 'k', 's', '5']

/-- `shadowsocks`, the kind of a proxy and of a handler -/
def shadowsocksType : List UInt8 :=
  ascii ['s', 'h', 'a', 'd', 'o', 'w', 's', 'o', 'c', 'k', 's']

section Md5

variable (md5 : List UInt8 → Vector UInt8 16)

/-- The constructor of `proxy_shadowsocks` -/
def proxyShadowsocks (ldr : Loader) (name : List UInt8) (bb : Sts) : Proxy × Loader :=
  let (addr, ldr) := Proxy.base ldr bb
  let (core, ldr) := Core.load md5 ldr bb
  ({ name, addr, kind := .shadowsocks core }, ldr)

/-- `proxy::build` -/
def Proxy.build (ldr : Loader) (name : List UInt8) (bb : Sts) : Option Proxy × Loader :=
  let t := bb.getString typeName
  if t = [] then (none, ldr.fail .typeUndefined)
  else if t = socks4Type then (proxySocks4 ldr name bb |> Loader.kept)
  else if t = socks5Type then (proxySocks5 ldr name bb |> Loader.kept)
  else if t = shadowsocksType then (proxyShadowsocks md5 ldr name bb |> Loader.kept)
  else (none, ldr.fail .typeUndefined)

end Md5

/-! ### Handlers -/

/-- What the classes of handlers have of their own -/
inductive HandlerKind where
  | direct (toAddr : List UInt8)
  | socks (settings : Socks.HandlerSocks)
  | shadowsocks (core : Core)

/-- `handler`: its chain of proxies, and what its class adds to it -/
structure Handler where
  proxychain : List Proxy
  kind : HandlerKind

/-- `find_proxy`, among those that the engine has -/
def findProxy (prox : List Proxy) (pn : List UInt8) : Option Proxy :=
  prox.find? fun p => p.name = pn

/-- The loop over the names of a chain: the proxies, and whether all of them have been found -/
def chainLoop (prox : List Proxy) : List (List UInt8) → List Proxy → List Proxy × Bool
  | [], proxychain => (proxychain, true)
  | tkn :: tkns, proxychain =>
      match findProxy prox tkn with
      | none => (proxychain, false)
      | some p => chainLoop prox tkns (proxychain ++ [p])

/-- The names of the proxies of a handler, with commas between them -/
def proxychainName : List UInt8 :=
  ascii ['p', 'r', 'o', 'x', 'y', 'c', 'h', 'a', 'i', 'n']

/-- The constructor of `handler` -/
def Handler.base (prox : List Proxy) (ldr : Loader) (bb : Sts) : List Proxy × Loader :=
  let pch := bb.getString proxychainName
  if pch = [] then ([], ldr)
  else
    match chainLoop prox (tokens ','.toUInt8 pch) [] with
    | (proxychain, found) => (proxychain, if found then ldr else ldr.fail .proxyNotFound)

/-- Where a direct handler connects to -/
def toName : List UInt8 := ascii ['t', 'o']

/-- The constructor of `handler_direct`, which fails without a valid address -/
def handlerDirect (prox : List Proxy) (ldr : Loader) (bb : Sts) : Handler × Loader :=
  let (proxychain, ldr) := Handler.base prox ldr bb
  let toAddr := bb.getString toName
  ({ proxychain, kind := .direct toAddr },
    if Conn.isValidAddr toAddr then ldr else ldr.fail .addrUndefined)

/-- Whether a SOCKS5 handler lets clients in without a name -/
def anonName : List UInt8 := ascii ['a', 'n', 'o', 'n']

/-- The settings of the constructor of `handler_socks`; `anon` is looked up only if there is a
name to log in with. -/
def socksSettings (bb : Sts) : Except Fault Socks.Settings := do
  let settings : Socks.Settings :=
    { userid := some (bb.getString (ascii ['u', 's', 'e', 'r', 'i', 'd']))
      auth := some (bb.getString authName) }
  if (Socks.handlerSocks settings []).login = [] then return settings
  else
    let anon ← (bb.getInt anonName 0).mapError .thrown
    return { settings with anon := some anon }

/-- The constructor of `handler_socks`; a number in the block that cannot be read throws. -/
def handlerSocks (prox : List Proxy) (ldr : Loader) (bb : Sts) (st : List UInt8) :
    Except Fault (Handler × Loader) := do
  let (proxychain, ldr) := Handler.base prox ldr bb
  let settings ← socksSettings bb
  return ({ proxychain, kind := .socks (Socks.handlerSocks settings st) }, ldr)

/-- `direct`, the kind of a handler -/
def directType : List UInt8 := ascii ['d', 'i', 'r', 'e', 'c', 't']

/-- What the kind of a SOCKS handler begins with; its version may stand behind that. -/
def socksType : List UInt8 := ascii ['s', 'o', 'c', 'k', 's']

/-! ### Listeners -/

/-- `listener`, with the address that `prepare` leaves in its state -/
structure Listener where
  name : List UInt8
  hand : Option Handler := none
  bind : Ipap

/-- The port of a listener -/
def portName : List UInt8 := ascii ['p', 'o', 'r', 't']

/-- The block of the handler, inside that of its listener -/
def handlerName : List UInt8 := ascii ['h', 'a', 'n', 'd', 'l', 'e', 'r']

/-- The address that a listener binds to -/
def bindName : List UInt8 := ascii ['b', 'i', 'n', 'd']

/-- `tcp`, the only kind of a listener -/
def tcpType : List UInt8 := ascii ['t', 'c', 'p']

section Md5

variable (md5 : List UInt8 → Vector UInt8 16)

/-- The constructor of `handler_ss` -/
def handlerSs (prox : List Proxy) (ldr : Loader) (bb : Sts) : Handler × Loader :=
  let (proxychain, ldr) := Handler.base prox ldr bb
  let (core, ldr) := Core.load md5 ldr bb
  ({ proxychain, kind := .shadowsocks core }, ldr)

/-- `handler::build` -/
def Handler.build (prox : List Proxy) (ldr : Loader) (bb : Sts) :
    Except Fault (Option Handler × Loader) :=
  let t := bb.getString typeName
  if t = [] then .ok (none, ldr.fail .typeUndefined)
  else if t = directType then .ok (handlerDirect prox ldr bb |> Loader.kept)
  else if startsWith t socksType then (handlerSocks prox ldr bb (t.drop 5)).map Loader.kept
  else if t = shadowsocksType then .ok (handlerSs md5 prox ldr bb |> Loader.kept)
  else .ok (none, ldr.fail .typeUndefined)

/-- The constructor of `tcp_listener`. It looks for a handler only if there is a port, and for
the address to bind to only if there is a handler. -/
def tcpListener (prox : List Proxy) (ldr : Loader) (name : List UInt8) (bb : Sts) :
    Except Fault (Listener × Loader) := do
  let self : Listener := { name, bind := .clear ldr.getipDef }
  let port ← (bb.getInt portName 0).mapError .thrown
  if port = 0 then return (self, ldr.fail .portUndefined)
  else
    match bb.get handlerName with
    | none => return (self, ldr.fail .noHandler)
    | some hnd =>
        match ← Handler.build md5 prox ldr hnd with
        | (none, ldr) => return (self, ldr)
        | (some h, ldr) =>
            let bs := bb.getString bindName
            let (bindaddr, _) ← (Ipap.parse ldr.getipDef bs).mapError .parse
            return ({ name, hand := some h, bind := { bindaddr with port := .ofInt port } }, ldr)

/-- `listener::build` -/
def Listener.build (prox : List Proxy) (ldr : Loader) (name : List UInt8) (bb : Sts) :
    Except Fault (Option Listener × Loader) :=
  let t := bb.getString typeName
  if t = [] then .ok (none, ldr.fail .typeUndefined)
  else if t = tcpType then (tcpListener md5 prox ldr name bb).map Loader.kept
  else .ok (none, ldr.fail .typeUndefined)

end Md5

end Imconee.Startup
