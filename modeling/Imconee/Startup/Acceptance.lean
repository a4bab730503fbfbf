import Imconee.Startup.Build

/-!
# What can be built

Of a proxy, a handler or a listener its block says whether it can be built. One that cannot is
refused with a code, unless a number or an address in it cannot be read, which ends the program.
-/

set_option autoImplicit false

namespace Imconee.Startup

open Str Config Netkit

/-- The codes of what is refused are not that of a configuration without listeners. -/
def Refuses (code : ExitCode) : Prop := code ≠ .ok ∧ code ≠ .noListeners

instance (code : ExitCode) : Decidable (Refuses code) :=
  inferInstanceAs (Decidable (code ≠ .ok ∧ code ≠ .noListeners))

/-- The loader is left as it has been, or with a code that refuses. -/
def Leaves (good : Prop) (ldr left : Loader) : Prop :=
  (good → left = ldr) ∧ (¬good → ∃ code, Refuses code ∧ left = ldr.fail code)

/-- So a constructor leaves it, whatever the code has been before. -/
def Judges (good : Prop) (leave : Loader → Loader) : Prop := ∀ ldr, Leaves good ldr (leave ldr)

/-- Something is built; or nothing is, and a code that refuses is left. -/
structure Built {α : Type} (good : Prop) (is : α → Prop) (ldr : Loader)
    (built : Option α × Loader) : Prop where
  kept : good → ∃ object, built = (some object, ldr) ∧ is object
  refused : ¬good → ∃ code, Refuses code ∧ built = (none, ldr.fail code)

section Judges

variable {good other : Prop} {ldr : Loader}

theorem judges_ite [Decidable good] {code : ExitCode} (refuses : Refuses code) :
    Judges good fun ldr => if good then ldr else ldr.fail code := by
  intro ldr
  constructor
  · intro yes
    exact if_pos yes
  · intro no
    exact ⟨code, refuses, if_neg no⟩

/-- The constructor of a derived class follows that of the base. -/
theorem Judges.comp {leave next : Loader → Loader} (judges : Judges good leave)
    (behind : Judges other next) : Judges (good ∧ other) fun ldr => next (leave ldr) := by
  intro ldr
  constructor
  · rintro ⟨first, second⟩
    exact ((behind _).1 second).trans ((judges ldr).1 first)
  · intro no
    by_cases first : good
    · have kept := (judges ldr).1 first
      rcases (behind ldr).2 fun second => no ⟨first, second⟩ with ⟨code, refuses, left⟩
      exact ⟨code, refuses, (congrArg next kept).trans left⟩
    · rcases (judges ldr).2 first with ⟨code, refuses, left⟩
      by_cases second : other
      · exact ⟨code, refuses, ((behind _).1 second).trans left⟩
      · rcases (behind (leave ldr)).2 second with ⟨last, refuses, again⟩
        exact ⟨last, refuses, again.trans (by simp only [left, Loader.fail])⟩

variable {α : Type} {is : α → Prop}

/-- What has been constructed is deleted if a code is left. -/
theorem Leaves.built {object : α} {left : Loader} (leaves : Leaves good ldr left)
    (ok : ldr.exitCode = .ok) (made : is object) :
    Built good is ldr (Loader.kept (object, left)) := by
  constructor
  · intro yes
    rcases leaves.1 yes with rfl
    exact ⟨object, by simp [Loader.kept, ok], made⟩
  · intro no
    rcases leaves.2 no with ⟨code, refuses, rfl⟩
    exact ⟨code, refuses, by simp [Loader.kept, Loader.fail, refuses.1]⟩

theorem Judges.built {construct : Loader → α × Loader}
    (judges : Judges good fun ldr => (construct ldr).2) (ok : ldr.exitCode = .ok)
    (made : is (construct ldr).1) : Built good is ldr (Loader.kept (construct ldr)) :=
  (judges ldr).built ok made

theorem Built.congr {built : Option α × Loader} (result : Built good is ldr built)
    (same : good ↔ other) : Built other is ldr built :=
  ⟨fun yes => result.kept (same.mpr yes), fun no => result.refused fun yes => no (same.mp yes)⟩

theorem built_fail {code : ExitCode} (refuses : Refuses code) (no : ¬good) :
    Built good is ldr (none, ldr.fail code) :=
  ⟨fun yes => absurd yes no, fun _ => ⟨code, refuses, rfl⟩⟩

end Judges

section Builders

variable {md5 : List UInt8 → Vector UInt8 16} {ldr : Loader} {bb : Sts}

/-! ### Methods -/

/-- The method is one of those that there are. -/
def HasMethod (bb : Sts) : Prop := (cipherOf (bb.getString methodName)).isSome

/-- The core fails without a cipher that it knows. -/
theorem judges_load : Judges (HasMethod bb) fun ldr => (Core.load md5 ldr bb).2 := by
  intro ldr
  constructor
  · intro method
    rcases Option.isSome_iff_exists.mp method with ⟨⟨keySize, nonceSize, cb⟩, found⟩
    simp [Core.load, found]
  · intro noMethod
    simp only [HasMethod, Option.not_isSome_iff_eq_none] at noMethod
    exact ⟨.methodUndefined, by decide, by simp [Core.load, noMethod]⟩

/-! ### Proxies -/

/-- A proxy can be built: it has an address, and a type that is known. -/
def ProxyAccepted (bb : Sts) : Prop :=
  bb.getString addrName ≠ [] ∧
    (bb.getString typeName = socks4Type ∨ bb.getString typeName = socks5Type ∨
      bb.getString typeName = shadowsocksType ∧ HasMethod bb)

/-- The base of a proxy fails without an address. -/
theorem judges_proxyBase :
    Judges (bb.getString addrName ≠ []) fun ldr => (Proxy.base ldr bb).2 := by
  intro ldr
  constructor
  · intro addr
    simp [Proxy.base, addr]
  · intro noAddr
    exact ⟨.addrUndefined, by decide, by simp [Proxy.base, not_not.mp noAddr]⟩

/-- An empty type is none of those that there are. -/
theorem type_ne_nil :
    socks4Type ≠ [] ∧ socks5Type ≠ [] ∧ shadowsocksType ≠ [] ∧ directType ≠ [] ∧ tcpType ≠ [] ∧
      startsWith [] socksType = false := by
  decide

theorem shadowsocksType_ne :
    shadowsocksType ≠ [] ∧ shadowsocksType ≠ socks4Type ∧ shadowsocksType ≠ socks5Type ∧
      shadowsocksType ≠ directType ∧ startsWith shadowsocksType socksType = false := by
  decide

/-- `proxy::build` makes what is accepted, and nothing else. -/
theorem proxy_build (ok : ldr.exitCode = .ok) (name : List UInt8) :
    Built (ProxyAccepted bb) (fun p => p.name = name) ldr (Proxy.build md5 ldr name bb) := by
  simp only [Proxy.build, ProxyAccepted]
  split
  · rename_i noType
    apply built_fail (by decide)
    simp [noType, type_ne_nil]
  split
  · rename_i socks4
    have built := @Judges.built _ ldr _ (fun p : Proxy => p.name = name)
      (fun ldr => proxySocks4 ldr name bb) judges_proxyBase ok rfl
    exact built.congr (by simp [socks4])
  split
  · rename_i socks5
    have built := @Judges.built _ ldr _ (fun p : Proxy => p.name = name)
      (fun ldr => proxySocks5 ldr name bb) judges_proxyBase ok rfl
    exact built.congr (by simp [socks5])
  split
  · rename_i shadowsocks
    have built := @Judges.built _ ldr _ (fun p : Proxy => p.name = name)
      (fun ldr => proxyShadowsocks md5 ldr name bb) (judges_proxyBase.comp judges_load) ok rfl
    exact built.congr (by simp [shadowsocks, shadowsocksType_ne])
  · rename_i noSocks4 noSocks5 noShadowsocks
    apply built_fail (by decide)
    simp [noSocks4, noSocks5, noShadowsocks]

/-! ### Handlers -/

/-- A name and a password that are not dropped -/
def LogsIn (auth : List UInt8) : Prop :=
  Socks.nameOf auth ≠ [] ∧ (Socks.nameOf auth).length ≤ 254 ∧
    (Socks.passwordOf auth).length ≤ 254

/-- The number that a handler reads can be read. -/
def HandlerReadable (bb : Sts) : Prop :=
  startsWith (bb.getString typeName) socksType = true → LogsIn (bb.getString authName) →
    bb.IsNumberAt anonName

/-- A handler can be built: its proxies are among those that there are, and it has a type that is
known. -/
def HandlerAccepted (names : List (List UInt8)) (bb : Sts) : Prop :=
  (∀ tkn ∈ tokens ','.toUInt8 (bb.getString proxychainName), tkn ∈ names) ∧
    (bb.getString typeName = directType ∧ Conn.isValidAddr (bb.getString toName) = true ∨
      startsWith (bb.getString typeName) socksType = true ∨
      bb.getString typeName = shadowsocksType ∧ HasMethod bb)

variable {prox : List Proxy}

theorem findProxy_eq_none {pn : List UInt8} :
    findProxy prox pn = none ↔ pn ∉ prox.map Proxy.name := by
  simp [findProxy]

/-- The loop over the names ends well if each is the name of a proxy. -/
theorem chainLoop_found {tkns : List (List UInt8)} {proxychain : List Proxy} :
    (chainLoop prox tkns proxychain).2 = true ↔ ∀ tkn ∈ tkns, tkn ∈ prox.map Proxy.name := by
  induction tkns generalizing proxychain with
  | nil => simp [chainLoop]
  | cons tkn tkns ih =>
      simp only [chainLoop, List.forall_mem_cons]
      split
      · rename_i missing
        simp [findProxy_eq_none.mp missing]
      · rename_i p found
        have known : tkn ∈ prox.map Proxy.name := by
          by_contra unknown
          simp [findProxy_eq_none.mpr unknown] at found
        simp only [ih, known, true_and]

/-- The base of a handler fails on a proxy that is not there. -/
theorem judges_handlerBase :
    Judges (∀ tkn ∈ tokens ','.toUInt8 (bb.getString proxychainName), tkn ∈ prox.map Proxy.name)
      fun ldr => (Handler.base prox ldr bb).2 := by
  intro ldr
  by_cases nothing : bb.getString proxychainName = []
  · constructor
    · intro _
      simp [Handler.base, nothing]
    · intro unknown
      simp [nothing, tokens] at unknown
  · have found := @chainLoop_found prox (tokens ','.toUInt8 (bb.getString proxychainName)) []
    simp only [← found, Handler.base, nothing, if_false]
    exact @judges_ite _ _ .proxyNotFound (by decide) ldr

/-- Nobody has to log in where `auth` has no name in it. -/
theorem login_eq_nil {settings : Socks.Settings} {st : List UInt8} :
    (Socks.handlerSocks settings st).login = [] ↔ ¬LogsIn (Socks.getString settings.auth) := by
  simp only [Socks.handlerSocks, LogsIn]
  split
  · rename_i dropped
    simp only [true_iff]
    omega
  · rename_i kept
    constructor
    · intro nothing
      simp [nothing]
    · intro none
      by_contra some
      exact none ⟨some, by omega, by omega⟩

/-- The only number in the block is `anon`, which is read where there is a name to log in with. -/
theorem socksSettings_of_readable
    (readable : LogsIn (bb.getString authName) → bb.IsNumberAt anonName) :
    ∃ settings, socksSettings bb = .ok settings := by
  by_cases anonymous : LogsIn (bb.getString authName)
  · have number := Sts.getInt_of_isNumberAt (readable anonymous) 0
    simp [socksSettings, login_eq_nil, Socks.getString, anonymous, number, Except.mapError, bind,
      Except.bind, pure, Except.pure]
  · simp [socksSettings, login_eq_nil, Socks.getString, anonymous, pure, Except.pure]

theorem socksSettings_of_not_readable (logsIn : LogsIn (bb.getString authName))
    (noNumber : ¬bb.IsNumberAt anonName) : ∃ fault, socksSettings bb = .error fault := by
  rcases Sts.getInt_of_not_isNumberAt noNumber 0 with ⟨thrown, read⟩
  simp [socksSettings, login_eq_nil, Socks.getString, logsIn, read, Except.mapError, bind,
    Except.bind]

theorem socksType_ne {t : List UInt8} (socks : startsWith t socksType = true) :
    t ≠ [] ∧ t ≠ directType ∧ t ≠ shadowsocksType := by
  refine ⟨?_, ?_, ?_⟩ <;> rintro rfl <;> exact absurd socks (by decide)

theorem judges_handlerDirect :
    Judges ((∀ tkn ∈ tokens ','.toUInt8 (bb.getString proxychainName),
        tkn ∈ prox.map Proxy.name) ∧ Conn.isValidAddr (bb.getString toName) = true)
      fun ldr => (handlerDirect prox ldr bb).2 :=
  judges_handlerBase.comp (judges_ite (by decide))

/-- What `handler_socks` is with settings that have been read -/
def socksWith (prox : List Proxy) (bb : Sts) (settings : Socks.Settings) (st : List UInt8)
    (ldr : Loader) : Handler × Loader :=
  ({ proxychain := (Handler.base prox ldr bb).1, kind := .socks (Socks.handlerSocks settings st) },
    (Handler.base prox ldr bb).2)

/-- `handler::build` makes what is accepted, and nothing else, if it can be read. -/
theorem handler_build (ok : ldr.exitCode = .ok) (readable : HandlerReadable bb) :
    ∃ built, Handler.build md5 prox ldr bb = .ok built ∧
      Built (HandlerAccepted (prox.map Proxy.name) bb) (fun _ => True) ldr built := by
  simp only [Handler.build, HandlerAccepted]
  split
  · rename_i noType
    refine ⟨_, rfl, built_fail (by decide) ?_⟩
    rintro ⟨-, ⟨direct, -⟩ | socks | ⟨shadowsocks, -⟩⟩
    · exact type_ne_nil.2.2.2.1 (direct.symm.trans noType)
    · exact (socksType_ne socks).1 noType
    · exact type_ne_nil.2.2.1 (shadowsocks.symm.trans noType)
  split
  · rename_i direct
    have built := @Judges.built _ ldr _ (fun _ => True) (fun ldr => handlerDirect prox ldr bb)
      judges_handlerDirect ok trivial
    refine ⟨_, rfl, built.congr ?_⟩
    have apart : startsWith directType socksType = false ∧ directType ≠ shadowsocksType := by
      decide
    simp [direct, apart]
  split
  · rename_i socks
    rcases socksSettings_of_readable (readable socks) with ⟨settings, read⟩
    have built := @Judges.built _ ldr _ (fun _ => True)
      (socksWith prox bb settings ((bb.getString typeName).drop 5)) judges_handlerBase ok trivial
    refine ⟨_, ?_, built.congr (by simp [socks])⟩
    simp [handlerSocks, socksWith, read, bind, Except.bind, pure, Except.pure, Except.map]
  split
  · rename_i noSocks shadowsocks
    have built := @Judges.built _ ldr _ (fun _ => True) (fun ldr => handlerSs md5 prox ldr bb)
      (judges_handlerBase.comp judges_load) ok trivial
    refine ⟨_, rfl, built.congr ?_⟩
    simp [shadowsocks, shadowsocksType_ne]
  · rename_i noDirect noSocks noShadowsocks
    refine ⟨_, rfl, built_fail (by decide) ?_⟩
    simp [noDirect, noSocks, noShadowsocks]

theorem handler_build_of_not_readable (unreadable : ¬HandlerReadable bb) :
    ∃ fault, Handler.build md5 prox ldr bb = .error fault := by
  simp only [HandlerReadable, Classical.not_imp] at unreadable
  rcases unreadable with ⟨socks, logsIn, noNumber⟩
  rcases socksSettings_of_not_readable logsIn noNumber with ⟨fault, read⟩
  have apart := socksType_ne socks
  simp [Handler.build, apart.1, apart.2.1, socks, handlerSocks, read, bind, Except.bind, Except.map]

/-! ### Addresses -/

/-- An address to bind to can be read: it is one for IPv6, or there is none, or the machine is
configured for IPv4 and the numbers of the address, of which five are looked at, can be read. -/
def Bindable (getipDef : GetIp) (bs : List UInt8) : Prop :=
  2 ≤ bs.count Lib.colon ∨ tokens '.'.toUInt8 bs = [] ∨
    getipDef.v4 = true ∧ ∀ tkn ∈ (tokens '.'.toUInt8 bs).take 5, ∃ v, stoi tkn = .ok v

theorem octetLoop_ok {rv : Ipap} {dst : ℕ} {stores : List ℕ} {tkns : List (List UInt8)}
    (v4 : rv.v4 = true) (inside : dst ≤ 4) :
    (∃ read, Ipap.octetLoop rv dst stores tkns = .ok read) ↔
      ∀ tkn ∈ tkns.take (5 - dst), ∃ v, stoi tkn = .ok v := by
  induction tkns generalizing rv dst stores with
  | nil => simp [Ipap.octetLoop]
  | cons tkn tkns ih =>
      obtain ⟨left, next⟩ : ∃ left, 5 - dst = left + 1 := ⟨4 - dst, by omega⟩
      simp only [Ipap.octetLoop, next, List.take_succ_cons, List.forall_mem_cons]
      cases read : stoi tkn with
      | error thrown => simp
      | ok v =>
          simp only [v4, if_true]
          split
          · have last : left = 0 := by omega
            simp [last]
          · have same : left = 5 - (dst + 1) := by omega
            have rest := @ih (rv.setOctet dst (UInt8.ofInt v)) (dst + 1) (stores ++ [dst]) v4
              (by omega)
            simp [rest, same]

/-- Whatever it comes to, an address that is not bindable throws, and only such a one. -/
theorem parse_ok {getipDef : GetIp} {bs : List UInt8} :
    (∃ read, Ipap.parse getipDef bs = .ok read) ↔ Bindable getipDef bs := by
  simp only [Ipap.parse, Bindable]
  split
  · rename_i v6
    simp [v6]
  · rename_i noV6
    simp only [noV6, false_or]
    by_cases v4 : getipDef.v4 = true
    · have loop := @octetLoop_ok (Ipap.clear getipDef) 0 [] (tokens '.'.toUInt8 bs) v4
        (Nat.zero_le 4)
      simp only [loop, v4, true_and]
      constructor
      · exact Or.inr
      · rintro (nothing | read)
        · simp [nothing]
        · exact read
    · cases tkns : tokens '.'.toUInt8 bs with
      | nil => simp [Ipap.octetLoop]
      | cons tkn tkns =>
          have clear : (Ipap.clear getipDef).v4 = false := by simpa [Ipap.clear] using v4
          simp only [Ipap.octetLoop, clear, v4]
          cases stoi tkn <;> simp

/-! ### Listeners -/

/-- The numbers and the address of a listener can be read, as far as they are looked at. -/
def ListenerReadable (getipDef : GetIp) (names : List (List UInt8)) (bb : Sts) : Prop :=
  bb.getString typeName = tcpType → bb.IsNumberAt portName ∧
    (bb.numberAt portName 0 ≠ 0 → ∀ hnd, bb.get handlerName = some hnd →
      HandlerReadable hnd ∧ (HandlerAccepted names hnd → Bindable getipDef (bb.getString bindName)))

/-- A listener can be built: it is for TCP, and has a port and a handler that can be built. -/
def ListenerAccepted (names : List (List UInt8)) (bb : Sts) : Prop :=
  bb.getString typeName = tcpType ∧ bb.numberAt portName 0 ≠ 0 ∧
    ∃ hnd, bb.get handlerName = some hnd ∧ HandlerAccepted names hnd

/-- A listener is built. -/
def ListenerBuilds (getipDef : GetIp) (names : List (List UInt8)) (bb : Sts) : Prop :=
  ListenerReadable getipDef names bb ∧ ListenerAccepted names bb

/-- The constructor, if what it looks at can be read -/
theorem tcpListener_leaves (ok : ldr.exitCode = .ok) (name : List UInt8)
    (number : bb.IsNumberAt portName)
    (readable : bb.numberAt portName 0 ≠ 0 → ∀ hnd, bb.get handlerName = some hnd →
      HandlerReadable hnd ∧ (HandlerAccepted (prox.map Proxy.name) hnd →
        Bindable ldr.getipDef (bb.getString bindName))) :
    ∃ ls left, tcpListener md5 prox ldr name bb = .ok (ls, left) ∧ ls.name = name ∧
      Leaves (bb.numberAt portName 0 ≠ 0 ∧ ∃ hnd, bb.get handlerName = some hnd ∧
        HandlerAccepted (prox.map Proxy.name) hnd) ldr left := by
  have port := Sts.getInt_of_isNumberAt number 0
  simp only [tcpListener, port, Except.mapError, bind, Except.bind]
  by_cases zero : bb.numberAt portName 0 = 0
  · simp only [zero, if_true]
    exact ⟨_, _, rfl, rfl, by simp, fun _ => ⟨.portUndefined, by decide, rfl⟩⟩
  · simp only [zero, if_false]
    cases found : bb.get handlerName with
    | none => exact ⟨_, _, rfl, rfl, by simp, fun _ => ⟨.noHandler, by decide, rfl⟩⟩
    | some hnd =>
        rcases readable zero hnd found with ⟨handlerReads, bindable⟩
        rcases @handler_build md5 ldr hnd prox ok handlerReads with ⟨built, handled, result⟩
        simp only [handled]
        by_cases accepted : HandlerAccepted (prox.map Proxy.name) hnd
        · rcases result.kept accepted with ⟨h, rfl, -⟩
          rcases parse_ok.mpr (bindable accepted) with ⟨⟨bindaddr, stores⟩, parsed⟩
          simp only [parsed]
          refine ⟨_, _, rfl, rfl, fun _ => rfl, ?_⟩
          intro rejected
          exact absurd ⟨zero, hnd, rfl, accepted⟩ rejected
        · rcases result.refused accepted with ⟨code, refuses, rfl⟩
          refine ⟨_, _, rfl, rfl, ?_, fun _ => ⟨code, refuses, rfl⟩⟩
          rintro ⟨-, other, same, good⟩
          cases same
          exact absurd good accepted

/-- `listener::build` makes what is accepted, and nothing else, if it can be read. -/
theorem listener_build (ok : ldr.exitCode = .ok) (name : List UInt8)
    (readable : ListenerReadable ldr.getipDef (prox.map Proxy.name) bb) :
    ∃ built, Listener.build md5 prox ldr name bb = .ok built ∧
      Built (ListenerAccepted (prox.map Proxy.name) bb) (fun ls => ls.name = name) ldr built := by
  simp only [Listener.build, ListenerAccepted]
  split
  · rename_i noType
    refine ⟨_, rfl, built_fail (by decide) ?_⟩
    simp [noType, type_ne_nil]
  split
  · rename_i tcp
    rcases readable tcp with ⟨number, rest⟩
    rcases @tcpListener_leaves md5 ldr bb prox ok name number rest with
        ⟨ls, left, made, named, leaves⟩
    refine ⟨Loader.kept (ls, left), by simp only [made, Except.map], ?_⟩
    have built := @Leaves.built _ ldr _ (fun ls : Listener => ls.name = name) _ _ leaves ok named
    exact built.congr (by simp [tcp])
  · rename_i other
    refine ⟨_, rfl, built_fail (by decide) ?_⟩
    simp [other]

/-- What cannot be read of a listener ends its constructor. -/
theorem tcpListener_of_not_readable (ok : ldr.exitCode = .ok) (name : List UInt8)
    (unreadable : ¬(bb.IsNumberAt portName ∧
      (bb.numberAt portName 0 ≠ 0 → ∀ hnd, bb.get handlerName = some hnd →
        HandlerReadable hnd ∧ (HandlerAccepted (prox.map Proxy.name) hnd →
          Bindable ldr.getipDef (bb.getString bindName))))) :
    ∃ fault, tcpListener md5 prox ldr name bb = .error fault := by
  by_cases number : bb.IsNumberAt portName
  · simp only [number, true_and, Classical.not_imp, not_forall] at unreadable
    rcases unreadable with ⟨port, hnd, found, reads⟩
    have read := Sts.getInt_of_isNumberAt number 0
    simp only [tcpListener, read, Except.mapError, bind, Except.bind, port, if_false, found]
    by_cases handlerReads : HandlerReadable hnd
    · rw [not_and_or, Classical.not_imp] at reads
      rcases reads.resolve_left (not_not.mpr handlerReads) with ⟨accepted, unbindable⟩
      rcases @handler_build md5 ldr hnd prox ok handlerReads with ⟨built, handled, result⟩
      rcases result.kept accepted with ⟨h, rfl, -⟩
      cases parsed : Ipap.parse ldr.getipDef (bb.getString bindName) with
      | error fault => exact ⟨.parse fault, by simp only [handled, parsed]⟩
      | ok address => exact absurd (parse_ok.mp ⟨address, parsed⟩) unbindable
    · rcases @handler_build_of_not_readable md5 ldr hnd prox handlerReads with ⟨fault, handled⟩
      exact ⟨fault, by simp only [handled]⟩
  · rcases Sts.getInt_of_not_isNumberAt number 0 with ⟨thrown, read⟩
    exact ⟨.thrown thrown, by simp only [tcpListener, read, Except.mapError, bind, Except.bind]⟩

/-- Otherwise it throws. -/
theorem listener_build_of_not_readable (ok : ldr.exitCode = .ok) (name : List UInt8)
    (unreadable : ¬ListenerReadable ldr.getipDef (prox.map Proxy.name) bb) :
    ∃ fault, Listener.build md5 prox ldr name bb = .error fault := by
  simp only [ListenerReadable, Classical.not_imp] at unreadable
  rcases unreadable with ⟨tcp, reads⟩
  rcases @tcpListener_of_not_readable md5 ldr bb prox ok name reads with ⟨fault, made⟩
  exact ⟨fault, by simp [Listener.build, tcp, type_ne_nil, made, Except.map]⟩

end Builders

end Imconee.Startup
