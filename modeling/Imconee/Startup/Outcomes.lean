import Imconee.Startup.Acceptance
import Imconee.Startup.Engine

/-!
# How the start ends

Each element of the two lists passes, is refused or ends the program. The first one that does not
pass decides how the loop over its list ends, and the loops decide how the start does.
-/

set_option autoImplicit false

namespace Imconee.Startup

open Lib Str Config Netkit

/-! ### The elements of a list -/

/-- An element that is passed over for its name -/
def Skipped (name : List UInt8) : Prop := name = [] ∨ name.getD 0 0 = '!'.toUInt8

instance (name : List UInt8) : Decidable (Skipped name) :=
  inferInstanceAs (Decidable (name = [] ∨ name.getD 0 0 = '!'.toUInt8))

/-- An element behind which a loop goes on -/
def Passed (builds : Sts → Prop) : ElementName × Sts → Prop
  | (.comment, _) => True
  | (.none, _) => False
  | (.named name, sts) => Skipped name ∨ builds sts

/-- An element that ends the program: it has no name, or what is looked at cannot be read. -/
def Fatal (readable : Sts → Prop) : ElementName × Sts → Prop
  | (.comment, _) => False
  | (.none, _) => True
  | (.named name, sts) => ¬Skipped name ∧ ¬readable sts

/-- The name of what is to be built -/
def wanted : ElementName → Option (List UInt8)
  | .named name => if Skipped name then none else some name
  | _ => none

/-- The names of what a list builds -/
def namesOf (elements : List (ElementName × Sts)) : List (List UInt8) :=
  elements.filterMap fun element => wanted element.1

theorem namesOf_append (before : List (ElementName × Sts)) (element : ElementName × Sts) :
    namesOf (before ++ [element]) = namesOf before ++ (wanted element.1).toList := by
  simp only [namesOf, List.filterMap_append, List.filterMap_cons, List.filterMap_nil]
  cases wanted element.1 <;> rfl

theorem wanted_of_not_skipped {name : List UInt8} (counts : ¬Skipped name) :
    wanted (.named name) = some name := if_neg counts

theorem wanted_of_skipped {name : List UInt8} (skipped : Skipped name) :
    wanted (.named name) = none := if_pos skipped

section Element

variable {σ : Type} {call : σ → List UInt8 → Sts → Except Fault (σ × Bool)} {s : σ}

theorem element_skipped {name : List UInt8} {sts : Sts} (skipped : Skipped name)
    (empty : call s [] sts = .ok (s, true)) :
    Loader.element call s (.named name, sts) = .ok (s, true) := by
  rcases skipped with rfl | exclamation
  · simp [Loader.element, empty]
  · simp only [Loader.element, exclamation, if_true]

theorem element_wanted {name : List UInt8} {sts : Sts} (counts : ¬Skipped name) :
    Loader.element call s (.named name, sts) = call s name sts := by
  simp only [Skipped, not_or] at counts
  simp only [Loader.element, counts.2, if_false]

/-- What the loops call decides about the elements that have a name and are not skipped. -/
theorem sorts_element {builds readable : Sts → Prop} {stopped : σ → Prop}
    {seen : List (ElementName × Sts) → σ → Prop}
    (empty : ∀ s sts, call s [] sts = .ok (s, true))
    (keeps : ∀ before s element, seen before s → wanted element.1 = none →
      seen (before ++ [element]) s)
    (pass : ∀ before s name sts, seen before s → ¬Skipped name → builds sts →
      ∃ t, call s name sts = .ok (t, true) ∧ seen (before ++ [(.named name, sts)]) t)
    (stop : ∀ before s name sts, seen before s → ¬Skipped name → ¬builds sts → readable sts →
      ∃ t, call s name sts = .ok (t, false) ∧ stopped t)
    (fail : ∀ before s name sts, seen before s → ¬Skipped name → ¬readable sts →
      ∃ fault, call s name sts = .error fault) :
    Sorts (Loader.element call) (Passed builds) (Fatal readable) seen stopped := by
  constructor
  · rintro before s ⟨_ | _ | name, sts⟩ reached passed
    · exact passed.elim
    · exact ⟨s, rfl, keeps _ _ _ reached rfl⟩
    · by_cases skipped : Skipped name
      · exact ⟨s, element_skipped skipped (empty s sts),
          keeps _ _ _ reached (wanted_of_skipped skipped)⟩
      · simp only [element_wanted skipped]
        exact pass before s name sts reached skipped (passed.resolve_left skipped)
  · rintro before s ⟨_ | _ | name, sts⟩ reached stays harmless
    · exact absurd trivial harmless
    · exact absurd trivial stays
    · rcases not_or.mp stays with ⟨counts, refused⟩
      simp only [element_wanted counts]
      apply stop before s name sts reached counts refused
      by_contra unreadable
      exact harmless ⟨counts, unreadable⟩
  · rintro before s ⟨_ | _ | name, sts⟩ reached fatal
    · exact ⟨.nullName, rfl⟩
    · exact fatal.elim
    · simp only [element_wanted fatal.1]
      exact fail before s name sts reached fatal.1 fatal.2

end Element

section Loops

variable {md5 : List UInt8 → Vector UInt8 16} {ldr : Loader}

/-- The proxies of the elements that have been passed -/
structure ProxiesOf (ldr : Loader) (before : List (ElementName × Sts)) (s : Engine × Loader) :
    Prop where
  engine : s.1 = { prox := s.1.prox }
  loader : s.2 = ldr
  names : s.1.prox.map Proxy.name = namesOf before

/-- A loop over proxies has been stopped. -/
structure ProxyRefused (ldr : Loader) (s : Engine × Loader) : Prop where
  engine : s.1 = { prox := s.1.prox }
  code : ∃ code, Refuses code ∧ s.2 = ldr.fail code

/-- What the loop over the proxies does with each -/
theorem sorts_proxies (ok : ldr.exitCode = .ok) :
    Sorts (Loader.element (addProxy md5)) (Passed ProxyAccepted) (Fatal fun _ => True)
      (ProxiesOf ldr) (ProxyRefused ldr) := by
  apply sorts_element
  · intro s sts
    rfl
  · intro before s element seen none
    exact ⟨seen.engine, seen.loader, by simpa [namesOf_append, none] using seen.names⟩
  · rintro before ⟨e, left⟩ name sts ⟨engine, rfl, names⟩ counts accepted
    rcases (@proxy_build md5 left sts ok name).kept accepted with ⟨p, built, named⟩
    refine ⟨({ e with prox := e.prox ++ [p] }, left), ?_, ?_, rfl, ?_⟩
    · simp only [addProxy, (not_or.mp counts).1, if_false, built]
    · simp only at engine ⊢
      rw [engine]
    · simpa [namesOf_append, wanted_of_not_skipped counts, named] using names
  · rintro before ⟨e, left⟩ name sts ⟨engine, rfl, names⟩ counts rejected -
    rcases (@proxy_build md5 left sts ok name).refused rejected with ⟨code, refuses, built⟩
    refine ⟨(e, left.fail code), ?_, engine, code, refuses, rfl⟩
    simp only [addProxy, (not_or.mp counts).1, if_false, built]
  · intro before s name sts seen counts unreadable
    exact absurd trivial unreadable

/-- The listeners of the elements that have been passed -/
structure ListenersOf (ldr : Loader) (prox : List Proxy) (before : List (ElementName × Sts))
    (s : Engine × Loader) : Prop where
  engine : s.1 = { prox, listners := s.1.listners }
  loader : s.2 = ldr
  names : s.1.listners.map Listener.name = namesOf before

/-- A loop over listeners has been stopped. -/
structure ListenerRefused (ldr : Loader) (prox : List Proxy) (s : Engine × Loader) : Prop where
  engine : s.1 = { prox, listners := s.1.listners }
  code : ∃ code, Refuses code ∧ s.2 = ldr.fail code

/-- What the loop over the listeners does with each -/
theorem sorts_listeners (ok : ldr.exitCode = .ok) (prox : List Proxy) :
    Sorts (Loader.element (addListener md5))
      (Passed (ListenerBuilds ldr.getipDef (prox.map Proxy.name)))
      (Fatal (ListenerReadable ldr.getipDef (prox.map Proxy.name)))
      (ListenersOf ldr prox) (ListenerRefused ldr prox) := by
  apply sorts_element
  · intro s sts
    rfl
  · intro before s element seen none
    exact ⟨seen.engine, seen.loader, by simpa [namesOf_append, none] using seen.names⟩
  · rintro before ⟨e, left⟩ name sts ⟨engine, rfl, names⟩ counts ⟨readable, accepted⟩
    simp only at engine names
    have known : e.prox = prox := congrArg Engine.prox engine
    rcases @listener_build md5 left sts prox ok name readable with ⟨built, made, result⟩
    rcases result.kept accepted with ⟨ls, rfl, named⟩
    refine ⟨({ e with listners := e.listners ++ [ls] }, left), ?_, ?_, rfl, ?_⟩
    · simp only [addListener, (not_or.mp counts).1, if_false, known, made, bind, Except.bind]
      rfl
    · simp only
      rw [engine]
    · simpa [namesOf_append, wanted_of_not_skipped counts, named] using names
  · rintro before ⟨e, left⟩ name sts ⟨engine, rfl, names⟩ counts rejected readable
    simp only at engine
    have known : e.prox = prox := congrArg Engine.prox engine
    rcases @listener_build md5 left sts prox ok name readable with ⟨built, made, result⟩
    rcases result.refused fun accepted => rejected ⟨readable, accepted⟩ with ⟨code, refuses, rfl⟩
    refine ⟨(e, left.fail code), ?_, engine, code, refuses, rfl⟩
    simp only [addListener, (not_or.mp counts).1, if_false, known, made, bind, Except.bind]
    rfl
  · rintro before ⟨e, left⟩ name sts ⟨engine, rfl, names⟩ counts unreadable
    simp only at engine
    have known : e.prox = prox := congrArg Engine.prox engine
    rcases @listener_build_of_not_readable md5 left sts prox ok name unreadable with ⟨fault, made⟩
    refine ⟨fault, ?_⟩
    simp only [addListener, (not_or.mp counts).1, if_false, known, made, bind, Except.bind]

end Loops

/-! ### The configuration -/

/-- The elements of the block of proxies -/
def proxiesOf (cfg : Sts) : List (ElementName × Sts) := (cfg.get proxyName).elim [] Sts.elements

/-- The numbers of the settings can be read. -/
def SettingsReadable (cfg : Sts) : Prop :=
  ∀ settings, cfg.get settingsName = some settings →
    settings.IsNumberAt ipv4Name ∧ settings.IsNumberAt ipv6Name

/-- `getip_def` as the settings have it -/
def settingsGetip (cfg : Sts) : Option GetIp :=
  match cfg.get settingsName with
  | none => some .prior4
  | some settings => getipOf (settings.numberAt ipv4Name 1) (settings.numberAt ipv6Name 0)

/-- A configuration that `load_conf` accepts -/
structure Accepts (cfg listeners : Sts) (getipDef : GetIp) : Prop where
  listeners : cfg.get listenersName = some listeners
  readable : SettingsReadable cfg
  getip : settingsGetip cfg = some getipDef

/-- The loader behind `load_conf` -/
def loaded (cfg listeners : Sts) (getipDef : GetIp) : Loader :=
  { listeners := some listeners, prox := cfg.get proxyName, settings := cfg.get settingsName,
    getipDef }

/-- The engine is not to run, and has the code of the loader. -/
def Quits (result : Except Fault (Engine × Loader)) : Prop :=
  ∃ e ldr, result = .ok (e, ldr) ∧ ldr.exitCode ≠ .ok ∧ e.opened = [] ∧ e.exit = true ∧
    e.exitCode = ldr.exitCode

section Engine

variable {md5 : List UInt8 → Vector UInt8 16} {cfg listeners : Sts} {getipDef : GetIp}

/-- The loader has left a code. -/
theorem quits_of_loadConf {file : Option Sts} {ldr : Loader}
    (refused : Loader.loadConf file = .ok (ldr, false)) (code : ldr.exitCode ≠ .ok) :
    Quits (engine md5 file) := by
  refine ⟨Engine.quit {} ldr.exitCode, ldr, ?_, code, rfl, rfl, rfl⟩
  simp [engine, refused, bind, Except.bind, pure, Except.pure]

theorem quits_of_no_file : Quits (engine md5 none) :=
  @quits_of_loadConf md5 none { exitCode := .noConfig } rfl (by decide)

theorem quits_of_no_listeners (missing : cfg.get listenersName = none) :
    Quits (engine md5 (some cfg)) := by
  have refused : Loader.loadConf (some cfg) =
      .ok ({ prox := cfg.get proxyName, exitCode := .noListeners }, false) := by
    simp [Loader.loadConf, missing]
  exact quits_of_loadConf refused (by simp)

/-- The settings of a configuration with listeners -/
theorem loadConf_eq (found : cfg.get listenersName = some listeners)
    (readable : SettingsReadable cfg) :
    Loader.loadConf (some cfg) =
      match settingsGetip cfg with
      | none => .ok ((loaded cfg listeners .prior4).fail .ipv46Vals, false)
      | some getipDef => .ok (loaded cfg listeners getipDef, true) := by
  simp only [Loader.loadConf, found, settingsGetip, loaded]
  cases block : cfg.get settingsName with
  | none => rfl
  | some settings =>
      rcases readable settings block with ⟨ipv4, ipv6⟩
      have first := Sts.getInt_of_isNumberAt ipv4 1
      have second := Sts.getInt_of_isNumberAt ipv6 0
      simp only [Loader.readSettings, first, second, Except.mapError, bind, Except.bind]
      cases getipOf (settings.numberAt ipv4Name 1) (settings.numberAt ipv6Name 0) <;> rfl

/-- The settings give both versions the same weight. -/
theorem quits_of_settings (found : cfg.get listenersName = some listeners)
    (readable : SettingsReadable cfg) (equal : settingsGetip cfg = none) :
    Quits (engine md5 (some cfg)) := by
  have refused := loadConf_eq found readable
  rw [equal] at refused
  exact quits_of_loadConf refused (by simp [Loader.fail])

/-- A number of the settings cannot be read. -/
theorem fault_of_settings (found : cfg.get listenersName = some listeners)
    (unreadable : ¬SettingsReadable cfg) : ∃ fault, engine md5 (some cfg) = .error fault := by
  simp only [SettingsReadable, not_forall] at unreadable
  rcases unreadable with ⟨settings, block, noNumber⟩
  suffices read : ∀ ldr : Loader, ∃ fault, ldr.readSettings settings = .error fault by
    rcases read
      { listeners := some listeners, prox := cfg.get proxyName, settings := some settings } with
      ⟨fault, read⟩
    exact ⟨fault, by simp [engine, Loader.loadConf, found, block, read, bind, Except.bind]⟩
  intro ldr
  by_cases ipv4 : settings.IsNumberAt ipv4Name
  · have ipv6 : ¬settings.IsNumberAt ipv6Name := fun ipv6 => noNumber ⟨ipv4, ipv6⟩
    have first := Sts.getInt_of_isNumberAt ipv4 1
    rcases Sts.getInt_of_not_isNumberAt ipv6 0 with ⟨thrown, second⟩
    exact ⟨.thrown thrown, by
      simp [Loader.readSettings, first, second, Except.mapError, bind, Except.bind]⟩
  · rcases Sts.getInt_of_not_isNumberAt ipv4 1 with ⟨thrown, first⟩
    exact ⟨.thrown thrown, by
      simp [Loader.readSettings, first, Except.mapError, bind, Except.bind]⟩

/-! ### Behind the settings -/

/-- Where the loop over the proxies starts -/
theorem proxiesOf_nil (ldr : Loader) : ProxiesOf ldr [] ({}, ldr) := ⟨rfl, rfl, rfl⟩

theorem iterateP_eq {σ : Type} (call : σ → List UInt8 → Sts → Except Fault (σ × Bool)) (s : σ) :
    (loaded cfg listeners getipDef).iterateP call s =
      visit (Loader.element call) s (proxiesOf cfg) := by
  simp only [Loader.iterateP, loaded, proxiesOf]
  cases cfg.get proxyName <;> rfl

/-- What is left of the start behind the loader -/
theorem engine_of_accepts (accepts : Accepts cfg listeners getipDef) :
    engine md5 (some cfg) =
      (visit (Loader.element (addProxy md5)) ({}, loaded cfg listeners getipDef)
        (proxiesOf cfg)).bind fun s =>
        if s.1.2.exitCode ≠ .ok then .ok (s.1.1.quit s.1.2.exitCode, s.1.2)
        else (s.1.2.iterateL (addListener md5) s.1).map fun s => openListeners s.1 := by
  have read : Loader.loadConf (some cfg) = .ok (loaded cfg listeners getipDef, true) := by
    rw [loadConf_eq accepts.listeners accepts.readable, accepts.getip]
  simp only [engine, read, bind, Except.bind, Bool.not_true, Bool.false_eq_true, if_false,
    iterateP_eq]
  cases visit (Loader.element (addProxy md5)) ({}, loaded cfg listeners getipDef)
    (proxiesOf cfg) with
  | error fault => rfl
  | ok s =>
      simp only
      split
      · rfl
      · cases s.1.2.iterateL (addListener md5) s.1 <;> rfl

theorem fault_of_proxy (accepts : Accepts cfg listeners getipDef) {x : ElementName × Sts}
    (first : First (Passed ProxyAccepted) (proxiesOf cfg) x) (fatal : Fatal (fun _ => True) x) :
    ∃ fault, engine md5 (some cfg) = .error fault := by
  have sorts := @sorts_proxies md5 (loaded cfg listeners getipDef) rfl
  rcases sorts.visit_fail (proxiesOf_nil _) first fatal with ⟨fault, visited⟩
  exact ⟨fault, by simp only [engine_of_accepts accepts, visited, Except.bind]⟩

/-- The first proxy that is refused ends the start. -/
theorem quits_of_proxy (accepts : Accepts cfg listeners getipDef) {x : ElementName × Sts}
    (first : First (Passed ProxyAccepted) (proxiesOf cfg) x) (harmless : ¬Fatal (fun _ => True) x) :
    Quits (engine md5 (some cfg)) := by
  have sorts := @sorts_proxies md5 (loaded cfg listeners getipDef) rfl
  rcases sorts.visit_stop (proxiesOf_nil _) first harmless with
      ⟨⟨e, left⟩, visited, engine, code, refuses, rfl⟩
  have opened : e.opened = [] := congrArg Engine.opened engine
  refine ⟨e.quit code, (loaded cfg listeners getipDef).fail code, ?_, refuses.1, opened, rfl, rfl⟩
  simp [engine_of_accepts accepts, visited, Except.bind, Loader.fail, refuses.1]

/-- The engine and the loader where the loop over the listeners starts -/
theorem proxies_built (all : ∀ x ∈ proxiesOf cfg, Passed ProxyAccepted x) (ldr : Loader)
    (ok : ldr.exitCode = .ok) :
    ∃ prox : List Proxy, prox.map Proxy.name = namesOf (proxiesOf cfg) ∧
      visit (Loader.element (addProxy md5)) ({}, ldr) (proxiesOf cfg) =
        .ok (({ prox }, ldr), true) := by
  rcases (@sorts_proxies md5 ldr ok).visit_all (proxiesOf_nil ldr) all with
      ⟨⟨e, left⟩, visited, engine, rfl, names⟩
  simp only at engine
  rw [engine] at visited
  exact ⟨e.prox, by simpa using names, visited⟩

/-- Behind the proxies there is the loop over the listeners. -/
theorem engine_of_proxies (accepts : Accepts cfg listeners getipDef)
    (all : ∀ x ∈ proxiesOf cfg, Passed ProxyAccepted x) :
    ∃ prox : List Proxy, prox.map Proxy.name = namesOf (proxiesOf cfg) ∧
      engine md5 (some cfg) =
        (visit (Loader.element (addListener md5)) ({ prox }, loaded cfg listeners getipDef)
          listeners.elements).map fun s => openListeners s.1 := by
  rcases @proxies_built md5 cfg all (loaded cfg listeners getipDef) rfl with ⟨prox, names, visited⟩
  refine ⟨prox, names, ?_⟩
  simp only [engine_of_accepts accepts, visited, Except.bind]
  simp only [loaded, ne_eq, not_true_eq_false, if_false, Loader.iterateL]

/-! ### Behind the proxies -/

/-- Where the loop over the listeners starts -/
theorem listenersOf_nil (ldr : Loader) (prox : List Proxy) :
    ListenersOf ldr prox [] ({ prox }, ldr) := ⟨rfl, rfl, rfl⟩

/-- The listeners pass as the settings and the names of the proxies have it. -/
def ListenerPassed (cfg : Sts) (getipDef : GetIp) : ElementName × Sts → Prop :=
  Passed (ListenerBuilds getipDef (namesOf (proxiesOf cfg)))

/-- They end the program where a block of theirs cannot be read. -/
def ListenerFatal (cfg : Sts) (getipDef : GetIp) : ElementName × Sts → Prop :=
  Fatal (ListenerReadable getipDef (namesOf (proxiesOf cfg)))

theorem fault_of_listener (accepts : Accepts cfg listeners getipDef)
    (all : ∀ x ∈ proxiesOf cfg, Passed ProxyAccepted x) {x : ElementName × Sts}
    (first : First (ListenerPassed cfg getipDef) listeners.elements x)
    (fatal : ListenerFatal cfg getipDef x) : ∃ fault, engine md5 (some cfg) = .error fault := by
  rcases @engine_of_proxies md5 _ _ _ accepts all with ⟨prox, names, behind⟩
  have sorts := @sorts_listeners md5 (loaded cfg listeners getipDef) rfl prox
  rw [names] at sorts
  rcases sorts.visit_fail (listenersOf_nil _ prox) first fatal with ⟨fault, visited⟩
  exact ⟨fault, by simp only [behind, visited, Except.map]⟩

/-- Behind a listener that is refused the engine opens those before it, or has the code of a
configuration without listeners. -/
theorem opens_of_listener (accepts : Accepts cfg listeners getipDef)
    (all : ∀ x ∈ proxiesOf cfg, Passed ProxyAccepted x) {x : ElementName × Sts}
    (first : First (ListenerPassed cfg getipDef) listeners.elements x)
    (harmless : ¬ListenerFatal cfg getipDef x) :
    ∃ e ldr, engine md5 (some cfg) = .ok (e, ldr) ∧ Refuses ldr.exitCode ∧
      (e.opened ≠ [] ∨ e.exitCode = .noListeners) := by
  rcases @engine_of_proxies md5 _ _ _ accepts all with ⟨prox, names, behind⟩
  have sorts := @sorts_listeners md5 (loaded cfg listeners getipDef) rfl prox
  rw [names] at sorts
  rcases sorts.visit_stop (listenersOf_nil _ prox) first harmless with
      ⟨⟨e, left⟩, visited, engine, code, refuses, rfl⟩
  have ok : e.exitCode = .ok := congrArg Engine.exitCode engine
  simp only [behind, visited, Except.map, openListeners, ok, ne_eq, not_true_eq_false, if_false]
  split
  · exact ⟨_, _, rfl, refuses, Or.inr rfl⟩
  · rename_i some
    exact ⟨_, _, rfl, refuses, Or.inl some⟩

/-- Each element that is to be built has been built. -/
structure AllBuilt (cfg listeners : Sts) (e : Engine) : Prop where
  prox : e.prox.map Proxy.name = namesOf (proxiesOf cfg)
  listners : e.listners.map Listener.name = namesOf listeners.elements

/-- Where all listeners pass, all are opened. -/
theorem opens_of_all (accepts : Accepts cfg listeners getipDef)
    (all : ∀ x ∈ proxiesOf cfg, Passed ProxyAccepted x)
    (every : ∀ x ∈ listeners.elements, ListenerPassed cfg getipDef x) :
    ∃ e ldr, engine md5 (some cfg) = .ok (e, ldr) ∧ ldr.exitCode = .ok ∧
      AllBuilt cfg listeners e := by
  rcases @engine_of_proxies md5 _ _ _ accepts all with ⟨prox, names, behind⟩
  have sorts := @sorts_listeners md5 (loaded cfg listeners getipDef) rfl prox
  rw [names] at sorts
  rcases sorts.visit_all (listenersOf_nil _ prox) every with
      ⟨⟨e, left⟩, visited, engine, rfl, built⟩
  have ok : e.exitCode = .ok := congrArg Engine.exitCode engine
  have proxies : e.prox = prox := congrArg Engine.prox engine
  have whole : AllBuilt cfg listeners e := ⟨by simpa [proxies] using names, by simpa using built⟩
  simp only [behind, visited, Except.map, openListeners, ok, ne_eq, not_true_eq_false, if_false]
  split
  · exact ⟨_, _, rfl, rfl, whole.1, whole.2⟩
  · exact ⟨_, _, rfl, rfl, whole.1, whole.2⟩

end Engine

end Imconee.Startup
