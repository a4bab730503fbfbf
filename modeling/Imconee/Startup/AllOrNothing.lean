import Imconee.Startup.Outcomes

/-!
# All or nothing

A start that fails is to open no listener and to leave the code of the loader. So it is where the
settings or a proxy are refused. Behind the listeners it is the code of the engine that is tested,
which nobody has set.
-/

set_option autoImplicit false

namespace Imconee.Startup

open Lib Str Config

/-- A start that fails opens no listener, and the engine is not to run and has the code of the
loader; a listener is opened only where all that is to be built has been built. -/
def AllOrNothing (md5 : List UInt8 → Vector UInt8 16) (file : Option Sts) : Prop :=
  ∀ e ldr, engine md5 file = .ok (e, ldr) →
    (ldr.exitCode ≠ .ok → e.opened = [] ∧ e.exit = true ∧ e.exitCode = ldr.exitCode) ∧
      (e.opened ≠ [] → ∃ cfg listeners, file = some cfg ∧
        cfg.get listenersName = some listeners ∧ AllBuilt cfg listeners e)

/-- The settings are accepted and all proxies built, and the first listener that is not built is
refused. -/
def RefusesListener (file : Option Sts) : Prop :=
  ∃ cfg listeners getipDef x, file = some cfg ∧ Accepts cfg listeners getipDef ∧
    (∀ x ∈ proxiesOf cfg, Passed ProxyAccepted x) ∧
    First (ListenerPassed cfg getipDef) listeners.elements x ∧ ¬ListenerFatal cfg getipDef x

variable {md5 : List UInt8 → Vector UInt8 16} {file : Option Sts}

theorem allOrNothing_of_quits (quits : Quits (engine md5 file)) : AllOrNothing md5 file := by
  rcases quits with ⟨e, ldr, ends, -, opened, exit, code⟩
  intro e' ldr' ends'
  obtain ⟨rfl, rfl⟩ : e = e' ∧ ldr = ldr' := by simpa [ends] using ends'
  exact ⟨fun _ => ⟨opened, exit, code⟩, fun some => absurd opened some⟩

theorem allOrNothing_of_fault (faults : ∃ fault, engine md5 file = .error fault) :
    AllOrNothing md5 file := by
  rcases faults with ⟨fault, ends⟩
  intro e ldr ends'
  rw [ends] at ends'
  cases ends'

/-- A configuration whose settings are in order -/
theorem allOrNothing_of_accepts {cfg listeners : Sts} {getipDef : Netkit.GetIp}
    (accepts : Accepts cfg listeners getipDef) (never : ¬RefusesListener (some cfg)) :
    AllOrNothing md5 (some cfg) := by
  rcases all_or_first (Passed ProxyAccepted) (proxiesOf cfg) with all | ⟨x, first⟩
  · rcases all_or_first (ListenerPassed cfg getipDef) listeners.elements with every | ⟨x, first⟩
    · rcases @opens_of_all md5 _ _ _ accepts all every with ⟨e, ldr, ends, ok, built⟩
      intro e' ldr' ends'
      obtain ⟨rfl, rfl⟩ : e = e' ∧ ldr = ldr' := by simpa [ends] using ends'
      exact ⟨fun failed => absurd ok failed,
        fun _ => ⟨cfg, listeners, rfl, accepts.listeners, built⟩⟩
    · by_cases fatal : ListenerFatal cfg getipDef x
      · exact allOrNothing_of_fault (fault_of_listener accepts all first fatal)
      · exact absurd ⟨cfg, listeners, getipDef, x, rfl, accepts, all, first, fatal⟩ never
  · by_cases fatal : Fatal (fun _ => True) x
    · exact allOrNothing_of_fault (fault_of_proxy accepts first fatal)
    · exact allOrNothing_of_quits (quits_of_proxy accepts first fatal)

/-- A start is all or nothing exactly if it does not come to a listener that is refused. -/
theorem allOrNothing_iff (md5 : List UInt8 → Vector UInt8 16) (file : Option Sts) :
    AllOrNothing md5 file ↔ ¬RefusesListener file := by
  constructor
  · rintro whole ⟨cfg, listeners, getipDef, x, rfl, accepts, all, first, harmless⟩
    rcases @opens_of_listener md5 _ _ _ accepts all _ first harmless with
        ⟨e, ldr, ends, refuses, opens | code⟩
    · exact opens ((whole e ldr ends).1 refuses.1).1
    · rcases (whole e ldr ends).1 refuses.1 with ⟨-, -, same⟩
      exact refuses.2 (same.symm.trans code)
  · intro never
    cases file with
    | none => exact allOrNothing_of_quits quits_of_no_file
    | some cfg =>
        cases found : cfg.get listenersName with
        | none => exact allOrNothing_of_quits (quits_of_no_listeners found)
        | some listeners =>
            by_cases readable : SettingsReadable cfg
            · cases getip : settingsGetip cfg with
              | none => exact allOrNothing_of_quits (quits_of_settings found readable getip)
              | some getipDef => exact allOrNothing_of_accepts ⟨found, readable, getip⟩ never
            · exact allOrNothing_of_fault (fault_of_settings found readable)

/-- `listeners {a {type=tcp port=80 handler {type=socks}} b {type=udp}}` -/
def refusedSecond : Sts :=
  .mk [] [(.named listenersName, .mk [] [
    (.named (ascii ['a']), .mk [] [(.named typeName, .mk tcpType []),
      (.named portName, .mk (ascii ['8', '0']) []),
      (.named handlerName, .mk [] [(.named typeName, .mk socksType [])])]),
    (.named (ascii ['b']), .mk [] [(.named typeName, .mk (ascii ['u', 'd', 'p']) [])])])]

/-- The first listener is opened, and the code of the second one is lost. -/
theorem not_allOrNothing : ¬∀ md5 file, AllOrNothing md5 file := by
  intro whole
  have ends : (engine (fun _ => .replicate 16 0) (some refusedSecond)).toOption.map
      (fun s => (s.2.exitCode, s.1.opened.length)) = some (.typeUndefined, 1) := by
    decide +kernel
  cases run : engine (fun _ => .replicate 16 0) (some refusedSecond) with
  | error fault => simp [run, Except.toOption] at ends
  | ok s =>
      simp only [run, Except.toOption, Option.map_some, Option.some.injEq, Prod.mk.injEq] at ends
      rcases (whole _ _ s.1 s.2 run).1 (by simp [ends.1]) with ⟨nothing, -⟩
      simp [nothing] at ends

end Imconee.Startup
