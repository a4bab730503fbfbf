import Imconee.Config.Bounds
import Imconee.Startup.Outcomes

/-!
# Configurations that end the program

A text of any kind is read as a tree, and the start ends with an engine or with a code unless it
comes to a block without a name, or to a number or an address that cannot be read. It comes to
whatever is not behind an element that is refused.
-/

set_option autoImplicit false

namespace Imconee.Startup

open Lib Str Config

/-- What the start comes to has a name and can be read: the settings, the first proxy that is not
built, and, if all of them are, the first listener that is not. -/
def Harmless (cfg : Sts) : Prop :=
  ∀ listeners, cfg.get listenersName = some listeners →
    SettingsReadable cfg ∧ ∀ getipDef, settingsGetip cfg = some getipDef →
      (∀ x, First (Passed ProxyAccepted) (proxiesOf cfg) x → ¬Fatal (fun _ => True) x) ∧
        ((∀ x ∈ proxiesOf cfg, Passed ProxyAccepted x) →
          ∀ x, First (ListenerPassed cfg getipDef) listeners.elements x →
            ¬ListenerFatal cfg getipDef x)

/-- The constructor of the engine returns, with a code or without. -/
def Finishes (result : Except Fault (Engine × Loader)) : Prop := ∃ ends, result = .ok ends

variable {md5 : List UInt8 → Vector UInt8 16} {cfg : Sts}

theorem Quits.finishes {result : Except Fault (Engine × Loader)} (quits : Quits result) :
    Finishes result := by
  rcases quits with ⟨e, ldr, ends, -⟩
  exact ⟨(e, ldr), ends⟩

theorem not_finishes {result : Except Fault (Engine × Loader)}
    (faults : ∃ fault, result = .error fault) : ¬Finishes result := by
  rintro ⟨ends, returns⟩
  rcases faults with ⟨fault, rfl⟩
  cases returns

/-- Each of the steps then returns, with a code or without. -/
theorem finishes_of_harmless (harmless : Harmless cfg) : Finishes (engine md5 (some cfg)) := by
  cases found : cfg.get listenersName with
  | none => exact (quits_of_no_listeners found).finishes
  | some listeners =>
      rcases harmless listeners found with ⟨readable, behind⟩
      cases getip : settingsGetip cfg with
      | none => exact (quits_of_settings found readable getip).finishes
      | some getipDef =>
          have accepts : Accepts cfg listeners getipDef := ⟨found, readable, getip⟩
          rcases behind getipDef getip with ⟨proxies, others⟩
          rcases all_or_first (Passed ProxyAccepted) (proxiesOf cfg) with all | ⟨x, first⟩
          · rcases all_or_first (ListenerPassed cfg getipDef) listeners.elements with
              every | ⟨x, first⟩
            · rcases @opens_of_all md5 _ _ _ accepts all every with ⟨e, ldr, ends, -⟩
              exact ⟨(e, ldr), ends⟩
            · rcases @opens_of_listener md5 _ _ _ accepts all x first (others all x first) with
                  ⟨e, ldr, ends, -⟩
              exact ⟨(e, ldr), ends⟩
          · exact (quits_of_proxy accepts first (proxies x first)).finishes

/-- Otherwise one of the steps throws. -/
theorem harmless_of_finishes (finishes : Finishes (engine md5 (some cfg))) : Harmless cfg := by
  intro listeners found
  have readable : SettingsReadable cfg := by
    by_contra unreadable
    exact not_finishes (fault_of_settings found unreadable) finishes
  refine ⟨readable, ?_⟩
  intro getipDef getip
  have accepts : Accepts cfg listeners getipDef := ⟨found, readable, getip⟩
  constructor
  · intro x first fatal
    exact not_finishes (fault_of_proxy accepts first fatal) finishes
  · intro all x first fatal
    exact not_finishes (fault_of_listener accepts all first fatal) finishes

/-- Each text is read as a configuration, with which the start ends as it is to end exactly if what
it comes to is harmless. -/
theorem finishes_iff (md5 : List UInt8 → Vector UInt8 16) (memory : ℕ → UInt8) (limit : ℕ) :
    ∃ cfg, readConfig memory limit = some cfg ∧
      (Finishes (engine md5 (some cfg)) ↔ Harmless cfg) := by
  rcases @load_returns memory limit .new
    (if limit = 0 then none else some 0) (limit + 1) (by omega) with ⟨read, trace, loaded, -⟩
  exact ⟨read.1, by simp [readConfig, loaded], harmless_of_finishes, finishes_of_harmless⟩

/-- `listeners{{}}` -/
def namelessText : List UInt8 := listenersName ++ ascii ['{', '{', '}', '}']

/-- A block without a name, which the engine would skip -/
theorem not_finishes_nameless :
    ¬∀ md5 memory limit cfg, readConfig memory limit = some cfg →
      Finishes (engine md5 (some cfg)) := by
  intro finishes
  have read : readConfig (textAt namelessText 0) namelessText.length =
      some (.mk [] [(.named listenersName, .mk [] [(.none, .new)])]) := rfl
  rcases finishes (fun _ => .replicate 16 0) _ _ _ read with ⟨ends, returns⟩
  cases returns

end Imconee.Startup
