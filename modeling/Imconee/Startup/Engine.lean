import Imconee.Config.Reader
import Imconee.Startup.Build

/-!
# `engine::engine`

The start of the program: the configuration is read, the proxies are built and then the listeners,
and at last the listeners are opened. Behind the proxies the code of the loader is tested, behind
the listeners that of the engine itself.
-/

set_option autoImplicit false

namespace Imconee.Startup

open Config

/-- `engine`, with its stop flag and the listeners that have been opened -/
structure Engine where
  listners : List Listener := []
  prox : List Proxy := []
  exit : Bool := false
  exitCode : ExitCode := .ok
  opened : List Listener := []

namespace Engine

/-- The engine is not to run. -/
def quit (e : Engine) (exitCode : ExitCode) : Engine := { e with exitCode, exit := true }

/-- All listeners are opened. -/
def openAll (e : Engine) : Engine := { e with opened := e.listners }

end Engine

section Md5

variable (md5 : List UInt8 → Vector UInt8 16)

/-- What `iterate_p` calls for a proxy -/
def addProxy (s : Engine × Loader) (name : List UInt8) (lb : Sts) :
    Except Fault ((Engine × Loader) × Bool) :=
  let (e, ldr) := s
  if name = [] then .ok ((e, ldr), true)
  else
    match Proxy.build md5 ldr name lb with
    | (none, ldr) => .ok ((e, ldr), false)
    | (some p, ldr) => .ok (({ e with prox := e.prox ++ [p] }, ldr), true)

/-- What `iterate_l` calls for a listener -/
def addListener (s : Engine × Loader) (name : List UInt8) (lb : Sts) :
    Except Fault ((Engine × Loader) × Bool) :=
  let (e, ldr) := s
  if name = [] then .ok ((e, ldr), true)
  else do
    match ← Listener.build md5 e.prox ldr name lb with
    | (none, ldr) => return ((e, ldr), false)
    | (some ls, ldr) => return (({ e with listners := e.listners ++ [ls] }, ldr), true)

/-- The end of the constructor, behind the listeners -/
def openListeners (s : Engine × Loader) : Engine × Loader :=
  let (e, ldr) := s
  if e.exitCode ≠ .ok then (e.quit ldr.exitCode, ldr)
  else if e.listners = [] then (e.quit .noListeners, ldr)
  else (e.openAll, ldr)

/-- The constructor: the engine, and the loader as it leaves it -/
def engine (cfg : Option Sts) : Except Fault (Engine × Loader) := do
  let (ldr, loaded) ← Loader.loadConf cfg
  if !loaded then return (Engine.quit {} ldr.exitCode, ldr)
  else
    let ((e, ldr), _) ← ldr.iterateP (addProxy md5) ({}, ldr)
    if ldr.exitCode ≠ .ok then return (e.quit ldr.exitCode, ldr)
    else
      let (s, _) ← ldr.iterateL (addListener md5) (e, ldr)
      return openListeners s

end Md5

/-- What `load_conf` makes of a file of `limit` bytes; the data of an empty one is null. -/
def readConfig (memory : ℕ → UInt8) (limit : ℕ) : Option Sts :=
  (Config.load limit (limit + 1) .new (if limit = 0 then none else some 0) memory).map
    fun read => read.1.1

end Imconee.Startup
