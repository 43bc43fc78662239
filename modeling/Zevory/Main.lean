import Zevory.Power

/-!
# Pid 1

`main.rs`.  `mainWith` is `main` over any list of candidates; `main` is
`mainWith CANDIDATES`.  The panic hook that `main` installs first makes no call
until there is a panic, and is part of the call `panic`.
-/

namespace Zevory

open Interaction Signal

def READY_MARKER : String := "bootstrap OK, shell ready"

def RESPAWN_IS_TOO_FAST : ℕ := 1

def RESPAWN_BACKOFF_SECS : ℕ := 1

def BACKOFF_CHECK_MS : Int := 100

/-- What `park` tells the console about the way out, by whether Ctrl+Alt+Del could be enabled. -/
def wayOut (enabled : Bool) : String :=
  if enabled then "press ctrl+alt+del to reboot" else "power cycle the machine"

/-- The whole text that `park` writes to the console. -/
def parkText (why : String) (enabled : Bool) : String :=
  s!"\nzevinit: {why}, so there is nothing left to do.\n" ++ wayOut enabled ++ "\n"

def pauseForever {α : Type} : Pid1 α :=
  Prog.iterate (fun () => do
    let _ ← sys .pause
    return .inl ()) ()

def park {α : Type} (why : String) : Pid1 α := do
  let enabled := (← Sys.enableCtrlAltDel).isOk
  Log.error s!"{why}, so there is nothing left to do. parked"
  Log.toConsole (parkText why enabled)
  pauseForever

/-- `rescue.shell()`, which panics where its index is out of range. -/
def rescueShell : Pid1 Spec := do
  match ← mem .rescueShell with
  | some spec => return spec
  | none => Sys.panic "index out of bounds"

/-- `rescue.failed()`, which panics where the index of its `shell` is out of range. -/
def rescueFailed : Pid1 Verdict := do
  match ← mem .failed with
  | some verdict => return verdict
  | none => Sys.panic "index out of bounds"

/-- `table.spawn(rescue.shell())`; when it fails pid 1 parks. -/
def startShell : Pid1 Unit := do
  match ← Table.spawn (← rescueShell) with
  | .ok _ => return ()
  | .error e =>
      let shell ← rescueShell
      park s!"cannot start {shell.path} ({e})"

def giveUpOrFallBack : Pid1 Unit := do
  let dying ← rescueShell
  match ← rescueFailed with
  | .keepTrying => return ()
  | .movedOn next =>
      Log.error s!"{dying.path} keeps dying, falling back to {next.path}"
  | .outOfOptions =>
      park s!"every shell we know about dies on startup, {dying.path} was the last one"

/-- What `supervise` does about the shortest life of a harvest: it lets the rescue machine know, and
after a short life it puts the next start off. -/
def account : Option ℕ → Pid1 Unit
  | none => return ()
  | some ranFor =>
      if ranFor ≥ RESPAWN_IS_TOO_FAST then mem .survived
      else do
        let now ← Sys.monotonicSecs
        let respawnAt ← Sys.addU64 now RESPAWN_BACKOFF_SECS
        mem (.setRespawnAt respawnAt)
        giveUpOrFallBack

/-- What `supervise` does about a signal that has arrived: go round again, or leave with a shutdown
action. -/
def heed (signal : Int) : Pid1 (Unit ⊕ Power.Action) :=
  match classify signal with
  | .childChanged => do
      account (← reapAll).shortestLife
      return .inl ()
  | .reload => do
      let arrivedName := Signal.name signal
      Log.info s!"{arrivedName} asked for a reload, zevinit has no configuration to reread"
      return .inl ()
  | .shutdown action => return .inr action
  | .unknown other => do
      Log.info s!"nothing is wired to signal {other}"
      return .inl ()

/-- The first statement of the loop of `supervise`: when no shell is running and the time has come,
one is started. -/
def startIfDue (idle : Bool) : Pid1 Unit := do
  if idle then
    let now ← Sys.monotonicSecs
    let respawnAt ← mem .respawnAt
    if now ≥ respawnAt then startShell

/-- One round of the loop of `supervise`. -/
def superviseRound (signals : Signals) : Pid1 (Unit ⊕ Power.Action) := do
  let running ← mem .running
  let idle := running == 0
  startIfDue idle
  let howLong := if idle then BACKOFF_CHECK_MS else UNTIL_SOMETHING_ARRIVES
  match ← signals.wait howLong with
  | .ok (some signal) => heed signal
  | .ok none => return .inl ()
  | .error e =>
      if e.isInterrupted then return .inl () else park s!"lost the signal stream ({e})"

def supervise (signals : Signals) : Pid1 Power.Action := do
  mem (.setRespawnAt 0)
  Prog.iterate (fun () => superviseRound signals) ()

def banner (failed : ℕ) : Pid1 Unit := do
  Log.toConsole "\nZevory Linux\n\n"
  if failed > 0 then
    Log.toConsole s!"  {failed} filesystem(s) did not mount, look above for which\n\n"

/-- The candidates whose path exists, in the order they are listed in. -/
def available : List Spec → Pid1 (List Spec)
  | [] => return []
  | spec :: rest => do
      let isAvailable ← sys (.pathExists spec.path)
      let usable ← available rest
      return if isAvailable then spec :: usable else usable

/-- `Rescue::new`, and park when there is no candidate. -/
def newRescue (candidates : List Spec) : Pid1 Unit := do
  match Rescue.over (← available candidates) with
  | some rescue => mem (.rescueNew rescue)
  | none => park "no shell in the initramfs"

def watchSignals : Pid1 Signals := do
  match ← install WATCHED with
  | .ok signals => return signals
  | .error e => park s!"cannot watch for signals ({e})"

def takeCtrlAltDel : Pid1 Unit := do
  match ← Sys.disableCtrlAltDel with
  | .ok () => return ()
  | .error e =>
      Log.warn s!"ctrl+alt+del stays with the kernel ({e}), it will reboot on the spot"

def openConsole : Pid1 Unit := do
  match ← Console.attachStdio with
  | .ok () => Console.takeCtty
  | .error e => Log.error s!"no console ({e}), carrying on without one"

/-- What a `zevinit` that is not pid 1 does: it says so on standard error and exits with status 1.
-/
def refuseToRun (pid : Int) : Pid1 Unit := do
  sys (.eprintln s!"zevinit: pid is {pid}, not 1, refusing to run.")
  sys (.eprintln "zevinit is the init of a Zevory system, not a command you run by hand.")
  nomatch ← sys (.processExit 1)

/-- `main` from the mounts up to the banner. -/
def bringUp : Pid1 Signals := do
  let failed ← Mount.mountAll
  Log.keepEveryMessage
  Console.ensureNodes
  openConsole
  let signals ← watchSignals
  takeCtrlAltDel
  banner failed
  return signals

/-- `main` from the first shell on, which ends with the machine handed over or parked. -/
def run (candidates : List Spec) (signals : Signals) : Pid1 Unit := do
  newRescue candidates
  mem .tableNew
  startShell
  Log.info READY_MARKER
  let action ← supervise signals
  let failure ← Power.execute action signals
  park s!"the kernel refused to {action.name} ({failure})"

def mainWith (candidates : List Spec) : Pid1 Unit := do
  let pid ← sys .getpid
  if pid ≠ 1 then refuseToRun pid
  else
    let signals ← bringUp
    run candidates signals

def main : Pid1 Unit := mainWith CANDIDATES

end Zevory
