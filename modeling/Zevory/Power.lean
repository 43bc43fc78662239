import Zevory.Signal

/-!
# Going down

The rest of `power.rs`.
-/

namespace Zevory.Power

open Interaction Signal

def GRACE_SECS : ℕ := 5

def AFTER_KILL_SECS : ℕ := 2

def CHECK_EVERY_MS : Int := 100

/-- One round of the loop of `wait_for_silence`: reap, look at the clock, wait. -/
def silenceRound (signals : Signals) (deadline : ℕ) : Pid1 (Unit ⊕ Bool) := do
  if !(← reapAll).childrenLeft then return .inr true
  else if (← Sys.monotonicSecs) ≥ deadline then return .inr false
  else
    match ← signals.wait CHECK_EVERY_MS with
    | .ok (some arrived) =>
        if classify arrived ≠ .childChanged then
          let arrivedName := Signal.name arrived
          Log.info s!"{arrivedName} arrived while shutting down, already on it"
        return .inl ()
    | _ => return .inl ()

def waitForSilence (signals : Signals) (secs : ℕ) : Pid1 Bool := do
  let now ← Sys.monotonicSecs
  let deadline ← Sys.addU64 now secs
  Prog.iterate (fun () => silenceRound signals deadline) ()

/-- The loop of `stop_everything` that sends SIGHUP to the group of every session leader. -/
def hangUp : List Int → Pid1 Unit
  | [] => return ()
  | leader :: rest => do
      Sys.signalGroup leader SIGHUP
      hangUp rest

def stopEverything (signals : Signals) : Pid1 Unit := do
  if !(← reapAll).childrenLeft then return ()
  else
    Log.toConsole "stopping everything\n"
    hangUp (← mem .sessionLeaders)
    Sys.signalEveryone SIGTERM
    Sys.signalEveryone SIGCONT
    if ← waitForSilence signals GRACE_SECS then return ()
    else
      Log.warn s!"still busy after {GRACE_SECS}s, sending SIGKILL"
      Log.toConsole s!"something ignored the first {GRACE_SECS}s, killing it\n"
      Sys.signalEveryone SIGKILL
      if ← waitForSilence signals AFTER_KILL_SECS then return ()
      else Log.error "something outlived SIGKILL, going down regardless"

def execute (action : Action) (signals : Signals) : Pid1 IoError := do
  Log.toConsole s!"\nzevory is going down for {action.name}\n"
  Log.info s!"{action.name} requested"
  stopEverything signals
  Sys.flushFilesystems
  Log.info s!"asking the kernel to {action.name}"
  Sys.handOverToKernel action.kernelCommand

end Zevory.Power
