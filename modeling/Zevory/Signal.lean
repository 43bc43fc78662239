import Zevory.BringUp

/-!
# Children and signals

The part of `proc.rs` that makes system calls, and `signal.rs`.  `signal.rs` and
`power.rs` use each other; the `Action` both speak of is here.
-/

namespace Zevory

open Interaction

/-! ## `proc.rs` -/

namespace Proc

/-- What the child of a `fork` does. It ends with an `execv` or an `_exit`, neither of which
returns. -/
def childMain {α : Type} (spec : Spec) : Pid1 α := do
  let _ ← Sys.unblockAllSignals
  if spec.wantsOwnSession then
    let _ ← Sys.newSession
    let _ ← Sys.setCtty STDIN_FILENO true
  let failure ← Sys.exec spec.path spec.argv
  Log.error s!"could not exec {spec.path}: {failure}"
  Sys.exitChild 127

def spawn (spec : Spec) : Pid1 (Except IoError Int) := do
  match ← Sys.fork with
  | .error e => return .error e
  | .ok (.parent pid) => return .ok pid
  | .ok .child => childMain spec

end Proc

/-- `Table::spawn`: the child is started, and tracked if the `fork` has succeeded. -/
def Table.spawn (spec : Spec) : Pid1 (Except IoError Int) := do
  match ← Proc.spawn spec with
  | .error e => return .error e
  | .ok pid =>
      mem (.track spec.name pid spec.wantsOwnSession)
      return .ok pid

/-! ## The `Action` of `power.rs` -/

namespace Power

inductive Action
  | reboot
  | powerOff
  | halt
  deriving DecidableEq, Repr

def Action.name : Action → String
  | .reboot => "reboot"
  | .powerOff => "poweroff"
  | .halt => "halt"

def Action.kernelCommand : Action → Int
  | .reboot => RB_AUTOBOOT
  | .powerOff => RB_POWER_OFF
  | .halt => RB_HALT_SYSTEM

end Power

/-! ## `signal.rs` -/

namespace Signal

def WATCHED : List Int :=
  [SIGCHLD, SIGTERM, SIGINT, SIGUSR1, SIGUSR2, SIGPWR, SIGHUP]

inductive Request
  | childChanged
  | shutdown (action : Power.Action)
  | reload
  | unknown (signal : Int)
  deriving DecidableEq, Repr

def classify (signal : Int) : Request :=
  if signal = SIGCHLD then .childChanged
  else if signal = SIGTERM ∨ signal = SIGINT then .shutdown .reboot
  else if signal = SIGUSR2 then .shutdown .powerOff
  else if signal = SIGUSR1 ∨ signal = SIGPWR then .shutdown .halt
  else if signal = SIGHUP then .reload
  else .unknown signal

def name (signal : Int) : String :=
  if signal = SIGCHLD then "SIGCHLD"
  else if signal = SIGTERM then "SIGTERM"
  else if signal = SIGINT then "SIGINT"
  else if signal = SIGUSR1 then "SIGUSR1"
  else if signal = SIGUSR2 then "SIGUSR2"
  else if signal = SIGPWR then "SIGPWR"
  else if signal = SIGHUP then "SIGHUP"
  else "an unwatched signal"

def UNTIL_SOMETHING_ARRIVES : Int := -1

/-- `Signals`: the signalfd the watched signals are read from. -/
structure Signals where
  fd : Int
  deriving DecidableEq, Repr

def install (signals : List Int) : Pid1 (Except IoError Signals) := do
  match ← Sys.blockSignals signals with
  | .error e => return .error e
  | .ok () => return (← Sys.signalFd signals).map Signals.mk

def Signals.wait (signals : Signals) (millis : Int) : Pid1 (Except IoError (Option Int)) := do
  match ← Sys.pollReadable signals.fd millis with
  | .error e => return .error e
  | .ok true => return (← Sys.readSignal signals.fd).map some
  | .ok false => return .ok none

structure Harvest where
  shortestLife : Option ℕ
  childrenLeft : Bool
  deriving DecidableEq, Repr

/-- The shortest life so far, as `shortest_life.map_or(ran_for, |s| s.min(ran_for))` computes it. -/
def shorter (shortestLife : Option ℕ) (ranFor : ℕ) : ℕ :=
  match shortestLife with
  | none => ranFor
  | some s => min s ranFor

/-- What `reap_all` logs about a shell that is gone. -/
def logDeparted (gone : Departed) : Pid1 Unit :=
  match gone.state with
  | .exited code => Log.info s!"{gone.name} [{gone.pid}] exited with {code} after {gone.ranFor}s"
  | .killed signal =>
      Log.warn s!"{gone.name} [{gone.pid}] killed by signal {signal} after {gone.ranFor}s"
  | .running => return ()

/-- One round of the loop of `reap_all`: it goes round again after every child, and is left when
`waitpid` hands over none. -/
def reapRound (shortestLife : Option ℕ) : Pid1 (Option ℕ ⊕ Harvest) := do
  match ← Sys.reapOne with
  | .stillRunning => return .inr ⟨shortestLife, true⟩
  | .noChildrenLeft => return .inr ⟨shortestLife, false⟩
  | .child pid status =>
      match ← mem (.recordExit pid status) with
      | none =>
          Log.info s!"reaped orphan [{pid}]"
          return .inl shortestLife
      | some gone =>
          logDeparted gone
          return .inl (some (shorter shortestLife gone.ranFor))

def reapAll : Pid1 Harvest := do
  let harvest ← Prog.iterate reapRound none
  mem .forgetFinished
  return harvest

end Signal

end Zevory
