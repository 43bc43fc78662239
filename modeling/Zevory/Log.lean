import Zevory.Sys

/-!
# Logging

`log.rs`: three levels to `/dev/kmsg`, standard error when that fails, and the
console.
-/

namespace Zevory.Log

open Interaction

def NOT_OPEN_YET : Int := -1

inductive Level
  | error
  | warn
  | info
  deriving DecidableEq, Repr

def Level.priority : Level → ℕ
  | .error => 3
  | .warn => 4
  | .info => 6

def lineFor (level : Level) (msg : String) : String :=
  s!"<{level.priority}>zevinit: {msg}\n"

/-- The line that `emit` writes to standard error when the log could not take the message. -/
def stderrLine (msg : String) : String :=
  s!"zevinit: {msg}\n"

def kmsg : Pid1 Int := do
  let known ← mem .kmsgLoad
  if known ≠ NOT_OPEN_YET then return known
  else
    match ← Sys.openAppend "/dev/kmsg" with
    | .error _ => return NOT_OPEN_YET
    | .ok fd =>
        mem (.kmsgStore fd)
        return fd

def writeToKmsg (level : Level) (msg : String) : Pid1 Bool := do
  let fd ← kmsg
  if fd = NOT_OPEN_YET then return false
  else Sys.writeFd fd (asBytes (lineFor level msg))

def emit (level : Level) (msg : String) : Pid1 Unit := do
  if ← writeToKmsg level msg then return ()
  else
    let _ ← Sys.writeFd STDERR_FILENO (asBytes (stderrLine msg))

def error (msg : String) : Pid1 Unit := emit .error msg

def warn (msg : String) : Pid1 Unit := emit .warn msg

def info (msg : String) : Pid1 Unit := emit .info msg

def keepEveryMessage : Pid1 Unit := do
  let knob := "/proc/sys/kernel/printk_devkmsg"
  match ← sys (.fsWrite knob "on\n") with
  | .ok () => return ()
  | .error e =>
      warn s!"{knob} is not writable ({e}), the kernel will drop our log lines in bursts"

def toConsole (msg : String) : Pid1 Unit := do
  let _ ← Sys.writeFd STDOUT_FILENO (asBytes msg)

end Zevory.Log
