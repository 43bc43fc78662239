import Zevory.Calls

/-!
# The wrappers around the system calls

`sys.rs`, function by function.  `sys::exit_code` and
`sys::termination_signal` are with the table that uses them.
-/

namespace Zevory.Sys

open Interaction

/-- `CString::new`: a path with a NUL byte in it is refused before any call. -/
def cstr (s : String) : Except IoError String :=
  if s.toList.contains '\x00' then .error (.invalidInput "nul byte in string") else .ok s

def lastOsError (r : Ret) : IoError := .os r.errno

def check (r : Ret) : Except IoError Unit :=
  if r.rc = 0 then .ok () else .error (lastOsError r)

/-- The other test of the source, of calls that return a descriptor: a negative result is a failure.
-/
def checkFd (r : Ret) : Except IoError Int :=
  if r.rc < 0 then .error (lastOsError r) else .ok r.rc

def makedev (major minor : BitVec 32) : BitVec 64 :=
  let major := major.zeroExtend 64
  let minor := minor.zeroExtend 64
  ((major &&& 0xfffff000#64) <<< 32)
    ||| ((major &&& 0x00000fff#64) <<< 8)
    ||| ((minor &&& 0xffffff00#64) <<< 12)
    ||| (minor &&& 0x000000ff#64)

/-- The strings of a `MountOpts`, each of which has to get through `cstr` before the call. -/
def mountStrings (o : MountOpts) : Except IoError MountOpts := do
  let source ← cstr o.source
  let target ← cstr o.target
  let fstype ← cstr o.fstype
  let data ← match o.data with
    | none => .ok none
    | some d => some <$> cstr d
  return { o with source, target, fstype, data }

def mount (o : MountOpts) : Pid1 (Except IoError Unit) := do
  match mountStrings o with
  | .error e => return .error e
  | .ok o => return check (← sys (.mount o))

def mknodChar (path : String) (mode : ℕ) (major minor : BitVec 32) :
    Pid1 (Except IoError Unit) := do
  match cstr path with
  | .error e => return .error e
  | .ok p => return check (← sys (.mknod p (S_IFCHR ||| mode) (makedev major minor)))

def openAppend (path : String) : Pid1 (Except IoError Int) := do
  match cstr path with
  | .error e => return .error e
  | .ok p =>
      return checkFd (← sys (.openPath p (O_WRONLY ||| O_APPEND ||| O_CLOEXEC ||| O_NOCTTY)))

def openRw (path : String) : Pid1 (Except IoError Int) := do
  match cstr path with
  | .error e => return .error e
  | .ok p => return checkFd (← sys (.openPath p (O_RDWR ||| O_NOCTTY)))

/-- The loop of `dup2_stdio` over its targets. At the first `dup2` that fails it returns at once,
before the descriptor it was given is closed. -/
def dup2Over (fd : Int) : List Int → Pid1 (Except IoError Unit)
  | [] => return .ok ()
  | target :: targets => do
      let r ← sys (.dup2 fd target)
      if r.rc < 0 then return .error (lastOsError r) else dup2Over fd targets

def dup2Stdio (fd : Int) : Pid1 (Except IoError Unit) := do
  match ← dup2Over fd [STDIN_FILENO, STDOUT_FILENO, STDERR_FILENO] with
  | .error e => return .error e
  | .ok () =>
      if fd > STDERR_FILENO then
        let _ ← sys (.close fd)
      return .ok ()

def newSession : Pid1 (Except IoError Unit) := do
  return (checkFd (← sys .setsid)).map fun _ => ()

def setCtty (fd : Int) (steal : Bool) : Pid1 (Except IoError Unit) := do
  return check (← sys (.setCtty fd (if steal then 1 else 0)))

def takeCtty (fd : Int) : Pid1 (Except IoError Unit) := do
  let _alreadyASessionLeader ← newSession
  setCtty fd false

def disableCtrlAltDel : Pid1 (Except IoError Unit) := do
  return check (← sys (.reboot RB_DISABLE_CAD))

def enableCtrlAltDel : Pid1 (Except IoError Unit) := do
  return check (← sys (.reboot RB_ENABLE_CAD))

def pollReadable (fd millis : Int) : Pid1 (Except IoError Bool) := do
  let r ← sys (.poll fd millis)
  if r.rc = -1 then return .error (lastOsError r)
  else if r.rc = 0 then return .ok false
  else return .ok true

def signalGroup (leader signal : Int) : Pid1 Unit := do
  let _ ← sys (.kill (-leader) signal)

def signalEveryone (signal : Int) : Pid1 Unit := do
  let _ ← sys (.kill (-1) signal)

def flushFilesystems : Pid1 Unit := do
  let _ ← sys .sync

def handOverToKernel (command : Int) : Pid1 IoError := do
  return lastOsError (← sys (.reboot command))

/-- The arguments of `exec`, each of which has to get through `cstr` before the call. -/
def cstrs : List String → Except IoError (List String)
  | [] => .ok []
  | a :: rest => do return (← cstr a) :: (← cstrs rest)

def exec (path : String) (args : List String) : Pid1 IoError := do
  match cstr path with
  | .error _ => return .invalidInput "nul byte in path"
  | .ok cpath =>
      match cstrs args with
      | .error e => return e
      | .ok argv => return lastOsError (← sys (.execv cpath argv))

inductive Fork
  | parent (pid : Int)
  | child
  deriving DecidableEq, Repr

def fork : Pid1 (Except IoError Fork) := do
  let r ← sys .fork
  if r.rc = -1 then return .error (lastOsError r)
  else if r.rc = 0 then return .ok .child
  else return .ok (.parent r.rc)

def exitChild {α : Type} (code : Int) : Pid1 α := do
  nomatch ← sys (.exitChild code)

inductive Reaped
  | child (pid : Int) (status : Status)
  | stillRunning
  | noChildrenLeft
  deriving DecidableEq, Repr

/-- How `reap_one` reads the result of `waitpid`: a pid is a child, -1 with `ECHILD` means no
children, and everything else that some still run. -/
def reapedOf (r : Ret × Status) : Reaped :=
  if r.1.rc > 0 then .child r.1.rc r.2
  else if r.1.rc = 0 ∨ r.1.errno.code ≠ ECHILD then .stillRunning
  else .noChildrenLeft

def reapOne : Pid1 Reaped := do
  return reapedOf (← sys .waitpid)

def blockSignals (signals : List Int) : Pid1 (Except IoError Unit) := do
  return check (← sys (.sigprocmask .block (some signals)))

/-- `unblock_all_signals` with its `sigfillset`; that no list of signals is given stands for all of
them. -/
def unblockAllSignals : Pid1 (Except IoError Unit) := do
  return check (← sys (.sigprocmask .unblock none))

def signalFd (signals : List Int) : Pid1 (Except IoError Int) := do
  return checkFd (← sys (.signalfd (-1) signals SFD_CLOEXEC))

/-- `size_of::<signalfd_siginfo>()`, the bytes of one record of a signalfd. -/
def SIGINFO_SIZE : Int := 128

def readSignal (fd : Int) : Pid1 (Except IoError Int) := do
  let (n, signo) ← sys (.read fd)
  if n.rc < 0 then return .error (lastOsError n)
  else if n.rc ≠ SIGINFO_SIZE then return .error (.unexpectedEof "short read from signalfd")
  else return .ok signo

def monotonicSecs : Pid1 ℕ := sys .clockGettime

def panic {α : Type} (what : String) : Pid1 α := do
  nomatch ← sys (.panic what)

/-- `u64` addition, which wraps in the release build that is shipped. -/
def addU64 (a b : ℕ) : Pid1 ℕ := return (a + b) % 2 ^ 64

/-- One round of `write_fd` when `done` bytes are written. The source slices `bytes[done..]`, which
panics if `done` is past the end. -/
def writeRound (fd : Int) (bytes : List UInt8) (done : ℕ) : Pid1 (ℕ ⊕ Bool) := do
  if done < bytes.length then
    if done ≤ bytes.length then
      let n ← sys (.write fd (bytes.drop done))
      if n.rc ≤ 0 then return .inr false else return .inl (done + n.rc.toNat)
    else panic "range start index out of range"
  else return .inr true

def writeFd (fd : Int) (bytes : List UInt8) : Pid1 Bool :=
  Prog.iterate (writeRound fd bytes) 0

end Zevory.Sys
