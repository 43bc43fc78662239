import Zevory.Interaction.Triple
import Zevory.Rescue

/-!
# What pid 1 does, one call at a time

`Syscall` is every system call (and every call into the Rust runtime that stands for
some) that `zevinit` makes, with the raw result the source looks at.  `MemOp` is
every operation on the memory pid 1 keeps between calls: the cached `/dev/kmsg`
descriptor, the process table, the rescue machine and `respawn_at`.  A program
of pid 1 (`Pid1`) is a program over both.

The operations of `Table` read the clock inside (`sys::monotonic_secs`); that
reading is part of the operation, since nothing else happens between it and the
change of the table.
-/

namespace Zevory

open Interaction

/-- `sys::MountOpts`: the arguments of a `mount`. -/
structure MountOpts where
  source : String
  target : String
  fstype : String
  flags : ℕ
  data : Option String
  deriving DecidableEq, Repr

/-- The first argument of `sigprocmask`: the signals are added to the mask, or taken out of it. -/
inductive MaskHow
  | block
  | unblock
  deriving DecidableEq, Repr

inductive Syscall
  | getpid
  | mount (o : MountOpts)
  | mknod (path : String) (mode : ℕ) (dev : BitVec 64)
  | openPath (path : String) (flags : ℕ)
  | dup2 (fd target : Int)
  | close (fd : Int)
  | setsid
  | setCtty (fd arg : Int)
  | pause
  | reboot (command : Int)
  | poll (fd millis : Int)
  | kill (pid signal : Int)
  | sync
  | execv (path : String) (argv : List String)
  | fork
  | exitChild (code : Int)
  | waitpid
  | sigprocmask (how : MaskHow) (signals : Option (List Int))
  | signalfd (fd : Int) (signals : List Int) (flags : ℕ)
  | read (fd : Int)
  | clockGettime
  | write (fd : Int) (bytes : List UInt8)
  | createDirAll (path : String)
  | fsWrite (path text : String)
  | pathExists (path : String)
  | eprintln (text : String)
  | processExit (code : Int)
  | panic (what : String)
  deriving DecidableEq, Repr

/-- The result of each call.  `waitpid` also fills in a status, `read` on a
signalfd the number of the signal, and the calls that do not return have none.
`panic` is the Rust panic: it is logged by the hook, and the process aborts. -/
abbrev Syscall.Res : Syscall → Type
  | .getpid => Int
  | .waitpid => Ret × Status
  | .read _ => Ret × Int
  | .clockGettime => ℕ
  | .createDirAll _ => Except IoError Unit
  | .fsWrite _ _ => Except IoError Unit
  | .pathExists _ => Bool
  | .eprintln _ => Unit
  | .exitChild _ => Empty
  | .processExit _ => Empty
  | .panic _ => Empty
  | _ => Ret

/-- The memory of pid 1: the cached descriptor of `/dev/kmsg`, the rescue machine, the table and the
time of the next start. -/
structure Mem where
  kmsg : Int
  table : Table
  rescue : Rescue
  respawnAt : ℕ
  deriving DecidableEq, Repr

inductive MemOp
  | kmsgLoad
  | kmsgStore (fd : Int)
  | tableNew
  | track (name : String) (pid : Int) (ownsSession : Bool)
  | sessionLeaders
  | running
  | recordExit (pid : Int) (status : Status)
  | forgetFinished
  | rescueNew (r : Rescue)
  | rescueShell
  | survived
  | failed
  | respawnAt
  | setRespawnAt (at_ : ℕ)
  deriving DecidableEq, Repr

abbrev MemOp.Res : MemOp → Type
  | .kmsgLoad => Int
  | .sessionLeaders => List Int
  | .running => ℕ
  | .recordExit _ _ => Option Departed
  | .rescueShell => Option Spec
  | .failed => Option Verdict
  | .respawnAt => ℕ
  | _ => Unit

/-- What an operation on the memory returns and leaves behind, when the clock reads `now`. -/
def MemOp.run (now : ℕ) (m : Mem) : (o : MemOp) → o.Res × Mem
  | .kmsgLoad => (m.kmsg, m)
  | .kmsgStore fd => ((), { m with kmsg := fd })
  | .tableNew => ((), { m with table := Table.new })
  | .track name pid owns => ((), { m with table := m.table.track name pid owns now })
  | .sessionLeaders => (m.table.sessionLeaders, m)
  | .running => (m.table.running, m)
  | .recordExit pid status =>
      let (gone, table) := m.table.recordExit pid status now
      (gone, { m with table })
  | .forgetFinished => ((), { m with table := m.table.forgetFinished })
  | .rescueNew r => ((), { m with rescue := r })
  | .rescueShell => (m.rescue.shell, m)
  | .survived => ((), { m with rescue := m.rescue.survived })
  | .failed =>
      let (verdict, rescue) := m.rescue.failed
      (verdict, { m with rescue })
  | .respawnAt => (m.respawnAt, m)
  | .setRespawnAt v => ((), { m with respawnAt := v })

inductive Call
  | sys (s : Syscall)
  | mem (o : MemOp)
  deriving DecidableEq, Repr

abbrev Call.Res : Call → Type
  | .sys s => s.Res
  | .mem o => o.Res

/-- The calls of pid 1: system calls, and operations on its own memory. -/
abbrev calls : Signature := ⟨Call, Call.Res⟩

/-- A program of pid 1, or of a child before its `execv`. -/
abbrev Pid1 := Prog calls

def sys (s : Syscall) : Pid1 s.Res := Prog.perform (S := calls) (.sys s)

def mem (o : MemOp) : Pid1 o.Res := Prog.perform (S := calls) (.mem o)

end Zevory
