import Mathlib.Algebra.Group.Nat.Defs
import Mathlib.Data.Finset.Basic
import Mathlib.Data.List.Basic
import Mathlib.Data.List.Chain
import Mathlib.Data.List.Infix
import Mathlib.Data.List.Nodup

/-!
# What the C library fixes

The numbers of `libc` for x86_64 Linux under musl that `zevinit` uses, the shape
of a raw result, and the decoding of an exit status.
-/

namespace Zevory

/-! ## Numbers -/

def SIGHUP : Int := 1
def SIGINT : Int := 2
def SIGKILL : Int := 9
def SIGUSR1 : Int := 10
def SIGUSR2 : Int := 12
def SIGTERM : Int := 15
def SIGCHLD : Int := 17
def SIGCONT : Int := 18
def SIGPWR : Int := 30

/-- The `reboot(2)` commands, as the signed integers `libc` passes. -/
def RB_AUTOBOOT : Int := 0x01234567
def RB_HALT_SYSTEM : Int := 0xcdef0123 - 0x100000000
def RB_POWER_OFF : Int := 0x4321fedc
def RB_ENABLE_CAD : Int := 0x89abcdef - 0x100000000
def RB_DISABLE_CAD : Int := 0

def EINTR : ℕ := 4
def ECHILD : ℕ := 10
def EBUSY : ℕ := 16

def MS_NOSUID : ℕ := 2
def MS_NODEV : ℕ := 4
def MS_NOEXEC : ℕ := 8

def O_WRONLY : ℕ := 0o1
def O_RDWR : ℕ := 0o2
def O_NOCTTY : ℕ := 0o400
def O_APPEND : ℕ := 0o2000
def O_CLOEXEC : ℕ := 0o2000000
def SFD_CLOEXEC : ℕ := 0o2000000

def S_IFCHR : ℕ := 0o20000

def STDIN_FILENO : Int := 0
def STDOUT_FILENO : Int := 1
def STDERR_FILENO : Int := 2

/-! ## Raw results -/

/-- A value of `errno`, with the text that `strerror` has for it. -/
structure Errno where
  code : ℕ
  text : String
  deriving DecidableEq, Repr

/-- The return value of a C call, and `errno` as it is right after it. -/
structure Ret where
  rc : Int
  errno : Errno
  deriving DecidableEq, Repr

/-- `std::io::Error`, as far as `zevinit` builds and reads it. -/
inductive IoError
  | os (e : Errno)
  | invalidInput (msg : String)
  | unexpectedEof (msg : String)
  deriving DecidableEq, Repr

namespace IoError

/-- The error number of `io::Error::raw_os_error`, if the error comes from the system. -/
def rawOsError : IoError → Option ℕ
  | os e => some e.code
  | _ => none

/-- The test `e.kind() == ErrorKind::Interrupted`. -/
def isInterrupted (e : IoError) : Bool :=
  e.rawOsError == some EINTR

/-- `Display` for `io::Error`, which the messages of the log are built with. -/
instance : ToString IoError where
  toString
    | os e => s!"{e.text} (os error {e.code})"
    | invalidInput msg => msg
    | unexpectedEof msg => msg

end IoError

/-! ## Exit statuses -/

/-- The `int` that `waitpid` fills in for the child it hands over. -/
abbrev Status := BitVec 32

namespace Status

def WIFEXITED (status : Status) : Bool :=
  status &&& 0x7f#32 == 0#32

def WEXITSTATUS (status : Status) : Int :=
  ((status >>> 8) &&& 0xff#32).toInt

/-- The macro of `libc`: `((status & 0x7f) + 1) as i8 >= 2`. -/
def WIFSIGNALED (status : Status) : Bool :=
  2 ≤ (((status &&& 0x7f#32) + 1#32).truncate 8).toInt

def WTERMSIG (status : Status) : Int :=
  (status &&& 0x7f#32).toInt

end Status

/-- The bytes of a string in UTF-8, as `str::as_bytes` gives them. -/
def asBytes (s : String) : List UInt8 :=
  s.toUTF8.data.toList

theorem asBytes_append (a b : String) : asBytes (a ++ b) = asBytes a ++ asBytes b := by
  simp [asBytes, String.toUTF8]

end Zevory
