import Zevory.Log

/-!
# Coming up

`mount.rs` and `console.rs`: the virtual filesystems, the device nodes and the
standard descriptors.
-/

namespace Zevory

open Interaction

namespace Mount

structure Vfs where
  source : String
  target : String
  fstype : String
  flags : ℕ
  data : Option String
  deriving DecidableEq, Repr

def RO_ISH : ℕ := MS_NOSUID ||| MS_NODEV ||| MS_NOEXEC

def TMPFS : ℕ := MS_NOSUID ||| MS_NODEV

def TABLE : List Vfs :=
  [{ source := "proc", target := "/proc", fstype := "proc", flags := RO_ISH, data := none },
   { source := "sysfs", target := "/sys", fstype := "sysfs", flags := RO_ISH, data := none },
   { source := "devtmpfs", target := "/dev", fstype := "devtmpfs", flags := MS_NOSUID,
     data := some "mode=0755" },
   { source := "tmpfs", target := "/run", fstype := "tmpfs", flags := TMPFS,
     data := some "mode=0755" },
   { source := "tmpfs", target := "/tmp", fstype := "tmpfs", flags := TMPFS, data := none }]

def mountOne (v : Vfs) : Pid1 (Except IoError Unit) := do
  match ← sys (.createDirAll v.target) with
  | .error e => return .error e
  | .ok () =>
      match ← Sys.mount { source := v.source, target := v.target, fstype := v.fstype,
                          flags := v.flags, data := v.data } with
      | .ok () => return .ok ()
      | .error e =>
          if e.rawOsError = some EBUSY then return .ok () else return .error e

/-- The loop of `mount_all`: the number of entries that failed, added to
`failed`. -/
def mountEach (failed : ℕ) : List Vfs → Pid1 ℕ
  | [] => return failed
  | v :: rest => do
      match ← mountOne v with
      | .ok () => mountEach failed rest
      | .error e =>
          Log.warn s!"could not mount {v.target} as {v.fstype}: {e}"
          mountEach (failed + 1) rest

def mountAll : Pid1 ℕ := mountEach 0 TABLE

end Mount

namespace Console

structure Node where
  path : String
  mode : ℕ
  major : BitVec 32
  minor : BitVec 32
  deriving DecidableEq, Repr

def NODES : List Node :=
  [{ path := "/dev/null", mode := 0o666, major := 1, minor := 3 },
   { path := "/dev/console", mode := 0o600, major := 5, minor := 1 },
   { path := "/dev/tty", mode := 0o666, major := 5, minor := 0 }]

def ensureEach : List Node → Pid1 Unit
  | [] => return ()
  | n :: rest => do
      if ← sys (.pathExists n.path) then ensureEach rest
      else
        match ← Sys.mknodChar n.path n.mode n.major n.minor with
        | .ok () => ensureEach rest
        | .error e =>
            Log.warn s!"could not create {n.path}: {e}"
            ensureEach rest

def ensureNodes : Pid1 Unit := ensureEach NODES

def attachStdio : Pid1 (Except IoError Unit) := do
  match ← Sys.openRw "/dev/console" with
  | .error e => return .error e
  | .ok fd => Sys.dup2Stdio fd

def takeCtty : Pid1 Unit := do
  match ← Sys.takeCtty STDIN_FILENO with
  | .ok () => return ()
  | .error e => Log.warn s!"no controlling terminal ({e}), job control stays off"

end Console

end Zevory
