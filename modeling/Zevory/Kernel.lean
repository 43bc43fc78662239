import Zevory.Main

/-!
# The worlds pid 1 runs in

A `Kernel` answers the system calls of pid 1 over a state of its own and says
what everybody else may do to that state at any moment.  `Kernel.semantics` adds
the memory of pid 1, whose operations no one else sees, and the history of every
call it has made, newest first.  Different questions about pid 1 are put to
different kernels; all of them keep the promises of `Promised`.
-/

namespace Zevory

open Interaction

/-- A call pid 1 has made, its result, and the true time of it in nanoseconds. -/
structure Event where
  call : Call
  res : call.Res
  time : ℕ

/-- What every kernel promises about a single result, to a pid 1 that was started
with descriptors 0, 1 and 2 open. -/
def Promised : (c : Call) → c.Res → Prop
  | .sys .getpid, pid => pid = 1
  | .sys .fork, r => r.rc = -1 ∨ 1 < r.rc
  | .sys .clockGettime, now => now < 2 ^ 63
  | .sys (.write _ bytes), r => r.rc ≤ bytes.length
  | .sys (.openPath _ _), r => r.rc < 0 ∨ STDERR_FILENO < r.rc
  | _, _ => True

/-- A kernel over states `K`: what the others do to a state, how it answers each
system call, which whole seconds `monotonic_secs` may read, and the true time. -/
structure Kernel (K : Type) where
  others : K → K → Prop
  answer : K → (s : Syscall) → s.Res → K → Prop
  reads : K → ℕ → Prop
  time : K → ℕ
  promised : ∀ {k s r k'}, answer k s r k' → Promised (.sys s) r

/-- The state of the kernel, the memory of pid 1, and every call pid 1 has made, newest first. -/
structure World (K : Type) where
  kern : K
  mem : Mem
  hist : List Event

variable {K : Type}

namespace World

/-- The world after a system call with the result `r`, which leaves the kernel in the state `kern`.
-/
def called (w : World K) (t : ℕ) (s : Syscall) (r : s.Res) (kern : K) : World K :=
  ⟨kern, w.mem, ⟨.sys s, r, t⟩ :: w.hist⟩

/-- The world after an operation on the memory of pid 1, at the clock reading `now`. -/
def updated (w : World K) (t : ℕ) (o : MemOp) (now : ℕ) : World K :=
  ⟨w.kern, (o.run now w.mem).2, ⟨.mem o, (o.run now w.mem).1, t⟩ :: w.hist⟩

end World

namespace Kernel

/-- How a world answers one call of pid 1: a system call as the kernel answers it, an operation on
memory as `MemOp.run` says. -/
inductive Answers (k : Kernel K) : World K → (c : Call) → c.Res → World K → Prop
  | sys {w : World K} {s : Syscall} {r : s.Res} {kern : K} :
      k.answer w.kern s r kern → Answers k w (.sys s) r (w.called (k.time w.kern) s r kern)
  | mem {w : World K} {o : MemOp} {now : ℕ} :
      k.reads w.kern now →
      Answers k w (.mem o) (o.run now w.mem).1 (w.updated (k.time w.kern) o now)

def semantics (k : Kernel K) : Semantics calls (World K) where
  interfere w w' := ∃ kern, k.others w.kern kern ∧ w' = { w with kern }
  answer := k.Answers

variable {k : Kernel K}

theorem Answers.hist {w w' : World K} {c : Call} {r : c.Res} (h : k.Answers w c r w') :
    w'.hist = ⟨c, r, k.time w.kern⟩ :: w.hist := by
  cases h <;> rfl

theorem Answers.promised {w w' : World K} {c : Call} {r : c.Res}
    (h : k.Answers w c r w') : Promised c r := by
  cases h with
  | sys h => exact k.promised h
  | mem h => unfold Promised; trivial

/-- The others do not touch the memory of pid 1 or its history. -/
theorem stable_private {P : Mem → List Event → Prop} :
    Stable k.semantics fun w => P w.mem w.hist := by
  rintro w w' hw ⟨kern, -, rfl⟩
  exact hw

/-- When nobody else changes the kernel, the world only changes with the calls of pid 1. -/
theorem alone (nobody : ∀ kern kern', ¬ k.others kern kern') (w w' : World K) :
    ¬ k.semantics.interfere w w' := by
  rintro ⟨kern, others, -⟩
  exact nobody _ _ others

end Kernel

/-- The kernel that gives any promised result to any call, at any time of the clock. -/
def Kernel.anything : Kernel Unit where
  others _ _ := False
  answer _ s r _ := Promised (.sys s) r
  reads _ _ := True
  time _ := 0
  promised h := h

/-- The memory pid 1 starts with. `rescue` and `table` are set before their first use. -/
def Mem.boot : Mem :=
  { kmsg := Log.NOT_OPEN_YET, table := Table.new, rescue := ⟨[], 0, 0⟩, respawnAt := 0 }

def World.boot (kern : K) : World K := ⟨kern, Mem.boot, []⟩

/-- Pid 1 at the start of `main`, with the given candidates, on a kernel in the
state `kern`. -/
def boot (candidates : List Spec) (kern : K) : Config calls (World K) Unit :=
  ⟨mainWith candidates, World.boot kern⟩

end Zevory
