import Mathlib.Data.Finset.Basic
import Zevory.Refinement
import Zevory.Script

/-!
# The kernel of processes and signals

What the kernel keeps for `fork`, `waitpid` and the signalfd of pid 1: the
process behind every pid, the watched signals that are pending, and a record of
what `waitpid` has handed over.  Everybody else may at any moment start and end
processes of their own, orphan one to pid 1, dead or alive, let a child of pid 1
die, and raise a watched signal.  The clock is not part of it: any reading is
possible at any time.
-/

namespace Zevory

open Interaction Signal

/-- What a pid stands for: nothing, a process that is not a child of pid 1, or a child. Children
that are `started` came from a `fork` of pid 1, the others were reparented to it. -/
inductive Process
  | none
  | stranger (zombie : Bool)
  | child (started zombie : Bool)
  deriving DecidableEq, Repr

structure Processes where
  proc : Int → Process
  pending : Finset Int
  /-- What `waitpid` has handed over, newest first: the pid, and whether pid 1
  had started that process. -/
  reaped : List (Int × Bool)

namespace Processes

/-- The processes at the start: only pid 1, and no signal pending. -/
def boot : Processes :=
  { proc := fun _ => .none, pending := ∅, reaped := [] }

/-- The pid is that of an unreaped child that pid 1 has started. -/
def Started (m : Processes) (pid : Int) : Prop := ∃ zombie, m.proc pid = .child true zombie

/-- Some unreaped child of pid 1 is a zombie. -/
def HasZombie (m : Processes) : Prop := ∃ pid started, m.proc pid = .child started true

/-- Pid 1 has some unreaped child, dead or alive. -/
def HasChild (m : Processes) : Prop := ∃ pid started zombie, m.proc pid = .child started zombie

/-- The signals pending after a child of pid 1 has died or a zombie was reparented: SIGCHLD is one
bit, so that several deaths leave one signal. -/
def tell (m : Processes) (zombie : Bool) : Finset Int :=
  if zombie then insert SIGCHLD m.pending else m.pending

def set (m : Processes) (pid : Int) (p : Process) : Processes :=
  { m with proc := Function.update m.proc pid p }

/-- What all other processes may do between two calls of pid 1. -/
inductive Others (m : Processes) : Processes → Prop
  | born {pid : Int} : 1 < pid → m.proc pid = .none → Others m (m.set pid (.stranger false))
  | strangerDied {pid : Int} :
      m.proc pid = .stranger false → Others m (m.set pid (.stranger true))
  | strangerReaped {pid : Int} : m.proc pid = .stranger true → Others m (m.set pid .none)
  | orphaned {pid : Int} {zombie : Bool} :
      m.proc pid = .stranger zombie →
      Others m { m.set pid (.child false zombie) with pending := m.tell zombie }
  | died {pid : Int} {started : Bool} :
      m.proc pid = .child started false →
      Others m { m.set pid (.child started true) with pending := m.tell true }
  | raised {signal : Int} :
      signal ∈ WATCHED → Others m { m with pending := insert signal m.pending }

/-- The calls that concern neither children nor signals. -/
def plain : Syscall → Bool
  | .fork => false
  | .waitpid => false
  | .read _ => false
  | .poll _ _ => false
  | _ => true

/-- How the kernel answers.  A `fork` hands out a pid nobody has; a `waitpid` hands
over some zombie, says 0 when there are only live children, and `ECHILD` when there
are none; a poll times out only if it has a timeout, and finds something to read only
if something is pending; a read of the signalfd takes the lowest pending signal and
clears that bit only. -/
inductive Answer (m : Processes) : (s : Syscall) → s.Res → Processes → Prop
  | noFork {e : Errno} : Answer m .fork ⟨-1, e⟩ m
  | fork {pid : Int} {e : Errno} :
      1 < pid → m.proc pid = .none → Answer m .fork ⟨pid, e⟩ (m.set pid (.child true false))
  | reaped {pid : Int} {started : Bool} {e : Errno} {status : Status} :
      m.proc pid = .child started true →
      Answer m .waitpid (⟨pid, e⟩, status)
        { m.set pid .none with reaped := (pid, started) :: m.reaped }
  | noZombie {e : Errno} {status : Status} :
      ¬ m.HasZombie → m.HasChild → Answer m .waitpid (⟨0, e⟩, status) m
  | noChild {text : String} {status : Status} :
      ¬ m.HasChild → Answer m .waitpid (⟨-1, ⟨ECHILD, text⟩⟩, status) m
  | poll {fd millis : Int} {r : Ret} :
      (r.rc = 0 → 0 ≤ millis) → (0 < r.rc → m.pending.Nonempty) → Answer m (.poll fd millis) r m
  | read {fd signal : Int} {e : Errno} :
      signal ∈ m.pending → (∀ other ∈ m.pending, signal ≤ other) →
      Answer m (.read fd) (⟨Sys.SIGINFO_SIZE, e⟩, signal)
        { m with pending := m.pending.erase signal }
  | noRead {fd : Int} {r : Ret} {signal : Int} :
      r.rc ≠ Sys.SIGINFO_SIZE → Answer m (.read fd) (r, signal) m
  | plain {s : Syscall} {r : s.Res} :
      plain s → Promised (.sys s) r → Answer m s r m

theorem Answer.promised {m m' : Processes} {s : Syscall} {r : s.Res} (h : Answer m s r m') :
    Promised (.sys s) r := by
  cases h with
  | noFork => exact .inl rfl
  | fork fresh => exact .inr fresh
  | plain _ promised => exact promised
  | _ => exact trivial

/-- The kernel of processes and pending signals. -/
def kernel : Kernel Processes where
  others := Others
  answer := Answer
  reads _ _ := True
  time _ := 0
  promised := Answer.promised

/-! ## What a call leaves alone -/

@[simp] theorem set_proc_same (m : Processes) (pid : Int) (p : Process) :
    (m.set pid p).proc pid = p := by
  simp [set]

theorem set_proc_other {m : Processes} {pid other : Int} {p : Process} (ne : other ≠ pid) :
    (m.set pid p).proc other = m.proc other := by
  simp [set, ne]

/-- When a pid is given something else, whether pid 1 has started the processes of the other pids
stays as it is. -/
theorem started_set {m : Processes} {pid other : Int} {p : Process}
    (same : (∃ zombie, p = .child true zombie) ↔ m.Started pid) :
    (m.set pid p).Started other ↔ m.Started other := by
  by_cases at_ : other = pid
  · subst at_
    simp only [Started, set_proc_same]
    exact same
  · simp only [Started, set_proc_other at_]

theorem Others.started {m m' : Processes} (h : Others m m') (pid : Int) :
    m'.Started pid ↔ m.Started pid := by
  cases h with
  | born _ free => exact started_set (by simp [Started, free])
  | strangerDied was => exact started_set (by simp [Started, was])
  | strangerReaped was => exact started_set (by simp [Started, was])
  | @orphaned other zombie was => exact started_set (by simp [Started, was])
  | @died other started was => exact started_set (by simp [Started, was])
  | raised => exact .rfl

theorem Others.reaped {m m' : Processes} (h : Others m m') : m'.reaped = m.reaped := by
  cases h <;> rfl

/-- A call that is neither `fork` nor `waitpid` leaves all processes as they are. -/
theorem Answer.proc {m m' : Processes} {s : Syscall} {r : s.Res} (h : Answer m s r m')
    (notFork : s ≠ .fork) (notWaitpid : s ≠ .waitpid) :
    m'.proc = m.proc ∧ m'.reaped = m.reaped := by
  cases h with
  | noFork => exact absurd rfl notFork
  | fork => exact absurd rfl notFork
  | reaped => exact absurd rfl notWaitpid
  | noZombie => exact absurd rfl notWaitpid
  | noChild => exact absurd rfl notWaitpid
  | poll => exact ⟨rfl, rfl⟩
  | read => exact ⟨rfl, rfl⟩
  | noRead => exact ⟨rfl, rfl⟩
  | plain => exact ⟨rfl, rfl⟩

/-! ## A run -/

/-- The script in which the first shell has pid 100 and dies when pid 1 first waits. -/
def shortLife : Script kernel where
  before w c :=
    if c = .sys (.poll 4 UNTIL_SOMETHING_ARRIVES) ∧ w.kern.proc 100 = .child true false then
      { w.kern.set 100 (.child true true) with pending := w.kern.tell true }
    else w.kern
  answer w
    | .fork => if w.kern.proc 100 = .none then
        some (⟨100, ⟨0, ""⟩⟩, w.kern.set 100 (.child true false)) else none
    | .waitpid => if w.kern.proc 100 = .child true true then
        some ((⟨100, ⟨0, ""⟩⟩, 0),
          { w.kern.set 100 .none with reaped := (100, true) :: w.kern.reaped }) else none
    | .poll _ _ => if w.kern.pending = {SIGCHLD} then some (⟨1, ⟨0, ""⟩⟩, w.kern) else none
    | .read _ => if w.kern.pending = {SIGCHLD} then
        some ((⟨Sys.SIGINFO_SIZE, ⟨0, ""⟩⟩, SIGCHLD),
          { w.kern with pending := w.kern.pending.erase SIGCHLD }) else none
    | s => s.smooth.map fun r => (r, w.kern)
  clock _ := 0
  others w c := by
    split
    · rename_i h
      exact .single (.died h.2)
    · exact .refl
  answers {w s r kern} h := by
    cases s with
    | fork =>
        obtain ⟨free, rfl, rfl⟩ := by simpa using h
        exact .fork (by decide) free
    | waitpid =>
        obtain ⟨dead, rfl, rfl⟩ := by simpa using h
        exact .reaped dead
    | poll =>
        obtain ⟨told, rfl, rfl⟩ := by simpa using h
        exact .poll nofun fun _ => told ▸ Finset.singleton_nonempty _
    | read =>
        obtain ⟨told, rfl, rfl⟩ := by simpa using h
        refine .read (told ▸ Finset.mem_singleton_self _) fun other pending => ?_
        rw [told, Finset.mem_singleton] at pending
        exact pending ▸ Int.le_refl _
    | _ =>
        obtain ⟨r', smooth, same⟩ := Option.map_eq_some_iff.mp h
        cases same
        first
          | cases smooth; done
          | exact .plain rfl (Syscall.smooth_promised smooth)
  reads _ := trivial

end Processes

end Zevory
