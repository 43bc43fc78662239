import Mathlib.Data.Finset.Max
import Zevory.Processes

/-!
# A small cast

A kernel of processes that can be computed: pid 1, one shell at a time with pid 100, and one
orphan with pid 200.  A `Deed` is what somebody else does before a call; given one for every
call, the rest of a run is settled (`play`).
-/

namespace Zevory

open Interaction Signal

namespace Processes

/-- There are no processes but a shell with pid 100 and an orphan with pid 200. -/
structure Few (m : Processes) : Prop where
  others : ∀ pid, pid ≠ 100 → pid ≠ 200 → m.proc pid = .none
  shell : m.proc 100 = .none ∨ ∃ zombie, m.proc 100 = .child true zombie
  orphan : m.proc 200 = .none ∨ m.proc 200 = .child false true

theorem few_boot : Few boot :=
  ⟨fun _ _ _ => rfl, .inl rfl, .inl rfl⟩

variable {m : Processes}

theorem Few.set_shell (few : Few m) {x : Process}
    (fits : x = .none ∨ ∃ zombie, x = .child true zombie) :
    Few (m.set 100 x) := by
  refine ⟨fun pid other orphan => ?_, ?_, ?_⟩
  · rw [set_proc_other other, few.others pid other orphan]
  · rw [set_proc_same]
    exact fits
  · rw [set_proc_other (by decide)]
    exact few.orphan

theorem Few.set_orphan (few : Few m) {x : Process} (fits : x = .none ∨ x = .child false true) :
    Few (m.set 200 x) := by
  refine ⟨fun pid other orphan => ?_, ?_, ?_⟩
  · rw [set_proc_other orphan, few.others pid other orphan]
  · rw [set_proc_other (by decide)]
    exact few.shell
  · rw [set_proc_same]
    exact fits

/-- Which signals are pending makes no difference to this. -/
theorem Few.pending (few : Few m) (pending : Finset Int) : Few { m with pending } :=
  ⟨few.others, few.shell, few.orphan⟩

theorem Few.reaped (few : Few m) (reaped : List (Int × Bool)) : Few { m with reaped } :=
  ⟨few.others, few.shell, few.orphan⟩

/-- What the others do before a call of pid 1: nothing, the death of the shell or of the orphan, or
a signal for pid 1. -/
inductive Deed
  | nothing
  | shellDies
  | orphanDies
  | raises (signal : Int)
  deriving DecidableEq

/-- The kernel after such a deed, which is left out if it is impossible. -/
def Deed.done (m : Processes) : Deed → Processes
  | .nothing => m
  | .shellDies =>
      if m.proc 100 = .child true false then
        { m.set 100 (.child true true) with pending := m.tell true }
      else m
  | .orphanDies =>
      if m.proc 200 = .none then
        { m.set 200 (.child false true) with pending := m.tell true }
      else m
  | .raises signal =>
      if signal ∈ WATCHED then { m with pending := insert signal m.pending } else m

theorem set_set (m : Processes) (pid : Int) (x y : Process) :
    (m.set pid x).set pid y = m.set pid y := by
  simp [set]

theorem Deed.others (few : Few m) (deed : Deed) :
    Relation.ReflTransGen Others m (deed.done m) ∧ Few (deed.done m) := by
  cases deed with
  | nothing => exact ⟨.refl, few⟩
  | shellDies =>
      dsimp only [done]
      split
      · rename_i lives
        exact ⟨.single (.died lives), (few.set_shell (.inr ⟨true, rfl⟩)).pending _⟩
      · exact ⟨.refl, few⟩
  | orphanDies =>
      dsimp only [done]
      split
      · rename_i free
        refine ⟨?_, (few.set_orphan (.inr rfl)).pending _⟩
        have born : Others m (m.set 200 (.stranger false)) := .born (by decide) free
        have died : Others (m.set 200 (.stranger false))
            ((m.set 200 (.stranger false)).set 200 (.stranger true)) :=
          .strangerDied (set_proc_same _ _ _)
        have orphaned : Others ((m.set 200 (.stranger false)).set 200 (.stranger true)) _ :=
          .orphaned (set_proc_same _ 200 (.stranger true))
        simp only [set_set] at died orphaned
        exact ((Relation.ReflTransGen.single born).tail died).tail orphaned
      · exact ⟨.refl, few⟩
  | raises signal =>
      dsimp only [done]
      split
      · rename_i watched
        exact ⟨.single (.raised watched), few.pending _⟩
      · exact ⟨.refl, few⟩

/-- The answers of the kernel to `fork`, `waitpid`, `poll` and `read`. -/
def fewAnswer (w : World Processes) : (s : Syscall) → Option (s.Res × Processes)
  | .fork =>
      if w.kern.proc 100 = .none then
        some (⟨100, ⟨0, ""⟩⟩, w.kern.set 100 (.child true false))
      else none
  | .waitpid =>
      if w.kern.proc 100 = .child true true then
        some ((⟨100, ⟨0, ""⟩⟩, 0),
          { w.kern.set 100 .none with reaped := (100, true) :: w.kern.reaped })
      else if w.kern.proc 200 = .child false true then
        some ((⟨200, ⟨0, ""⟩⟩, 0),
          { w.kern.set 200 .none with reaped := (200, false) :: w.kern.reaped })
      else if w.kern.proc 100 = .none then
        some ((⟨-1, ⟨ECHILD, "No child process"⟩⟩, 0), w.kern)
      else some ((⟨0, ⟨0, ""⟩⟩, 0), w.kern)
  | .poll _ millis =>
      if w.kern.pending.Nonempty then some (⟨1, ⟨0, ""⟩⟩, w.kern)
      else if 0 ≤ millis then some (⟨0, ⟨0, ""⟩⟩, w.kern)
      else none
  | .read _ =>
      if pending : w.kern.pending.Nonempty then
        some ((⟨Sys.SIGINFO_SIZE, ⟨0, ""⟩⟩, w.kern.pending.min' pending),
          { w.kern with pending := w.kern.pending.erase (w.kern.pending.min' pending) })
      else none
  | .clockGettime =>
      if w.hist.length < 2 ^ 63 then some (w.hist.length, w.kern) else none
  | s => s.smooth.map fun r => (r, w.kern)

/-- There is no zombie if neither the shell nor the orphan is one. -/
theorem Few.noZombie (few : Few m) (shell : m.proc 100 ≠ .child true true)
    (orphan : m.proc 200 ≠ .child false true) : ¬ m.HasZombie := by
  rintro ⟨pid, started, zombie⟩
  by_cases isShell : pid = 100
  · subst isShell
    rcases few.shell with absent | ⟨z, child⟩
    · cases absent.symm.trans zombie
    · cases child.symm.trans zombie
      exact shell zombie
  · by_cases isOrphan : pid = 200
    · subst isOrphan
      rcases few.orphan with absent | child
      · cases absent.symm.trans zombie
      · exact orphan child
    · cases (few.others pid isShell isOrphan).symm.trans zombie

theorem few_waitpid {w : World Processes} {r : Ret × Status} {kern : Processes} (few : Few w.kern)
    (h : fewAnswer w .waitpid = some (r, kern)) : Answer w.kern .waitpid r kern ∧ Few kern := by
  unfold fewAnswer at h
  dsimp only at h
  split at h
  · rename_i dead
    cases h
    exact ⟨.reaped dead, (few.set_shell (.inl rfl)).reaped _⟩
  · rename_i shell
    split at h
    · rename_i dead
      cases h
      exact ⟨.reaped dead, (few.set_orphan (.inl rfl)).reaped _⟩
    · rename_i orphan
      have noZombie := few.noZombie shell orphan
      split at h
      · rename_i gone
        cases h
        refine ⟨.noChild ?_, few⟩
        rintro ⟨pid, started, zombie, child⟩
        cases zombie with
        | true => exact noZombie ⟨pid, started, child⟩
        | false =>
            by_cases isShell : pid = 100
            · subst isShell
              cases gone.symm.trans child
            · by_cases isOrphan : pid = 200
              · subst isOrphan
                rcases few.orphan with absent | zombie
                · cases absent.symm.trans child
                · cases zombie.symm.trans child
              · cases (few.others pid isShell isOrphan).symm.trans child
      · rename_i lives
        cases h
        obtain ⟨z, child⟩ := few.shell.resolve_left lives
        exact ⟨.noZombie noZombie ⟨100, true, z, child⟩, few⟩

theorem few_answers {w : World Processes} {s : Syscall} {r : s.Res} {kern : Processes}
    (few : Few w.kern) (h : fewAnswer w s = some (r, kern)) : Answer w.kern s r kern ∧ Few kern := by
  cases s with
  | waitpid => exact few_waitpid few h
  | fork =>
      obtain ⟨free, rfl, rfl⟩ := by simpa [fewAnswer] using h
      exact ⟨.fork (by decide) free, few.set_shell (.inr ⟨false, rfl⟩)⟩
  | poll fd millis =>
      dsimp only [fewAnswer] at h
      split at h
      · rename_i pending
        cases h
        exact ⟨.poll (fun zero => absurd zero (by decide)) fun _ => pending, few⟩
      · split at h
        · rename_i limited
          cases h
          exact ⟨.poll (fun _ => limited) fun more => absurd more (by decide), few⟩
        · cases h
  | read =>
      dsimp only [fewAnswer] at h
      split at h
      · rename_i pending
        cases h
        exact ⟨.read (Finset.min'_mem _ pending) fun other member => Finset.min'_le _ other member,
          few.pending _⟩
      · cases h
  | clockGettime =>
      obtain ⟨early, rfl, rfl⟩ := by simpa [fewAnswer] using h
      exact ⟨.plain rfl early, few⟩
  | _ =>
      dsimp only [fewAnswer] at h
      obtain ⟨r', smooth, same⟩ := Option.map_eq_some_iff.mp h
      cases same
      first
        | cases smooth; done
        | exact ⟨.plain rfl (Syscall.smooth_promised smooth), few⟩

/-- The run in which the others do what `deed` says before each call. -/
def play (deed : World Processes → Call → Deed) : Plan kernel where
  holds := Few
  before w c := (deed w c).done w.kern
  answer := fewAnswer
  clock _ := 0
  others w c few := Deed.others few (deed w c)
  answers few h := few_answers few h
  reads _ := trivial

end Processes

end Zevory
