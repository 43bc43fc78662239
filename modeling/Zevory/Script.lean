import Zevory.Interaction.Execution
import Zevory.Kernel

/-!
# Scripted runs

A `Script` settles everything a `Kernel` leaves open, so that a run of pid 1 on it
can be computed.
-/

namespace Zevory

open Interaction

/-- The result of a call when everything goes well, for the calls that need no
kernel to say what that is. -/
def Syscall.smooth : (s : Syscall) → Option s.Res
  | .getpid => some 1
  | .openPath _ _ => some ⟨3, ⟨0, ""⟩⟩
  | .signalfd _ _ _ => some ⟨4, ⟨0, ""⟩⟩
  | .write _ bytes => some ⟨bytes.length, ⟨0, ""⟩⟩
  | .createDirAll _ => some (.ok ())
  | .fsWrite _ _ => some (.ok ())
  | .pathExists _ => some true
  | .eprintln _ => some ()
  | .mount _ => some ⟨0, ⟨0, ""⟩⟩
  | .mknod _ _ _ => some ⟨0, ⟨0, ""⟩⟩
  | .dup2 _ target => some ⟨target, ⟨0, ""⟩⟩
  | .close _ => some ⟨0, ⟨0, ""⟩⟩
  | .setsid => some ⟨1, ⟨0, ""⟩⟩
  | .setCtty _ _ => some ⟨0, ⟨0, ""⟩⟩
  | .reboot _ => some ⟨0, ⟨0, ""⟩⟩
  | .kill _ _ => some ⟨0, ⟨0, ""⟩⟩
  | .sync => some ⟨0, ⟨0, ""⟩⟩
  | .sigprocmask _ _ => some ⟨0, ⟨0, ""⟩⟩
  | _ => none

theorem Syscall.smooth_promised {s : Syscall} {r : s.Res} (h : s.smooth = some r) :
    Promised (.sys s) r := by
  cases s with
  | getpid => cases h; exact rfl
  | openPath => cases h; exact .inr (by decide)
  | write => cases h; exact Int.le_refl _
  | fork => cases h
  | clockGettime => cases h
  | _ => exact trivial

variable {K : Type}

/-- Such a result is one that every kernel promises. -/
theorem Syscall.smoothly {s : Syscall} {r : s.Res} {kern : K} {after : s.Res → K}
    (h : s.smooth.map (fun r => (r, after r)) = some (r, kern)) :
    Promised (.sys s) r ∧ kern = after r := by
  obtain ⟨r', smooth, same⟩ := Option.map_eq_some_iff.mp h
  cases same
  exact ⟨smooth_promised smooth, rfl⟩

/-- One way for a kernel to go on: what the others do before it answers a call, its answer, and the
reading of its clock. -/
structure Script (k : Kernel K) where
  before : World K → Call → K
  answer : World K → (s : Syscall) → Option (s.Res × K)
  clock : K → ℕ
  others : ∀ w c, Relation.ReflTransGen k.others w.kern (before w c)
  answers : ∀ {w s r kern}, answer w s = some (r, kern) → k.answer w.kern s r kern
  reads : ∀ m, k.reads m (clock m)

namespace Script

variable {k : Kernel K}

/-- The others do nothing before the call. -/
theorem still (w : World K) (_ : Call) : Relation.ReflTransGen k.others w.kern w.kern := .refl

/-- How a script answers a call after the others have done their part. -/
def respond (script : Script k) (w : World K) : (c : Call) → Option (c.Res × World K)
  | .sys s =>
      (script.answer w s).map fun next => (next.1, w.called (k.time w.kern) s next.1 next.2)
  | .mem o =>
      let now := script.clock w.kern
      some ((o.run now w.mem).1, w.updated (k.time w.kern) o now)

theorem respond_answers {script : Script k} {w w' : World K} {c : Call} {r : c.Res}
    (h : script.respond w c = some (r, w')) : k.Answers w c r w' := by
  cases c with
  | sys s =>
      simp only [respond, Option.map_eq_some_iff, Prod.mk.injEq] at h
      obtain ⟨next, answered, rfl, rfl⟩ := h
      exact .sys (script.answers answered)
  | mem o =>
      cases h
      exact .mem (script.reads w.kern)

theorem interferes {w : World K} {kern : K} (star : Relation.ReflTransGen k.others w.kern kern) :
    Relation.ReflTransGen k.semantics.interfere w { w with kern } := by
  induction star with
  | refl => exact .refl
  | tail _ step ih => exact ih.tail ⟨_, step, rfl⟩

def driver (script : Script k) : Driver k.semantics where
  pick w c := script.respond { w with kern := script.before w c } c
  possible h := ⟨_, interferes (script.others _ _), respond_answers h⟩

end Script

/-- A script that need only answer in the states where `holds` holds, and that keeps it. -/
structure Plan (k : Kernel K) where
  holds : K → Prop
  before : World K → Call → K
  answer : World K → (s : Syscall) → Option (s.Res × K)
  clock : K → ℕ
  others : ∀ w c, holds w.kern →
    Relation.ReflTransGen k.others w.kern (before w c) ∧ holds (before w c)
  answers : ∀ {w s r kern}, holds w.kern → answer w s = some (r, kern) →
    k.answer w.kern s r kern ∧ holds kern
  reads : ∀ m, k.reads m (clock m)

namespace Plan

variable {k : Kernel K}

/-- How a plan answers a call after the others have done their part. -/
def respond (plan : Plan k) (w : World K) : (c : Call) → Option (c.Res × World K)
  | .sys s =>
      (plan.answer w s).map fun next => (next.1, w.called (k.time w.kern) s next.1 next.2)
  | .mem o =>
      let now := plan.clock w.kern
      some ((o.run now w.mem).1, w.updated (k.time w.kern) o now)

theorem respond_answers {plan : Plan k} {w w' : World K} {c : Call} {r : c.Res}
    (here : plan.holds w.kern) (h : plan.respond w c = some (r, w')) :
    k.Answers w c r w' ∧ plan.holds w'.kern := by
  cases c with
  | sys s =>
      simp only [respond, Option.map_eq_some_iff, Prod.mk.injEq] at h
      obtain ⟨next, answered, rfl, rfl⟩ := h
      obtain ⟨answer, kept⟩ := plan.answers here answered
      exact ⟨.sys answer, kept⟩
  | mem o =>
      cases h
      exact ⟨.mem (plan.reads w.kern), here⟩

def driver (plan : Plan k) : Driver (k.semantics.under fun w => plan.holds w.kern) where
  pick w c := plan.respond { w with kern := plan.before w c } c
  possible {w c r w'} h := by
    refine ⟨w, .refl, fun here => ?_⟩
    obtain ⟨others, kept⟩ := plan.others w c here
    obtain ⟨answer, kept'⟩ := respond_answers (w := { w with kern := plan.before w c }) kept h
    exact ⟨kept', _, Script.interferes others, answer⟩

theorem turns (plan : Plan k) {α : Type} (stop : Config calls (World K) α → Bool) (fuel : ℕ)
    {c : Config calls (World K) α} (here : plan.holds c.world.kern) :
    Turns k.semantics c (plan.driver.run stop fuel c) ∧
      plan.holds (plan.driver.run stop fuel c).world.kern :=
  (plan.driver.turns stop fuel c).of_under here

end Plan

end Zevory
