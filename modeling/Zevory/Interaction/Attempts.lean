import Zevory.Interaction.Errexit

/-!
# Scripts that are run again

A script is run any number of times, each time on what the runs before have left.  A run may
come to its end, stop or be killed between two commands, or be cut off in the middle of one;
then it leaves what the command that was cut off leaves.  The `Tools` may be others in every run.
-/

namespace Interaction

universe u

variable {C : Type} {W : Type u} {K : Type} {T : K → Tools C W} {cut : K → W → C → W → Prop}
  {script : Prog (Commands C) ℕ} {left : W → Prop} {start w w' : W}

/-- The worlds that are left after any number of runs of a script, the last of which may have been
cut off inside a command; before each run the one before has exited 0 or left a world of `left`. -/
inductive Attempts (T : K → Tools C W) (cut : K → W → C → W → Prop)
    (script : Prog (Commands C) ℕ) (left : W → Prop) (start : W) : W → Prop
  | none : Attempts T cut script left start start
  | exited {k : K} {w w' : W} :
      Attempts T cut script left start w → Reaches (T k).sem ⟨script, w⟩ ⟨.ret 0, w'⟩ →
      Attempts T cut script left start w'
  | stopped {k : K} {w w' : W} {p : Prog (Commands C) ℕ} :
      Attempts T cut script left start w → Reaches (T k).sem ⟨script, w⟩ ⟨p, w'⟩ → left w' →
      Attempts T cut script left start w'
  | cutOff {k : K} {w v w' : W} {c : C} {rest : Bool → Prog (Commands C) ℕ} :
      Attempts T cut script left start w →
      Reaches (T k).sem ⟨script, w⟩ ⟨.call c rest, v⟩ → cut k v c w' → left w' →
      Attempts T cut script left start w'

/-- An invariant over any number of runs. If the script only gives commands of `guard` and exits 0
in worlds of `left` only, what these commands keep, also when they are cut off, is kept by all runs.
-/
theorem Attempts.invariant {J : W → Prop} {guard : C → W → Prop}
    (attempts : Attempts T cut script left start w) (init : J start) (first : left start)
    (safe : ∀ k w, J w → left w → Safe (T k).sem guard script (fun n w => n = 0 → left w) w)
    (kept : ∀ k c ok w w', J w → guard c w → (T k).sem.answer w c ok w' → J w')
    (keptCut : ∀ k c w w', J w → guard c w → cut k w c w' → J w') : J w ∧ left w := by
  induction attempts with
  | none => exact ⟨init, first⟩
  | @exited k w w' _ reach ih =>
      have begun := safe k w ih.1 ih.2
      have inside : J w' := begun.invariant (c := ⟨script, w⟩) ih.1 (Sh.undisturbed J) (kept k) reach
      have done := Safe.returned (Q := fun n w => n = 0 → left w) (c := ⟨script, w⟩) begun reach
      exact ⟨inside, done rfl⟩
  | @stopped k w w' p _ reach hasLeft ih =>
      have begun := safe k w ih.1 ih.2
      exact ⟨begun.invariant (c := ⟨script, w⟩) ih.1 (Sh.undisturbed J) (kept k) reach, hasLeft⟩
  | @cutOff k w v w' c rest _ reach cut hasLeft ih =>
      have begun := safe k w ih.1 ih.2
      have inside : J v := begun.invariant (c := ⟨script, w⟩) ih.1 (Sh.undisturbed J) (kept k) reach
      exact ⟨keptCut k c v w' inside (begun.guarded (c := ⟨script, w⟩) reach) cut, hasLeft⟩

end Interaction
