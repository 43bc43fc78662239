import Mathlib.Data.Nat.Notation
import Zevory.Interaction.Machine

/-!
# Driving a program

A `Driver` picks one answer for every call, after some interference if it likes, and
carries the proof that its picks are possible.  `Driver.run` then computes one
interleaving, so that a concrete configuration is shown to be reachable by
evaluating it (`Driver.reaches`).
-/

namespace Interaction

universe u

variable {S : Signature} {W : Type u} {α : Type} {M : Semantics S W}

/-- The call a program makes next. -/
def Prog.next : Prog S α → Option S.Op
  | .call o _ => some o
  | _ => none

theorem Prog.next_eq {p : Prog S α} {o : S.Op} (h : p.next = some o) :
    ∃ k, p = .call o k := by
  cases p with
  | call o' k =>
      cases h
      exact ⟨k, rfl⟩
  | ret => cases h
  | loop => cases h

/-- The result of a program that has returned. -/
def Prog.result : Prog S α → Option α
  | .ret a => some a
  | _ => none

theorem Prog.result_eq {p : Prog S α} {a : α} (h : p.result = some a) : p = .ret a := by
  cases p with
  | ret a' =>
      cases h
      rfl
  | call => cases h
  | loop => cases h

/-- For every call in every world one answer that the semantics allows, or none, in which case the
run stops there. -/
structure Driver (M : Semantics S W) where
  pick : W → (o : S.Op) → Option (S.Res o × W)
  possible : ∀ {w o r w'}, pick w o = some (r, w') →
    ∃ v, Relation.ReflTransGen M.interfere w v ∧ M.answer v o r w'

namespace Driver

/-- The next configuration of a driven program: the picked answer to its call, or one round more of
its loop. -/
def advance (d : Driver M) : Config S W α → Option (Config S W α)
  | ⟨.ret _, _⟩ => none
  | ⟨.call o k, w⟩ => (d.pick w o).map fun next => ⟨k next.1, next.2⟩
  | ⟨.loop body s k, w⟩ => some ⟨(body s).bind (.again body k), w⟩

/-- Run until `stop` holds of the configuration, for at most the given number of
steps. -/
def run (d : Driver M) (stop : Config S W α → Bool) : ℕ → Config S W α → Config S W α
  | 0, c => c
  | fuel + 1, c =>
      if stop c then c
      else match d.advance c with
        | none => c
        | some c' => run d stop fuel c'

theorem interfere_reaches {p : Prog S α} {w w' : W}
    (star : Relation.ReflTransGen M.interfere w w') : Reaches M ⟨p, w⟩ ⟨p, w'⟩ := by
  induction star with
  | refl => exact .refl
  | tail _ step ih => exact ih.tail (.interfere step)

theorem advance_reaches (d : Driver M) {c c' : Config S W α} (h : d.advance c = some c') :
    Reaches M c c' := by
  obtain ⟨p, w⟩ := c
  cases p with
  | ret => cases h
  | call o k =>
      simp only [advance, Option.map_eq_some_iff] at h
      obtain ⟨⟨r, w'⟩, picked, rfl⟩ := h
      obtain ⟨v, star, answer⟩ := d.possible picked
      exact (interfere_reaches star).tail (.answer answer)
  | loop body s k =>
      cases h
      exact .single .unroll

/-- Every configuration that a driver computes is reachable, so that a run that is evaluated stands
for a run of the semantics. -/
theorem reaches (d : Driver M) (stop : Config S W α → Bool) (fuel : ℕ) (c : Config S W α) :
    Reaches M c (d.run stop fuel c) := by
  induction fuel generalizing c with
  | zero => exact .refl
  | succ fuel ih =>
      rw [run]
      split
      · exact .refl
      · split
        · exact .refl
        · rename_i c' stepped
          exact (d.advance_reaches stepped).trans (ih c')

end Driver

end Interaction
