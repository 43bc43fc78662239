import Zevory.Interaction.Prog

/-!
# Running a program in a world that others share

A `Semantics` says how a world answers the calls of a program and what others
may do to that world at any moment.  A `Config` is the program still to run and
the world; a `Step` is one act of interference, one answered call, or one silent
unrolling of a loop, so a path of steps (`Reaches`) is one interleaving of the
program with everything around it.
-/

namespace Interaction

universe u

/-- How a world of type `W` answers the calls of a program, and what others may do to it between two
calls. -/
structure Semantics (S : Signature) (W : Type u) where
  interfere : W → W → Prop
  answer : W → (o : S.Op) → S.Res o → W → Prop

/-- A program that is still to run, and the world it runs in. -/
structure Config (S : Signature) (W : Type u) (α : Type) where
  prog : Prog S α
  world : W

variable {S : Signature} {W : Type u} {α β σ : Type}

/-- One step of an interleaving: the others change the world, the program makes a call and is
answered, or it begins the next round of a loop. -/
inductive Step (M : Semantics S W) : Config S W α → Config S W α → Prop
  | interfere {p : Prog S α} {w w' : W} :
      M.interfere w w' → Step M ⟨p, w⟩ ⟨p, w'⟩
  | answer {o : S.Op} {k : S.Res o → Prog S α} {r : S.Res o} {w w' : W} :
      M.answer w o r w' → Step M ⟨.call o k, w⟩ ⟨k r, w'⟩
  | unroll {σ β : Type} {body : σ → Prog S (σ ⊕ β)} {s : σ} {k : β → Prog S α} {w : W} :
      Step M ⟨.loop body s k, w⟩ ⟨(body s).bind (.again body k), w⟩

/-- `c'` is reached from `c` in some interleaving. -/
abbrev Reaches (M : Semantics S W) : Config S W α → Config S W α → Prop :=
  Relation.ReflTransGen (Step M)

variable {M : Semantics S W}

theorem Reaches.call {o : S.Op} {k : S.Res o → Prog S α} {w w' : W} {c : Config S W α}
    (r : S.Res o) (h : M.answer w o r w') (rest : Reaches M ⟨k r, w'⟩ c) :
    Reaches M ⟨.call o k, w⟩ c :=
  .head (.answer h) rest

end Interaction
