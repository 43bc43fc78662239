import Zevory.Interaction.Execution

/-!
# Programs that go on

`Reacts X R p Q` says that `p`, for as long as it makes calls of `X` only, is over after
finitely many of them with a result that meets `Q`: a call outside `X` ends the
obligation.  `Lively X R p Q` says so of every point `p` comes to.  A lively program may
run for ever, but never on calls of `X` alone (`Lively.leads`).

`Lively` follows the program as `Halts` does, with one rule for each way to build one;
what halts by calls of `X` is lively.
-/

namespace Interaction

universe u

variable {S : Signature} {W : Type u} {α β σ : Type} {M : Semantics S W}
  {X Y : S.Op → Prop} {R : (o : S.Op) → S.Res o → Prop}

/-- As long as it makes calls of `X` only, `p` is over after finitely many of them, and its result
meets `Q`. At a call outside `X` nothing is asked of it. -/
def Reacts (X : S.Op → Prop) (R : (o : S.Op) → S.Res o → Prop) {α : Type} :
    Prog S α → (α → Prop) → Prop
  | .ret a, Q => Q a
  | .call o k, Q => X o → ∀ r, R o r → Reacts X R (k r) Q
  | .loop (σ := σ) body _ k, Q =>
      ∃ rank : σ → ℕ, ∀ s, Reacts X R (body s)
        (Sum.elim (fun s' => rank s' < rank s) fun b => Reacts X R (k b) Q)

/-- `p` reacts, and so does what is left of it after every call it makes; every result of `p` meets
`Q`. -/
def Lively (X : S.Op → Prop) (R : (o : S.Op) → S.Res o → Prop) {α : Type} :
    Prog S α → (α → Prop) → Prop
  | .ret a, Q => Q a
  | .call o k, Q => ∀ r, R o r → Lively X R (k r) Q
  | .loop (σ := σ) body _ k, Q =>
      (∃ rank : σ → ℕ, ∀ s, Reacts X R (body s)
        (Sum.elim (fun s' => rank s' < rank s) fun _ => True)) ∧
      ∀ s, Lively X R (body s) (Sum.elim (fun _ => True) fun b => Lively X R (k b) Q)

/-! ## Reacting -/

theorem Reacts.mono {p : Prog S α} {Q Q' : α → Prop} (weaker : ∀ a, Q a → Q' a)
    (h : Reacts X R p Q) : Reacts X R p Q' := by
  induction p with
  | ret a => exact weaker a h
  | call o k ih => exact fun inside r given => ih r weaker (h inside r given)
  | loop body s k ihBody ihRest =>
      obtain ⟨rank, round⟩ := h
      refine ⟨rank, fun s => ihBody s ?_ (round s)⟩
      intro next after
      cases next with
      | inl s' => exact after
      | inr b => exact ihRest b weaker after

theorem Reacts.subset {p : Prog S α} {Q : α → Prop} (sub : ∀ o, X o → Y o)
    (h : Reacts Y R p Q) : Reacts X R p Q := by
  induction p with
  | ret a => exact h
  | call o k ih => exact fun inside r given => ih r (h (sub o inside) r given)
  | loop body s k ihBody ihRest =>
      obtain ⟨rank, round⟩ := h
      refine ⟨rank, fun s => (ihBody s (round s)).mono ?_⟩
      intro next after
      cases next with
      | inl s' => exact after
      | inr b => exact ihRest b after

theorem Halts.reacts {p : Prog S α} {Q : α → Prop} (h : Halts X R p Q) : Reacts X R p Q := by
  induction p with
  | ret a => exact h
  | call o k ih => exact fun _ r given => ih r (h.2 r given)
  | loop body s k ihBody ihRest =>
      obtain ⟨rank, round⟩ := h
      refine ⟨rank, fun s => (ihBody s (round s)).mono ?_⟩
      intro next after
      cases next with
      | inl s' => exact after
      | inr b => exact ihRest b after

/-! ## Rules -/

theorem Lively.mono {p : Prog S α} {Q Q' : α → Prop} (weaker : ∀ a, Q a → Q' a)
    (h : Lively X R p Q) : Lively X R p Q' := by
  induction p with
  | ret a => exact weaker a h
  | call o k ih => exact fun r given => ih r weaker (h r given)
  | loop body s k ihBody ihRest =>
      obtain ⟨reacts, round⟩ := h
      refine ⟨reacts, fun s => ihBody s ?_ (round s)⟩
      intro next after
      cases next with
      | inl s' => exact after
      | inr b => exact ihRest b weaker after

theorem Lively.subset {p : Prog S α} {Q : α → Prop} (sub : ∀ o, X o → Y o)
    (h : Lively Y R p Q) : Lively X R p Q := by
  induction p with
  | ret a => exact h
  | call o k ih => exact fun r given => ih r (h r given)
  | loop body s k ihBody ihRest =>
      obtain ⟨⟨rank, reacts⟩, round⟩ := h
      refine ⟨⟨rank, fun s => (reacts s).subset sub⟩, fun s => (ihBody s (round s)).mono ?_⟩
      intro next after
      cases next with
      | inl s' => exact after
      | inr b => exact ihRest b after

/-- A program that halts by calls of `X` is lively. -/
theorem Halts.lively {p : Prog S α} {Q : α → Prop} (h : Halts X R p Q) : Lively X R p Q := by
  induction p with
  | ret a => exact h
  | call o k ih => exact fun r given => ih r (h.2 r given)
  | loop body s k ihBody ihRest =>
      obtain ⟨rank, round⟩ := h
      refine ⟨⟨rank, fun s => (round s).reacts.mono ?_⟩, fun s => (ihBody s (round s)).mono ?_⟩
      · intro next after
        cases next with
        | inl s' => exact after
        | inr b => trivial
      · intro next after
        cases next with
        | inl s' => trivial
        | inr b => exact ihRest b after

theorem Lively.bind {p : Prog S α} {f : α → Prog S β} {T : α → Prop} {Q : β → Prop}
    (first : Lively X R p T) (rest : ∀ a, T a → Lively X R (f a) Q) :
    Lively X R (p.bind f) Q := by
  induction p with
  | ret a => exact rest a first
  | call o k ih => exact fun r given => ih r (first r given) rest
  | loop body s k ihBody ihRest =>
      obtain ⟨reacts, round⟩ := first
      refine ⟨reacts, fun s => (round s).mono ?_⟩
      intro next after
      cases next with
      | inl s' => trivial
      | inr b => exact ihRest b after rest

/-- A loop is lively if its rounds are, and if a round with calls of `X` only brings the rank of the
state down. -/
theorem Lively.iterate {body : σ → Prog S (σ ⊕ β)} {s : σ} {Q : β → Prop} (rank : σ → ℕ)
    (reacts : ∀ s, Reacts X R (body s) (Sum.elim (fun s' => rank s' < rank s) fun _ => True))
    (round : ∀ s, Lively X R (body s) (Sum.elim (fun _ => True) Q)) :
    Lively X R (Prog.iterate body s) Q :=
  ⟨⟨rank, reacts⟩, round⟩

/-! ## In an execution -/

/-- A program that reacts and is lively reacts with both postconditions. -/
theorem Reacts.and_lively {p : Prog S α} {Q Q' : α → Prop} (reacts : Reacts X R p Q)
    (lively : Lively X R p Q') : Reacts X R p fun a => Q a ∧ Q' a := by
  induction p with
  | ret a => exact ⟨reacts, lively⟩
  | call o k ih => exact fun inside r given => ih r (reacts inside r given) (lively r given)
  | loop body s k ihBody ihRest =>
      obtain ⟨rank, reacts⟩ := reacts
      refine ⟨rank, fun s => (ihBody s (reacts s) (lively.2 s)).mono ?_⟩
      intro next after
      cases next with
      | inl s' => exact after.1
      | inr b => exact ihRest b after.1 after.2

theorem Lively.reacts {p : Prog S α} {Q : α → Prop} (h : Lively X R p Q) : Reacts X R p Q := by
  induction p with
  | ret a => exact h
  | call o k ih => exact fun _ r given => ih r (h r given)
  | loop body s k ihBody ihRest =>
      obtain ⟨⟨rank, reacts⟩, round⟩ := h
      refine ⟨rank, fun s => ((reacts s).and_lively (round s)).mono ?_⟩
      intro next after
      cases next with
      | inl s' => exact after.1
      | inr b => exact ihRest b after.2

variable {c₀ : Config S W β} {e : Execution M c₀}

/-- In every execution a program that reacts on calls of `X` comes to its end or to a call outside
`X`. -/
theorem Reacts.leads (given : ∀ n o r, e.did n = some ⟨o, r⟩ → R o r)
    (comesBack : ∀ o, X o → Nonempty (S.Res o)) {p : Prog S α} {Q : α → Prop}
    (reacts : Reacts X R p Q) {f : α → Prog S β} {n : ℕ} {w : W}
    (here : e.conf n = ⟨p.bind f, w⟩) :
    e.Leads (fun o _ => X o) n fun m =>
      (∃ o k w', ¬ X o ∧ e.conf m = ⟨.call o k, w'⟩) ∨ ∃ a w', Q a ∧ e.conf m = ⟨f a, w'⟩ := by
  induction p generalizing n w with
  | ret a => exact .now (.inr ⟨a, w, reacts, here⟩)
  | call o k ih =>
      by_cases inside : X o
      · obtain ⟨r, w', made, there⟩ := Execution.turn_call (comesBack o inside) here
        refine .next ?_ (ih r (reacts inside r (given n o r made)) there)
        intro o' r' did
        cases made.symm.trans did
        exact inside
      · exact .now (.inl ⟨o, _, w, inside, here⟩)
  | loop body s k ihBody ihRest =>
      obtain ⟨rank, round⟩ := reacts
      -- by induction on the rank of the state the loop is in
      induction ranked : rank s using Nat.strong_induction_on generalizing s n w with
      | _ x ih =>
          obtain ⟨silent, w', there⟩ := Execution.turn_loop here
          refine .next (by rw [silent]; exact nofun) ?_
          refine (ihBody s (round s) there).trans fun m _ arrived => ?_
          rcases arrived with outside | ⟨next, w'', after, there'⟩
          · exact .now (.inl outside)
          · cases next with
            | inl s' =>
                subst ranked
                exact ih (rank s') after s' there' rfl
            | inr b => exact ihRest b after there'

/-- What a turn of a lively program leaves to do is lively. -/
theorem Lively.turn {c c' : Config S W α} {did : Option (Did S)} {Q : α → Prop}
    (given : ∀ o r, did = some ⟨o, r⟩ → R o r) (turn : TakesTurn M c did c')
    (h : Lively X R c.prog Q) : Lively X R c'.prog Q := by
  cases turn with
  | answer => exact h _ (given _ _ rfl)
  | @unroll σ β body s k =>
      refine Lively.bind (h.2 s) fun next after => ?_
      cases next with
      | inl s' => exact h
      | inr b => exact after
  | returned => exact h
  | gone => exact h

theorem Lively.conf (given : ∀ n o r, e.did n = some ⟨o, r⟩ → R o r) {Q : β → Prop}
    (h : Lively X R c₀.prog Q) (n : ℕ) : Lively X R (e.conf n).prog Q := by
  induction n with
  | zero =>
      rw [e.start]
      exact h
  | succ n ih => exact ih.turn (given n) (e.goes n)

/-- **Liveness.** From every turn on, a lively program comes to its end or to a call outside `X`, by
calls of `X` only. -/
theorem Lively.leads (given : ∀ n o r, e.did n = some ⟨o, r⟩ → R o r)
    (comesBack : ∀ o, X o → Nonempty (S.Res o)) {Q : β → Prop} (h : Lively X R c₀.prog Q)
    (n : ℕ) :
    e.Leads (fun o _ => X o) n fun m =>
      (∃ o k w, ¬ X o ∧ e.conf m = ⟨.call o k, w⟩) ∨ ∃ a w, Q a ∧ e.conf m = ⟨.ret a, w⟩ := by
  have here : e.conf n = ⟨(e.conf n).prog.bind .ret, (e.conf n).world⟩ := by rw [Prog.bind_ret]
  exact Reacts.leads given comesBack (Lively.conf given h n).reacts here

end Interaction
