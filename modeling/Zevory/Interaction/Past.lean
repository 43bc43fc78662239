import Zevory.Interaction.Execution

/-!
# Calls that the past warrants

`Warranted G R p Q h`: once the calls of `h` have been made, `p` makes no call but those that `G`
allows after all the calls before them, and its result meets `Q` then, as long as the results of
its calls are in `R`.  There is one rule for each way to build a program; the rules for a
sequence and for a loop say that the past has only grown since they began, so that what was in it
still is.  In a world that remembers the calls, what is warranted is safe (`Warranted.safe`).
-/

namespace Interaction

universe u

variable {S : Signature} {W : Type u} {α β σ : Type} {M : Semantics S W}

/-- The calls made so far and their results, newest first. -/
abbrev Past (S : Signature) := List (Did S)

/-- After `h`, every call of `p` is one that `G` allows after the calls before it, and every
result of `p` meets `Q`. -/
def Warranted (G : S.Op → Past S → Prop) (R : (o : S.Op) → S.Res o → Prop) {α : Type} :
    Prog S α → (α → Past S → Prop) → Past S → Prop
  | .ret a, Q, h => Q a h
  | .call o k, Q, h => G o h ∧ ∀ r, R o r → Warranted G R (k r) Q (⟨o, r⟩ :: h)
  | .loop (σ := σ) body s k, Q, h =>
      ∃ I : σ → Past S → Prop, I s h ∧ ∀ s h, I s h → Warranted G R (body s)
        (fun next h' => Sum.elim (fun s' => I s' h') (fun b => Warranted G R (k b) Q h') next) h

variable {G : S.Op → Past S → Prop} {R : (o : S.Op) → S.Res o → Prop} {h : Past S}

theorem Warranted.mono {p : Prog S α} {Q Q' : α → Past S → Prop}
    (weaker : ∀ a h', Q a h' → Q' a h') (warranted : Warranted G R p Q h) : Warranted G R p Q' h := by
  induction p generalizing h with
  | ret a => exact weaker a h warranted
  | call o k ih => exact ⟨warranted.1, fun r given => ih r weaker (warranted.2 r given)⟩
  | loop body s k ihBody ihRest =>
      obtain ⟨I, start, round⟩ := warranted
      refine ⟨I, start, fun s h holds => ihBody s ?_ (round s h holds)⟩
      intro next h' after
      cases next with
      | inl s' => exact after
      | inr b => exact ihRest b weaker after

/-- A fact about the past that stays true when it grows is still true when the program is over. -/
theorem Warranted.keeps {p : Prog S α} {Q : α → Past S → Prop} {F : Past S → Prop}
    (lasting : ∀ d h, F h → F (d :: h)) (warranted : Warranted G R p Q h) (so : F h) :
    Warranted G R p (fun a h' => Q a h' ∧ F h') h := by
  induction p generalizing h with
  | ret a => exact ⟨warranted, so⟩
  | call o k ih =>
      exact ⟨warranted.1, fun r given => ih r (warranted.2 r given) (lasting _ h so)⟩
  | loop body s k ihBody ihRest =>
      obtain ⟨I, start, round⟩ := warranted
      refine ⟨fun s h => I s h ∧ F h, ⟨start, so⟩, fun s h holds => ?_⟩
      refine (ihBody s (round s h holds.1) holds.2).mono fun next h' after => ?_
      cases next with
      | inl s' => exact after
      | inr b => exact ihRest b after.1 after.2

theorem Warranted.grows {p : Prog S α} {Q : α → Past S → Prop} (warranted : Warranted G R p Q h) :
    Warranted G R p (fun a h' => Q a h' ∧ h <:+ h') h :=
  warranted.keeps (fun d _ since => since.trans (List.suffix_cons d _)) (List.suffix_refl h)

theorem Warranted.bind {p : Prog S α} {f : α → Prog S β} {T : α → Past S → Prop}
    {Q : β → Past S → Prop} (first : Warranted G R p T h)
    (rest : ∀ a h', h <:+ h' → T a h' → Warranted G R (f a) Q h') :
    Warranted G R (p.bind f) Q h := by
  have grown := first.grows
  suffices any : ∀ {h'}, Warranted G R p (fun a h' => T a h' ∧ h <:+ h') h' →
      Warranted G R (p.bind f) Q h' from any grown
  clear first grown
  intro h' grown
  induction p generalizing h' with
  | ret a => exact rest a h' grown.2 grown.1
  | call o k ih => exact ⟨grown.1, fun r given => ih r rest (grown.2 r given)⟩
  | loop body s k ihBody ihRest =>
      obtain ⟨I, start, round⟩ := grown
      refine ⟨I, start, fun s h holds => (round s h holds).mono fun next h'' after => ?_⟩
      cases next with
      | inl s' => exact after
      | inr b => exact ihRest b rest after

theorem Warranted.perform {o : S.Op} {Q : S.Res o → Past S → Prop} (allowed : G o h)
    (after : ∀ r, R o r → Q r (⟨o, r⟩ :: h)) : Warranted G R (Prog.perform o) Q h :=
  ⟨allowed, after⟩

/-- The rule for loops: `I` holds of the state and the past before every round, and the past has
only grown since the loop began. -/
theorem Warranted.iterate {body : σ → Prog S (σ ⊕ β)} {s : σ} {Q : β → Past S → Prop}
    (I : σ → Past S → Prop) (start : I s h)
    (round : ∀ s h', h <:+ h' → I s h' →
      Warranted G R (body s)
        (fun next h'' => Sum.elim (fun s' => I s' h'') (fun b => Q b h'') next) h') :
    Warranted G R (Prog.iterate body s) Q h := by
  refine ⟨fun s h' => h <:+ h' ∧ I s h', ⟨List.suffix_refl h, start⟩, fun s h' holds => ?_⟩
  refine (round s h' holds.1 holds.2).grows.mono fun next h'' after => ?_
  cases next with
  | inl s' => exact ⟨holds.1.trans after.2, after.1⟩
  | inr b => exact after.1

/-- A program with calls of `X` only, each of which is allowed in every past that continues this
one. -/
theorem Only.warranted {X : S.Op → Prop} {p : Prog S α} {Q : α → Prop} (only : Only X R p Q)
    (allowed : ∀ o h', h <:+ h' → X o → G o h') : Warranted G R p (fun a _ => Q a) h := by
  induction p generalizing h with
  | ret a => exact only
  | call o k ih =>
      refine ⟨allowed o h (List.suffix_refl h) only.1, fun r given => ih r (only.2 r given) ?_⟩
      exact fun o' h' since => allowed o' h' ((List.suffix_cons _ h).trans since)
  | loop body s k ihBody ihRest =>
      obtain ⟨I, start, round⟩ := only
      refine ⟨fun s h' => h <:+ h' ∧ I s, ⟨List.suffix_refl h, start⟩, fun s h' holds => ?_⟩
      have body := ihBody s (round s holds.2) fun o h'' since =>
        allowed o h'' (holds.1.trans since)
      refine body.grows.mono fun next h'' after => ?_
      cases next with
      | inl s' => exact ⟨holds.1.trans after.2, after.1⟩
      | inr b =>
          exact ihRest b after.1 fun o h₃ since =>
            allowed o h₃ (holds.1.trans (after.2.trans since))

/-- **Soundness.** In a world that remembers the calls, every call of a warranted program is one
that the calls before it allow. -/
theorem Warranted.safe {past : W → Past S} (still : ∀ {w w'}, M.interfere w w' → past w' = past w)
    (answered : ∀ {w o r w'}, M.answer w o r w' → R o r ∧ past w' = ⟨o, r⟩ :: past w)
    {p : Prog S α} {Q : α → Past S → Prop} {w : W} (warranted : Warranted G R p Q (past w)) :
    Safe M (fun o w => G o (past w)) p (fun a w => Q a (past w)) w := by
  have stable : ∀ P : Past S → Prop, Stable M fun w => P (past w) := by
    intro P w w' holds others
    rw [still others]
    exact holds
  induction p generalizing w with
  | ret a => exact fun w' star => (stable (Q a)).star warranted star
  | call o k ih =>
      intro w' star
      obtain ⟨allowed, next⟩ :=
        (stable fun h => G o h ∧ ∀ r, R o r → Warranted G R (k r) Q (⟨o, r⟩ :: h)).star warranted star
      refine ⟨allowed, fun r w'' answer => ih r ?_⟩
      obtain ⟨given, after⟩ := answered answer
      rw [after]
      exact next r given
  | loop body s k ihBody ihRest =>
      obtain ⟨I, start, round⟩ := warranted
      refine ⟨fun s w => I s (past w), fun s => stable (I s), start, fun s w holds => ?_⟩
      refine (ihBody s (round s (past w) holds)).mono fun next w' after => ?_
      cases next with
      | inl s' => exact after
      | inr b => exact ihRest b after

end Interaction
