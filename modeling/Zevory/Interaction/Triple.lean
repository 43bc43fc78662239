import Zevory.Interaction.Machine

/-!
# Hoare triples under interference

`Safe M guard p Q w`: whatever the others do and however calls are answered,
every call `p` makes from `w` meets `guard` when it is made, and a result it
comes to meets `Q`.  The definition follows the program; a loop is safe by an
invariant that interference keeps.  `Safe.reaches` is the soundness theorem:
`Safe` is kept by every step of every interleaving, so it speaks about every
reachable configuration.

`Triple` is `Safe` from every world of a precondition, with one rule for each
way to build a program.  `Only X p Q` is the part that needs no world at all:
`p` performs calls of `X` only, whatever they return.  `Only.triple` frames any
assertion that the calls of `X` keep around such a program.
-/

namespace Interaction

universe u

variable {S : Signature} {W : Type u} {α β σ : Type}

/-- A step of the others in a world where `P` holds leads to a world where `P` holds. -/
def Stable (M : Semantics S W) (P : W → Prop) : Prop :=
  ∀ ⦃w w'⦄, P w → M.interfere w w' → P w'

/-- What holds after one round of a loop: the invariant `I` when the loop goes round again, and `K`
when it is left. -/
def leaving {σ β : Type} (I : σ → W → Prop) (K : β → W → Prop) : σ ⊕ β → W → Prop
  | .inl s => I s
  | .inr b => K b

/-- Every call of the program meets `guard` when it is made, and every result it
comes to meets the postcondition, under any interference. -/
def Safe (M : Semantics S W) (guard : S.Op → W → Prop) {α : Type} :
    Prog S α → (α → W → Prop) → W → Prop
  | .ret a, Q, w => ∀ w', Relation.ReflTransGen M.interfere w w' → Q a w'
  | .call o k, Q, w =>
      ∀ w', Relation.ReflTransGen M.interfere w w' →
        guard o w' ∧ ∀ r w'', M.answer w' o r w'' → Safe M guard (k r) Q w''
  | .loop (σ := σ) body s k, Q, w =>
      ∃ I : σ → W → Prop, (∀ s, Stable M (I s)) ∧ I s w ∧
        ∀ s w, I s w → Safe M guard (body s) (leaving I fun b => Safe M guard (k b) Q) w

variable {M : Semantics S W} {guard : S.Op → W → Prop}

theorem Stable.star {P : W → Prop} (stable : Stable M P) {w w' : W} (hw : P w)
    (h : Relation.ReflTransGen M.interfere w w') : P w' := by
  induction h with
  | refl => exact hw
  | tail _ step ih => exact stable ih step

theorem Stable.and {P Q : W → Prop} (hP : Stable M P) (hQ : Stable M Q) :
    Stable M fun w => P w ∧ Q w :=
  fun _ _ h step => ⟨hP h.1 step, hQ h.2 step⟩

theorem Stable.const (p : Prop) : Stable M fun _ => p :=
  fun _ _ h _ => h

/-! ## Soundness -/

theorem Safe.mono {p : Prog S α} {Q Q' : α → W → Prop} {w : W}
    (weaker : ∀ a w, Q a w → Q' a w) (h : Safe M guard p Q w) : Safe M guard p Q' w := by
  induction p generalizing w with
  | ret a => exact fun w' star => weaker _ _ (h w' star)
  | call o k ih =>
      intro w' star
      obtain ⟨met, next⟩ := h w' star
      exact ⟨met, fun r w'' answer => ih r weaker (next r w'' answer)⟩
  | loop body s k ihBody ihRest =>
      obtain ⟨I, stable, start, round⟩ := h
      refine ⟨I, stable, start, fun s w hI => ihBody s ?_ (round s w hI)⟩
      intro next w' after
      cases next with
      | inl s' => exact after
      | inr b => exact ihRest b weaker after

theorem Safe.interfere {p : Prog S α} {Q : α → W → Prop} {w w' : W}
    (h : Safe M guard p Q w) (step : M.interfere w w') : Safe M guard p Q w' := by
  cases p with
  | ret a => exact fun v star => h v (.head step star)
  | call o k => exact fun v star => h v (.head step star)
  | loop body s k =>
      obtain ⟨I, stable, start, round⟩ := h
      exact ⟨I, stable, stable s start step, round⟩

theorem Safe.bind {p : Prog S α} {f : α → Prog S β} {Q : β → W → Prop} {w : W}
    (h : Safe M guard p (fun a => Safe M guard (f a) Q) w) :
    Safe M guard (p.bind f) Q w := by
  induction p generalizing w with
  | ret a => exact h w .refl
  | call o k ih =>
      intro w' star
      obtain ⟨met, next⟩ := h w' star
      exact ⟨met, fun r w'' answer => ih r (next r w'' answer)⟩
  | loop body s k ihBody ihRest =>
      obtain ⟨I, stable, start, round⟩ := h
      refine ⟨I, stable, start, fun s w hI => (round s w hI).mono ?_⟩
      intro next w' after
      cases next with
      | inl s' => exact after
      | inr b => exact ihRest b after

/-- A step of the program or of the others leads from a safe configuration to a safe one. -/
theorem Safe.step {c c' : Config S W α} {Q : α → W → Prop}
    (h : Safe M guard c.prog Q c.world) (step : Step M c c') :
    Safe M guard c'.prog Q c'.world := by
  cases step with
  | interfere step => exact Safe.interfere h step
  | answer answer => exact (h _ .refl).2 _ _ answer
  | @unroll σ β body s k w =>
      obtain ⟨I, stable, start, round⟩ := h
      refine Safe.bind ((round s w start).mono ?_)
      intro next w' after
      cases next with
      | inl s' => exact ⟨I, stable, after, round⟩
      | inr b => exact after

/-- **Soundness.** Every configuration that is reachable from a safe one is safe. -/
theorem Safe.reaches {c c' : Config S W α} {Q : α → W → Prop}
    (h : Safe M guard c.prog Q c.world) (reach : Reaches M c c') :
    Safe M guard c'.prog Q c'.world := by
  induction reach with
  | refl => exact h
  | tail _ step ih => exact ih.step step

/-- Every call that a reachable configuration is about to make meets the guard. -/
theorem Safe.guarded {c : Config S W α} {Q : α → W → Prop} {o : S.Op}
    {k : S.Res o → Prog S α} {w : W} (h : Safe M guard c.prog Q c.world)
    (reach : Reaches M c ⟨.call o k, w⟩) : guard o w :=
  (h.reaches reach w .refl).1

/-- Every result a reachable configuration has come to meets the postcondition. -/
theorem Safe.returned {c : Config S W α} {Q : α → W → Prop} {a : α} {w : W}
    (h : Safe M guard c.prog Q c.world) (reach : Reaches M c ⟨.ret a, w⟩) : Q a w :=
  h.reaches reach w .refl

/-- A property of the world that interference keeps, and that answers to guarded
calls keep, holds in every reachable configuration. -/
theorem Safe.invariant {c c' : Config S W α} {Q : α → W → Prop} {J : W → Prop}
    (h : Safe M guard c.prog Q c.world) (start : J c.world) (stable : Stable M J)
    (kept : ∀ o r w w', J w → guard o w → M.answer w o r w' → J w')
    (reach : Reaches M c c') : J c'.world := by
  induction reach with
  | refl => exact start
  | tail before step ih =>
      cases step with
      | interfere step => exact stable ih step
      | answer answer =>
          have safe := h.reaches before
          exact kept _ _ _ _ ih (safe _ .refl).1 answer
      | unroll => exact ih

/-! ## The rules -/

/-- The triple of `p`: from every world of `P` it is safe with the postcondition `Q`. -/
def Triple (M : Semantics S W) (guard : S.Op → W → Prop) (P : W → Prop) (p : Prog S α)
    (Q : α → W → Prop) : Prop :=
  ∀ w, P w → Safe M guard p Q w

variable {P P' : W → Prop}

theorem Triple.conseq {p : Prog S α} {Q Q' : α → W → Prop} (h : Triple M guard P p Q)
    (pre : ∀ w, P' w → P w) (post : ∀ a w, Q a w → Q' a w) : Triple M guard P' p Q' :=
  fun w hw => (h w (pre w hw)).mono post

theorem Triple.pre {p : Prog S α} {Q : α → W → Prop} (h : Triple M guard P p Q)
    (pre : ∀ w, P' w → P w) : Triple M guard P' p Q :=
  h.conseq pre fun _ _ hQ => hQ

theorem Triple.post {p : Prog S α} {Q Q' : α → W → Prop} (h : Triple M guard P p Q)
    (post : ∀ a w, Q a w → Q' a w) : Triple M guard P p Q' :=
  h.conseq (fun _ hP => hP) post

theorem Triple.ret {a : α} {Q : α → W → Prop} (stable : Stable M (Q a)) :
    Triple M guard (Q a) (.ret a) Q :=
  fun _ hw _ star => stable.star hw star

theorem Triple.bind {p : Prog S α} {f : α → Prog S β} {R : α → W → Prop}
    {Q : β → W → Prop} (first : Triple M guard P p R)
    (rest : ∀ a, Triple M guard (R a) (f a) Q) : Triple M guard P (p.bind f) Q :=
  fun w hw => Safe.bind ((first w hw).mono rest)

theorem Triple.call {o : S.Op} {k : S.Res o → Prog S α} {R : S.Res o → W → Prop}
    {Q : α → W → Prop} (stable : Stable M P) (met : ∀ w, P w → guard o w)
    (answer : ∀ w r w', P w → M.answer w o r w' → R r w')
    (rest : ∀ r, Triple M guard (R r) (k r) Q) : Triple M guard P (.call o k) Q :=
  fun _ hw v star =>
    have hv := stable.star hw star
    ⟨met v hv, fun r w'' step => rest r w'' (answer v r w'' hv step)⟩

theorem Triple.perform {o : S.Op} {Q : S.Res o → W → Prop} (stable : Stable M P)
    (met : ∀ w, P w → guard o w) (answer : ∀ w r w', P w → M.answer w o r w' → Q r w')
    (after : ∀ r, Stable M (Q r)) : Triple M guard P (Prog.perform o) Q :=
  Triple.call stable met answer fun r => Triple.ret (after r)

/-- A call whose answers keep an assertion, and which may be made under it. -/
theorem Triple.keep {o : S.Op} (stable : Stable M P) (met : ∀ w, P w → guard o w)
    (kept : ∀ w r w', P w → M.answer w o r w' → P w') :
    Triple M guard P (Prog.perform o) fun _ => P :=
  Triple.perform stable met kept fun _ => stable

/-- The rule for loops. `I` is the invariant, which may speak of the loop's state, and `Q` holds
when the loop is left. -/
theorem Triple.loop {body : σ → Prog S (σ ⊕ β)} {k : β → Prog S α} {s : σ}
    {Q : β → W → Prop} {Q' : α → W → Prop} (I : σ → W → Prop) (stable : ∀ s, Stable M (I s))
    (round : ∀ s, Triple M guard (I s) (body s) (leaving I Q))
    (rest : ∀ b, Triple M guard (Q b) (k b) Q') :
    Triple M guard (I s) (.loop body s k) Q' :=
  fun _ hw => ⟨I, stable, hw, fun s w hI => (round s w hI).mono fun next w' after =>
    match next, after with
    | .inl _, after => after
    | .inr b, after => rest b w' after⟩

theorem Triple.iterate {body : σ → Prog S (σ ⊕ β)} {s : σ} {Q : β → W → Prop}
    (I : σ → W → Prop) (stable : ∀ s, Stable M (I s)) (after : ∀ b, Stable M (Q b))
    (round : ∀ s, Triple M guard (I s) (body s) (leaving I Q)) :
    Triple M guard (I s) (Prog.iterate body s) Q :=
  Triple.loop I stable round fun b => Triple.ret (after b)

/-! ## Programs that stay inside a set of calls -/

/-- `p` performs calls of `X` only, as long as their results are in `R`, and its
results meet `Q`. -/
def Only (X : S.Op → Prop) (R : (o : S.Op) → S.Res o → Prop) {α : Type} :
    Prog S α → (α → Prop) → Prop
  | .ret a, Q => Q a
  | .call o k, Q => X o ∧ ∀ r, R o r → Only X R (k r) Q
  | .loop (σ := σ) body s k, Q =>
      ∃ I : σ → Prop, I s ∧
        ∀ s, I s → Only X R (body s) (Sum.elim I fun b => Only X R (k b) Q)

variable {X : S.Op → Prop} {R : (o : S.Op) → S.Res o → Prop}

theorem Only.mono {p : Prog S α} {Q Q' : α → Prop} (weaker : ∀ a, Q a → Q' a)
    (h : Only X R p Q) : Only X R p Q' := by
  induction p with
  | ret a => exact weaker a h
  | call o k ih => exact ⟨h.1, fun r hr => ih r weaker (h.2 r hr)⟩
  | loop body s k ihBody ihRest =>
      obtain ⟨I, start, round⟩ := h
      refine ⟨I, start, fun s hI => ihBody s ?_ (round s hI)⟩
      rintro (s' | b) after
      · exact after
      · exact ihRest b weaker after

theorem Only.subset {Y : S.Op → Prop} {p : Prog S α} {Q : α → Prop} (sub : ∀ o, X o → Y o)
    (h : Only X R p Q) : Only Y R p Q := by
  induction p with
  | ret a => exact h
  | call o k ih => exact ⟨sub o h.1, fun r hr => ih r (h.2 r hr)⟩
  | loop body s k ihBody ihRest =>
      obtain ⟨I, start, round⟩ := h
      refine ⟨I, start, fun s hI => (ihBody s (round s hI)).mono ?_⟩
      rintro (s' | b) after
      · exact after
      · exact ihRest b after

/-- Every program performs calls of the set of all calls only. -/
theorem Only.all {p : Prog S α} : Only (fun _ => True) R p fun _ => True := by
  induction p with
  | ret a => trivial
  | call o k ih => exact ⟨trivial, fun r _ => ih r⟩
  | loop body s k ihBody ihRest =>
      refine ⟨fun _ => True, trivial, fun s _ => (ihBody s).mono ?_⟩
      rintro (s' | b) -
      · trivial
      · exact ihRest b

theorem Only.ret {a : α} {Q : α → Prop} (h : Q a) : Only X R (.ret a) Q := h

theorem Only.bind {p : Prog S α} {f : α → Prog S β} {T : α → Prop} {Q : β → Prop}
    (first : Only X R p T) (rest : ∀ a, T a → Only X R (f a) Q) :
    Only X R (p.bind f) Q := by
  induction p with
  | ret a => exact rest a first
  | call o k ih => exact ⟨first.1, fun r hr => ih r (first.2 r hr) rest⟩
  | loop body s k ihBody ihRest =>
      obtain ⟨I, start, round⟩ := first
      refine ⟨I, start, fun s hI => (round s hI).mono ?_⟩
      rintro (s' | b) after
      · exact after
      · exact ihRest b after rest

theorem Only.perform {o : S.Op} {Q : S.Res o → Prop} (h : X o) (post : ∀ r, R o r → Q r) :
    Only X R (Prog.perform o) Q :=
  ⟨h, post⟩

theorem Only.iterate {body : σ → Prog S (σ ⊕ β)} {s : σ} {Q : β → Prop} (I : σ → Prop)
    (start : I s) (round : ∀ s, I s → Only X R (body s) (Sum.elim I Q)) :
    Only X R (Prog.iterate body s) Q :=
  ⟨I, start, round⟩

/-- **Framing.** A program that performs calls of `X` only keeps every assertion that the calls of
`X` keep and under which their results are in `R`. -/
theorem Only.safe {J : W → Prop} (stable : Stable M J)
    (met : ∀ o w, X o → J w → guard o w)
    (kept : ∀ o r w w', X o → J w → M.answer w o r w' → R o r ∧ J w')
    {p : Prog S α} {Q : α → Prop} (h : Only X R p Q) {w : W} (hw : J w) :
    Safe M guard p (fun a w => Q a ∧ J w) w := by
  induction p generalizing w with
  | ret a => exact fun w' star => ⟨h, stable.star hw star⟩
  | call o k ih =>
      intro w' star
      have hw' := stable.star hw star
      refine ⟨met o w' h.1 hw', fun r w'' step => ?_⟩
      obtain ⟨possible, hw''⟩ := kept o r w' w'' h.1 hw' step
      exact ih r (h.2 r possible) hw''
  | loop body s k ihBody ihRest =>
      obtain ⟨I, start, round⟩ := h
      refine ⟨fun s w => I s ∧ J w, fun s => (Stable.const _).and stable, ⟨start, hw⟩, ?_⟩
      rintro s w ⟨hI, hJ⟩
      refine (ihBody s (round s hI) hJ).mono ?_
      rintro (s' | b) w' ⟨after, hJ'⟩
      · exact ⟨after, hJ'⟩
      · exact ihRest b after hJ'

theorem Only.triple {J : W → Prop} (stable : Stable M J)
    (met : ∀ o w, X o → J w → guard o w)
    (kept : ∀ o r w w', X o → J w → M.answer w o r w' → R o r ∧ J w')
    {p : Prog S α} {Q : α → Prop} (h : Only X R p Q) :
    Triple M guard J p fun a w => Q a ∧ J w :=
  fun _ hw => h.safe stable met kept hw

end Interaction
