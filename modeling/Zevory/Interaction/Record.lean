import Zevory.Interaction.Triple

/-!
# What a program adds to a record

A `Recorder` reads two things off a world that interference leaves alone: a list that the
program makes longer, and a view of the rest.  `Makes R p v C`: from any world with the
view `v`, `p` adds a list of which `C` holds, together with its result and the view then.
There is one rule for each way to build a program, and the lists of two parts are appended,
so that a specification of a part never speaks about what came before it.
-/

namespace Interaction

universe u

variable {S : Signature} {W : Type u} {α β σ E V : Type} {M : Semantics S W}

/-- A list that grows with the calls of the program and a view of the world, both of which the
others leave alone. -/
structure Recorder (M : Semantics S W) (E V : Type) where
  trace : W → List E
  view : W → V
  still : ∀ {w w'}, M.interfere w w' → trace w' = trace w ∧ view w' = view w

/-- From a world with the view `v`, what `p` adds to the record, its result and the view after
it meet `C`. -/
def Makes (R : Recorder M E V) (p : Prog S α) (v : V) (C : α → List E → V → Prop) : Prop :=
  ∀ w, R.view w = v →
    Safe M (fun _ _ => True) p
      (fun a w' => ∃ made, R.trace w' = R.trace w ++ made ∧ C a made (R.view w')) w

section Makes

variable {R : Recorder M E V} {v : V}

theorem Recorder.stable (P : List E → V → Prop) : Stable M fun w => P (R.trace w) (R.view w) := by
  intro w w' holds others
  obtain ⟨trace, view⟩ := R.still others
  rw [trace, view]
  exact holds

theorem Makes.post {p : Prog S α} {C C' : α → List E → V → Prop} (makes : Makes R p v C)
    (weaker : ∀ a made v', C a made v' → C' a made v') : Makes R p v C' := by
  intro w here
  refine (makes w here).mono ?_
  rintro a w' ⟨made, more, meets⟩
  exact ⟨made, more, weaker a made _ meets⟩

theorem Makes.ret {a : α} {C : α → List E → V → Prop} (meets : C a [] v) :
    Makes R (.ret a) v C := by
  intro w here w' star
  have stable := R.stable fun trace v' => ∃ made, trace = R.trace w ++ made ∧ C a made v'
  apply stable.star ?_ star
  exact ⟨[], (List.append_nil _).symm, by rw [here]; exact meets⟩

theorem Makes.bind {p : Prog S α} {f : α → Prog S β} {C : α → List E → V → Prop}
    {C' : β → List E → V → Prop} (first : Makes R p v C)
    (rest : ∀ a made v', C a made v' →
      Makes R (f a) v' fun b more v'' => C' b (made ++ more) v'') :
    Makes R (p.bind f) v C' := by
  intro w here
  refine Safe.bind ((first w here).mono ?_)
  rintro a w' ⟨made, before, meets⟩
  refine (rest a made _ meets w' rfl).mono ?_
  rintro b w'' ⟨more, after, meets'⟩
  refine ⟨made ++ more, ?_, meets'⟩
  rw [after, before, List.append_assoc]

/-- The rule for one call, by what each of its answers adds to the record. -/
theorem Makes.perform {o : S.Op} {C : S.Res o → List E → V → Prop}
    (answered : ∀ w r w', R.view w = v → M.answer w o r w' →
      ∃ made, R.trace w' = R.trace w ++ made ∧ C r made (R.view w')) :
    Makes R (Prog.perform o) v C := by
  intro w here v' star
  have same := R.stable fun trace view => trace = R.trace w ∧ view = v
  obtain ⟨trace, view⟩ := same.star ⟨rfl, here⟩ star
  refine ⟨trivial, fun r w' answer => ?_⟩
  obtain ⟨made, more, meets⟩ := answered v' r w' view answer
  rw [trace] at more
  intro w'' star'
  have stable := R.stable fun trace v' => ∃ made, trace = R.trace w ++ made ∧ C r made v'
  exact stable.star ⟨made, more, meets⟩ star'

/-- The rule for loops: `I` holds of the state, of what the rounds so far have added to the record,
and of the view. -/
theorem Makes.iterate {body : σ → Prog S (σ ⊕ β)} {s : σ} {C : β → List E → V → Prop}
    (I : σ → List E → V → Prop) (start : I s [] v)
    (round : ∀ s made v', I s made v' → Makes R (body s) v' fun next more v'' =>
      Sum.elim (fun s' => I s' (made ++ more) v'') (fun b => C b (made ++ more) v'') next) :
    Makes R (Prog.iterate body s) v C := by
  intro w here
  refine Triple.iterate (fun s w' => ∃ made, R.trace w' = R.trace w ++ made ∧ I s made (R.view w'))
    (fun s => R.stable fun trace v' => ∃ made, trace = R.trace w ++ made ∧ I s made v')
    (fun b => R.stable fun trace v' => ∃ made, trace = R.trace w ++ made ∧ C b made v')
    (fun s w' => ?_) w ⟨[], (List.append_nil _).symm, by rw [here]; exact start⟩
  rintro ⟨made, before, holds⟩
  refine (round s made _ holds w' rfl).mono ?_
  rintro (s' | b) w'' ⟨more, after, meets⟩
  · exact ⟨made ++ more, by rw [after, before, List.append_assoc], meets⟩
  · exact ⟨made ++ more, by rw [after, before, List.append_assoc], meets⟩

/-- A program with calls of `X` only adds to the record only what these calls add. -/
theorem Makes.only {X : S.Op → Prop} {P : (o : S.Op) → S.Res o → Prop} {G : E → Prop}
    (answered : ∀ o r w w', X o → M.answer w o r w' →
      P o r ∧ ∃ made, R.trace w' = R.trace w ++ made ∧ ∀ e ∈ made, G e)
    {p : Prog S α} {Q : α → Prop} (only : Only X P p Q) :
    Makes R p v fun a made _ => Q a ∧ ∀ e ∈ made, G e := by
  intro w _
  have stable := R.stable fun trace _ => ∃ made, trace = R.trace w ++ made ∧ ∀ e ∈ made, G e
  have kept : ∀ o r w₁ w₂, X o → (∃ made, R.trace w₁ = R.trace w ++ made ∧ ∀ e ∈ made, G e) →
      M.answer w₁ o r w₂ →
        P o r ∧ ∃ made, R.trace w₂ = R.trace w ++ made ∧ ∀ e ∈ made, G e := by
    rintro o r w₁ w₂ inside ⟨made, before, all⟩ answer
    obtain ⟨possible, more, after, all'⟩ := answered o r w₁ w₂ inside answer
    refine ⟨possible, made ++ more, by rw [after, before, List.append_assoc], fun e member => ?_⟩
    rcases List.mem_append.mp member with old | new
    · exact all e old
    · exact all' e new
  have start : ∃ made, R.trace w = R.trace w ++ made ∧ ∀ e ∈ made, G e :=
    ⟨[], (List.append_nil _).symm, fun _ member => absurd member List.not_mem_nil⟩
  refine (only.safe stable (fun _ _ _ _ => trivial) kept start).mono ?_
  rintro a w' ⟨meets, made, more, all⟩
  exact ⟨made, more, meets, all⟩

/-- When a program has returned, what it has added to the record and its result meet `C`. -/
theorem Makes.returned {p : Prog S α} {C : α → List E → V → Prop} {w w' : W} {a : α}
    (makes : Makes R p (R.view w) C) (reach : Reaches M ⟨p, w⟩ ⟨.ret a, w'⟩) :
    ∃ made, R.trace w' = R.trace w ++ made ∧ C a made (R.view w') :=
  Safe.returned (c := ⟨p, w⟩) (makes w rfl) reach

end Makes

end Interaction
