import Zevory.Interaction.Execution

/-!
# What has to follow a call

A `Sequel` says how a program may go on after a call, by the result of it.  `Heeds N R p`:
`p` goes on as `N` allows after every call it makes.  Every turn keeps it, and so in an
execution the program that is left after a call is one that `N` allows (`Heeds.follows`).

Such a program is then followed to its end: what is safe and halts comes to a world of its
postcondition in every execution (`Halts.comes_to`); and what is safe over one semantics is
safe over every other that is mapped to it (`Safe.along`).
-/

namespace Interaction

universe u v

variable {S : Signature} {W : Type u} {V : Type v} {α β σ : Type} {M : Semantics S W}
  {M' : Semantics S V} {X : S.Op → Prop} {R : (o : S.Op) → S.Res o → Prop}

/-- The programs that may come after the result of a call. -/
abbrev Sequel (S : Signature) := (o : S.Op) → S.Res o → (α : Type) → Prog S α → Prop

/-- What `N` allows after a call it allows whatever comes after that. -/
def Sequel.Open (N : Sequel S) : Prop :=
  ∀ {o : S.Op} {r : S.Res o} {α β : Type} {p : Prog S α} (f : α → Prog S β),
    N o r α p → N o r β (p.bind f)

/-- After every call of `p`, with a result in `R`, comes what `N` allows, and every result of
`p` meets `Q`. -/
def Heeds (N : Sequel S) (R : (o : S.Op) → S.Res o → Prop) {α : Type} :
    Prog S α → (α → Prop) → Prop
  | .ret a, Q => Q a
  | .call o k, Q => ∀ r, R o r → N o r α (k r) ∧ Heeds N R (k r) Q
  | .loop body _ k, Q =>
      ∀ s, Heeds N R (body s) (Sum.elim (fun _ => True) fun b => Heeds N R (k b) Q)

/-! ## Heeding -/

section Heeds

variable {N : Sequel S}

theorem Heeds.mono {p : Prog S α} {Q Q' : α → Prop} (weaker : ∀ a, Q a → Q' a)
    (h : Heeds N R p Q) : Heeds N R p Q' := by
  induction p with
  | ret a => exact weaker a h
  | call o k ih =>
      intro r given
      obtain ⟨next, later⟩ := h r given
      exact ⟨next, ih r weaker later⟩
  | loop body s k ihBody ihRest =>
      refine fun s => ihBody s ?_ (h s)
      intro next after
      cases next with
      | inl s' => exact after
      | inr b => exact ihRest b weaker after

theorem Heeds.bind (opens : N.Open) {p : Prog S α} {f : α → Prog S β} {T : α → Prop}
    {Q : β → Prop} (first : Heeds N R p T) (rest : ∀ a, T a → Heeds N R (f a) Q) :
    Heeds N R (p.bind f) Q := by
  induction p with
  | ret a => exact rest a first
  | call o k ih =>
      intro r given
      obtain ⟨next, later⟩ := first r given
      exact ⟨opens f next, ih r later rest⟩
  | loop body s k _ ihRest =>
      refine fun s => (first s).mono ?_
      intro next after
      cases next with
      | inl s' => trivial
      | inr b => exact ihRest b after rest

theorem Heeds.iterate {body : σ → Prog S (σ ⊕ β)} {s : σ} {Q : β → Prop}
    (round : ∀ s, Heeds N R (body s) (Sum.elim (fun _ => True) Q)) :
    Heeds N R (Prog.iterate body s) Q :=
  round

/-- A program that halts by calls that nothing has to follow heeds `N`. -/
theorem Halts.heeds (free : ∀ o, X o → ∀ r (α : Type) (p : Prog S α), N o r α p) {p : Prog S α}
    {Q : α → Prop} (h : Halts X R p Q) : Heeds N R p Q := by
  induction p with
  | ret a => exact h
  | call o k ih => exact fun r given => ⟨free o h.1 r _ _, ih r (h.2 r given)⟩
  | loop body s k ihBody ihRest =>
      obtain ⟨rank, round⟩ := h
      refine fun s => (ihBody s (round s)).mono ?_
      intro next after
      cases next with
      | inl s' => trivial
      | inr b => exact ihRest b after

/-- What a turn of a program that heeds `N` leaves to do heeds `N` too. -/
theorem Heeds.turn (opens : N.Open) {c c' : Config S W α} {did : Option (Did S)} {Q : α → Prop}
    (given : ∀ o r, did = some ⟨o, r⟩ → R o r) (turn : TakesTurn M c did c')
    (h : Heeds N R c.prog Q) : Heeds N R c'.prog Q := by
  cases turn with
  | answer => exact (h _ (given _ _ rfl)).2
  | @unroll σ β body s k =>
      refine Heeds.bind opens (h s) fun next after => ?_
      cases next with
      | inl s' => exact h
      | inr b => exact after
  | returned => exact h
  | gone => exact h

variable {c₀ : Config S W β} {e : Execution M c₀}

theorem Heeds.conf (opens : N.Open) (given : ∀ n o r, e.did n = some ⟨o, r⟩ → R o r) {Q : β → Prop}
    (h : Heeds N R c₀.prog Q) (n : ℕ) : Heeds N R (e.conf n).prog Q := by
  induction n with
  | zero =>
      rw [e.start]
      exact h
  | succ n ih => exact ih.turn opens (given n) (e.goes n)

/-- **What follows a call.** At every turn that has made a call, the program that is left to do is
one that `N` allows after that call and its result. -/
theorem Heeds.follows (opens : N.Open) (given : ∀ n o r, e.did n = some ⟨o, r⟩ → R o r)
    {Q : β → Prop} (h : Heeds N R c₀.prog Q) {n : ℕ} {o : S.Op} {r : S.Res o}
    (did : e.did n = some ⟨o, r⟩) : N o r β (e.conf (n + 1)).prog := by
  have heeds := Heeds.conf opens given h n
  have turn := e.goes n
  have possible := given n o r did
  rw [did] at turn
  generalize e.conf n = c at turn heeds
  generalize e.conf (n + 1) = c' at turn
  cases turn with
  | answer => exact (heeds r possible).1

end Heeds

/-! ## To the end of a program -/

/-- A program that is safe and halts comes to a result that meets its postcondition, in every
execution. -/
theorem Halts.comes_to {c₀ : Config S W β} {e : Execution M c₀}
    (given : ∀ n o r, e.did n = some ⟨o, r⟩ → R o r) (comesBack : ∀ o, X o → Nonempty (S.Res o))
    {guard : S.Op → W → Prop} {p : Prog S α} {P : α → Prop} {Q : α → W → Prop}
    (halts : Halts X R p P) {f : α → Prog S β} {n : ℕ} {w : W} (safe : Safe M guard p Q w)
    (here : e.conf n = ⟨p.bind f, w⟩) :
    e.Leads (fun o _ => X o) n fun m => ∃ a w', P a ∧ Q a w' ∧ e.conf m = ⟨f a, w'⟩ := by
  induction p generalizing n w with
  | ret a => exact .now ⟨a, w, halts, safe w .refl, here⟩
  | call o k ih =>
      obtain ⟨r, w', made, there⟩ := Execution.turn_call (comesBack o halts.1) here
      obtain ⟨v, others, answer⟩ := Execution.answered made
      rw [here] at others
      rw [there] at answer
      refine .next ?_ (ih r (halts.2 r (given n o r made)) ((safe v others).2 r w' answer) there)
      intro o' r' did
      cases made.symm.trans did
      exact halts.1
  | loop body s k ihBody ihRest =>
      obtain ⟨rank, round⟩ := halts
      obtain ⟨I, stable, start, safely⟩ := safe
      -- by induction on the rank of the state the loop is in
      induction ranked : rank s using Nat.strong_induction_on generalizing s n w with
      | _ x ih =>
          obtain ⟨silent, w', others, there⟩ := Execution.turns_round here
          refine .next (by rw [silent]; exact nofun) ?_
          have first := safely s w' ((stable s).star start others)
          refine (ihBody s (round s) first there).trans fun m _ arrived => ?_
          obtain ⟨next, w'', after, meets, there'⟩ := arrived
          cases next with
          | inl s' =>
              subst ranked
              exact ih (rank s') after s' there' meets rfl
          | inr b => exact ihRest b after meets there'

/-! ## Along a map of the worlds -/

section Along

variable {φ : W → V}

theorem Stable.along (still : ∀ {w w'}, M.interfere w w' → φ w' = φ w) (P : V → Prop) :
    Stable M fun w => P (φ w) := by
  intro w w' holds others
  rw [still others]
  exact holds

/-- A map of worlds through which a step of the others is not seen and every answer is an answer
there. -/
structure Maps (M : Semantics S W) (M' : Semantics S V) (φ : W → V) : Prop where
  still : ∀ {w w'}, M.interfere w w' → φ w' = φ w
  answers : ∀ {w o r w'}, M.answer w o r w' → M'.answer (φ w) o r (φ w')

theorem Maps.star (maps : Maps M M' φ) {w w' : W}
    (others : Relation.ReflTransGen M.interfere w w') : φ w' = φ w := by
  induction others with
  | refl => rfl
  | tail _ step ih => exact (maps.still step).trans ih

/-- A program that is safe in the worlds it is mapped to is safe, with the guard and the
postcondition taken along the map. -/
theorem Safe.along (maps : Maps M M' φ) {guard : S.Op → V → Prop} {p : Prog S α}
    {Q : α → V → Prop} {w : W} (safe : Safe M' guard p Q (φ w)) :
    Safe M (fun o w => guard o (φ w)) p (fun a w => Q a (φ w)) w := by
  induction p generalizing w with
  | ret a =>
      intro w' others
      rw [maps.star others]
      exact safe _ .refl
  | call o k ih =>
      intro w' others
      rw [← maps.star others] at safe
      obtain ⟨met, next⟩ := safe _ .refl
      exact ⟨met, fun r w'' answer => ih r (next r _ (maps.answers answer))⟩
  | loop body s k ihBody ihRest =>
      obtain ⟨I, stable, start, round⟩ := safe
      refine ⟨fun s w => I s (φ w), fun s => Stable.along maps.still (I s), start, fun s w holds => ?_⟩
      refine (ihBody s (round s (φ w) holds)).mono ?_
      intro next w' after
      cases next with
      | inl s' => exact after
      | inr b => exact ihRest b after

end Along

end Interaction
