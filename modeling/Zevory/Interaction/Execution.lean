import Mathlib.Data.Nat.Init
import Mathlib.Logic.IsEmpty.Basic
import Mathlib.Tactic.Choose
import Zevory.Interaction.Driver
import Zevory.Interaction.Triple

/-!
# Executions that go on

An `Execution` is one interleaving to its very end: turn after turn of the program,
with what the others do between them.  A program that has returned, or has made a
call that never comes back, takes no turns any more; the rest of the execution is
the others'.  So the program returns in an execution, or is gone, or takes turns
without end.

`Halts X R p Q` says that `p` is over after finitely many calls of `X`, whatever
they return, and that its result then meets `Q`: a loop of `p` has a rank that every
round brings down.  `Halts.leads` is what that comes to in an execution.  What ends
only by the grace of the others has no rank, and is followed through the execution
with `Execution.Leads`.
-/

namespace Interaction

universe u

variable {S : Signature} {W : Type u} {α β σ : Type} {M : Semantics S W}

/-- A call and its result. -/
abbrev Did (S : Signature) := (o : S.Op) × S.Res o

/-- One turn of a program, after any number of steps of the others, with the call it has made if it
is a turn with a call. -/
inductive TakesTurn (M : Semantics S W) : Config S W α → Option (Did S) → Config S W α → Prop
  | answer {o : S.Op} {k : S.Res o → Prog S α} {r : S.Res o} {w v w' : W} :
      Relation.ReflTransGen M.interfere w v → M.answer v o r w' →
      TakesTurn M ⟨.call o k, w⟩ (some ⟨o, r⟩) ⟨k r, w'⟩
  | unroll {σ β : Type} {body : σ → Prog S (σ ⊕ β)} {s : σ} {k : β → Prog S α} {w v : W} :
      Relation.ReflTransGen M.interfere w v →
      TakesTurn M ⟨.loop body s k, w⟩ none ⟨(body s).bind (.again body k), v⟩
  | returned {a : α} {w v : W} :
      Relation.ReflTransGen M.interfere w v → TakesTurn M ⟨.ret a, w⟩ none ⟨.ret a, v⟩
  | gone {o : S.Op} {k : S.Res o → Prog S α} {w v : W} :
      IsEmpty (S.Res o) → Relation.ReflTransGen M.interfere w v →
      TakesTurn M ⟨.call o k, w⟩ none ⟨.call o k, v⟩

/-- `c'` is reached from `c` in some turns. -/
abbrev Turns (M : Semantics S W) : Config S W α → Config S W α → Prop :=
  Relation.ReflTransGen fun c c' => ∃ did, TakesTurn M c did c'

theorem TakesTurn.reaches {c c' : Config S W α} {did : Option (Did S)} (turn : TakesTurn M c did c') :
    Reaches M c c' := by
  cases turn with
  | answer star answer => exact (Driver.interfere_reaches star).tail (.answer answer)
  | unroll star => exact (Driver.interfere_reaches star).tail .unroll
  | returned star => exact Driver.interfere_reaches star
  | gone _ star => exact Driver.interfere_reaches star

theorem Turns.reaches {c c' : Config S W α} (turns : Turns M c c') : Reaches M c c' := by
  induction turns with
  | refl => exact .refl
  | tail _ turn ih =>
      obtain ⟨did, turn⟩ := turn
      exact ih.trans turn.reaches

/-- A driven run consists of turns, and `stop` holds of none of the configurations it goes on from.
-/
theorem Driver.turns_going (d : Driver M) (stop : Config S W α → Bool) (fuel : ℕ) (c : Config S W α) :
    Relation.ReflTransGen (fun c c' => stop c = false ∧ ∃ did, TakesTurn M c did c') c
      (d.run stop fuel c) := by
  induction fuel generalizing c with
  | zero => exact .refl
  | succ fuel ih =>
      rw [run]
      split
      · exact .refl
      · rename_i goes
        split
        · exact .refl
        · rename_i c' stepped
          refine .head ⟨Bool.eq_false_iff.mpr goes, ?_⟩ (ih c')
          obtain ⟨p, w⟩ := c
          cases p with
          | ret => cases stepped
          | call o k =>
              simp only [advance, Option.map_eq_some_iff] at stepped
              obtain ⟨⟨r, w'⟩, picked, rfl⟩ := stepped
              obtain ⟨v, star, answer⟩ := d.possible picked
              exact ⟨_, .answer star answer⟩
          | loop body s k =>
              cases stepped
              exact ⟨_, .unroll .refl⟩

theorem Driver.turns (d : Driver M) (stop : Config S W α → Bool) (fuel : ℕ) (c : Config S W α) :
    Turns M c (d.run stop fuel c) :=
  Relation.ReflTransGen.mono (fun _ _ turn => turn.2) _ _ (d.turns_going stop fuel c)

/-- The first turn of a driven run that begins with a call, and the turns that come after it. -/
theorem Driver.turns_picked (d : Driver M) {stop : Config S W α → Bool} {fuel : ℕ}
    {c : Config S W α} {o : S.Op} {r : S.Res o} {w' : W} (next : c.prog.next = some o)
    (picked : d.pick c.world o = some (r, w')) (goes : stop c = false) :
    ∃ c', TakesTurn M c (some ⟨o, r⟩) c' ∧ Turns M c' (d.run stop (fuel + 1) c) := by
  obtain ⟨k, left⟩ := Prog.next_eq next
  obtain ⟨p, w⟩ := c
  subst left
  obtain ⟨v, star, answer⟩ := d.possible picked
  refine ⟨⟨k r, w'⟩, .answer star answer, ?_⟩
  have stepped : d.advance ⟨.call o k, w⟩ = some ⟨k r, w'⟩ := by
    rw [advance, show d.pick w o = some (r, w') from picked]
    rfl
  rw [run, goes, stepped]
  exact d.turns stop fuel _

/-- The semantics that answers as `M` does in worlds of `J`, provided that the answer keeps `J`, and
gives any answer elsewhere. -/
def Semantics.under (M : Semantics S W) (J : W → Prop) : Semantics S W where
  interfere _ _ := False
  answer w o r w' := J w → J w' ∧ ∃ v, Relation.ReflTransGen M.interfere w v ∧ M.answer v o r w'

theorem Semantics.under_star {J : W → Prop} {w v : W}
    (star : Relation.ReflTransGen (M.under J).interfere w v) : v = w := by
  induction star with
  | refl => rfl
  | tail _ step => exact step.elim

/-- Turns of the semantics under `J` that begin in a world of `J` are turns of `M`, and end in such
a world. -/
theorem Turns.of_under {J : W → Prop} {c c' : Config S W α} (turns : Turns (M.under J) c c')
    (here : J c.world) : Turns M c c' ∧ J c'.world := by
  induction turns with
  | refl => exact ⟨.refl, here⟩
  | tail _ turn ih =>
      obtain ⟨before, there⟩ := ih
      obtain ⟨did, turn⟩ := turn
      cases turn with
      | answer star answer =>
          cases Semantics.under_star star
          obtain ⟨kept, v, others, answer⟩ := answer there
          exact ⟨before.tail ⟨_, .answer others answer⟩, kept⟩
      | unroll star =>
          cases Semantics.under_star star
          exact ⟨before.tail ⟨_, .unroll .refl⟩, there⟩
      | returned star =>
          cases Semantics.under_star star
          exact ⟨before.tail ⟨_, .returned .refl⟩, there⟩
      | gone never star =>
          cases Semantics.under_star star
          exact ⟨before.tail ⟨_, .gone never .refl⟩, there⟩

/-- One interleaving of the program from `c` to its end, or without end: the configuration at every
turn, and the call that was made. -/
structure Execution (M : Semantics S W) (c : Config S W α) where
  conf : ℕ → Config S W α
  did : ℕ → Option (Did S)
  start : conf 0 = c
  goes : ∀ n, TakesTurn M (conf n) (did n) (conf (n + 1))

namespace Execution

variable {c c₀ : Config S W α} {e : Execution M c₀} {n m : ℕ}

/-- The program has returned at some turn. -/
def Returns (e : Execution M c₀) : Prop := ∃ n a w, e.conf n = ⟨.ret a, w⟩

/-! ## One turn -/

theorem turn_call {o : S.Op} {k : S.Res o → Prog S α} {w : W} (comesBack : Nonempty (S.Res o))
    (here : e.conf n = ⟨.call o k, w⟩) :
    ∃ r w', e.did n = some ⟨o, r⟩ ∧ e.conf (n + 1) = ⟨k r, w'⟩ := by
  have turn := e.goes n
  rw [here] at turn
  generalize e.did n = did at turn
  generalize e.conf (n + 1) = c at turn
  cases turn with
  | @answer _ _ r _ _ w' => exact ⟨r, w', rfl, rfl⟩
  | gone never => exact never.elim comesBack.some

theorem turn_loop {body : σ → Prog S (σ ⊕ β)} {s : σ} {k : β → Prog S α} {w : W}
    (here : e.conf n = ⟨.loop body s k, w⟩) :
    e.did n = none ∧ ∃ w', e.conf (n + 1) = ⟨(body s).bind (.again body k), w'⟩ := by
  have turn := e.goes n
  rw [here] at turn
  generalize e.did n = did at turn
  generalize e.conf (n + 1) = c at turn
  cases turn with
  | unroll => exact ⟨rfl, _, rfl⟩

/-- A turn at a loop makes no call, and leaves the first round of the loop to do after the steps of
the others. -/
theorem turns_round {body : σ → Prog S (σ ⊕ β)} {s : σ} {k : β → Prog S α} {w : W}
    (here : e.conf n = ⟨.loop body s k, w⟩) :
    e.did n = none ∧ ∃ w', Relation.ReflTransGen M.interfere w w' ∧
      e.conf (n + 1) = ⟨(body s).bind (.again body k), w'⟩ := by
  have turn := e.goes n
  rw [here] at turn
  generalize e.did n = did at turn
  generalize e.conf (n + 1) = c at turn
  cases turn with
  | unroll others => exact ⟨rfl, _, others, rfl⟩

theorem turn_ret {a : α} {w : W} (here : e.conf n = ⟨.ret a, w⟩) :
    e.did n = none ∧ ∃ w', e.conf (n + 1) = ⟨.ret a, w'⟩ := by
  have turn := e.goes n
  rw [here] at turn
  generalize e.did n = did at turn
  generalize e.conf (n + 1) = c at turn
  cases turn with
  | returned => exact ⟨rfl, _, rfl⟩

theorem stays_returned {a : α} {w : W} (here : e.conf n = ⟨.ret a, w⟩) (later : n ≤ m) :
    ∃ w', e.conf m = ⟨.ret a, w'⟩ := by
  induction m, later using Nat.le_induction with
  | base => exact ⟨w, here⟩
  | succ m _ ih => exact (turn_ret ih.choose_spec).2

/-- A program that has returned makes no call any more. -/
theorem did_returned {a : α} {w : W} (here : e.conf n = ⟨.ret a, w⟩) (later : n ≤ m) :
    e.did m = none :=
  (turn_ret (stays_returned here later).choose_spec).1

/-- A turn with a call is an answer of the semantics, in the world that the others have left. -/
theorem answered {o : S.Op} {r : S.Res o} (made : e.did n = some ⟨o, r⟩) :
    ∃ v, Relation.ReflTransGen M.interfere (e.conf n).world v ∧
      M.answer v o r (e.conf (n + 1)).world := by
  have turn := e.goes n
  rw [made] at turn
  generalize e.conf n = c at turn
  generalize e.conf (n + 1) = c' at turn
  cases turn with
  | answer star answer => exact ⟨_, star, answer⟩

/-- A program that is about to make a call without a result makes no step any more. -/
theorem stays_gone {o : S.Op} {k : S.Res o → Prog S α} {w : W} (never : IsEmpty (S.Res o))
    (here : e.conf n = ⟨.call o k, w⟩) (later : n ≤ m) : ∃ w', e.conf m = ⟨.call o k, w'⟩ := by
  induction m, later using Nat.le_induction with
  | base => exact ⟨w, here⟩
  | succ m _ ih =>
      obtain ⟨w', there⟩ := ih
      have turn := e.goes m
      rw [there] at turn
      generalize e.did m = did at turn
      generalize e.conf (m + 1) = c at turn
      cases turn with
      | @answer _ _ r => exact never.elim r
      | gone => exact ⟨_, rfl⟩

/-- A program that returns in an execution is never about to make a call without a result there. -/
theorem comes_back_of_returns {o : S.Op} {k : S.Res o → Prog S α} {w : W}
    (never : IsEmpty (S.Res o)) (returns : e.Returns) : e.conf n ≠ ⟨.call o k, w⟩ := by
  intro here
  obtain ⟨m, a, v, ended⟩ := returns
  obtain ⟨w', gone⟩ := stays_gone never here (Nat.le_max_left n m)
  obtain ⟨w'', returned⟩ := stays_returned ended (Nat.le_max_right n m)
  cases gone.symm.trans returned

theorem reaches (e : Execution M c₀) (n : ℕ) : Reaches M c₀ (e.conf n) := by
  induction n with
  | zero =>
      rw [e.start]
  | succ n ih => exact ih.trans (e.goes n).reaches

/-! ## Turns of a program that is alone -/

theorem star_alone (alone : ∀ w w', ¬ M.interfere w w') {w w' : W}
    (star : Relation.ReflTransGen M.interfere w w') : w' = w := by
  induction star with
  | refl => rfl
  | tail _ step => exact absurd step (alone _ _)

theorem call_alone (alone : ∀ w w', ¬ M.interfere w w') {o : S.Op} {k : S.Res o → Prog S α} {w : W}
    (comesBack : Nonempty (S.Res o)) (here : e.conf n = ⟨.call o k, w⟩) :
    ∃ r w', e.did n = some ⟨o, r⟩ ∧ M.answer w o r w' ∧ e.conf (n + 1) = ⟨k r, w'⟩ := by
  obtain ⟨r, w', did, there⟩ := turn_call comesBack here
  obtain ⟨v, star, answer⟩ := answered did
  rw [here] at star
  rw [there, star_alone alone star] at answer
  exact ⟨r, w', did, answer, there⟩

theorem loop_alone (alone : ∀ w w', ¬ M.interfere w w') {body : σ → Prog S (σ ⊕ β)} {s : σ}
    {k : β → Prog S α} {w : W} (here : e.conf n = ⟨.loop body s k, w⟩) :
    e.did n = none ∧ e.conf (n + 1) = ⟨(body s).bind (.again body k), w⟩ := by
  have turn := e.goes n
  rw [here] at turn
  generalize e.did n = did at turn
  generalize e.conf (n + 1) = c at turn
  cases turn with
  | unroll star => exact ⟨rfl, by rw [star_alone alone star]⟩

/-! ## Some turns -/

/-- From the `n`-th turn on the execution comes to a turn where `goal` holds, and all calls on the
way are in `X`. -/
def Leads (e : Execution M c₀) (X : (o : S.Op) → S.Res o → Prop) (n : ℕ) (goal : ℕ → Prop) :
    Prop :=
  ∃ m, n ≤ m ∧ goal m ∧ ∀ i, n ≤ i → i < m → ∀ o r, e.did i = some ⟨o, r⟩ → X o r

variable {X Y : (o : S.Op) → S.Res o → Prop} {goal goal' : ℕ → Prop}

theorem Leads.now (here : goal n) : e.Leads X n goal :=
  ⟨n, Nat.le_refl n, here, fun _ from_ before => absurd before (Nat.not_lt.2 from_)⟩

theorem Leads.next (first : ∀ o r, e.did n = some ⟨o, r⟩ → X o r)
    (rest : e.Leads X (n + 1) goal) : e.Leads X n goal := by
  obtain ⟨m, later, there, calls⟩ := rest
  refine ⟨m, Nat.le_of_succ_le later, there, fun i from_ before => ?_⟩
  rcases Nat.eq_or_lt_of_le from_ with rfl | after
  · exact first
  · exact calls i after before

theorem Leads.trans (first : e.Leads X n goal) (rest : ∀ m, n ≤ m → goal m → e.Leads X m goal') :
    e.Leads X n goal' := by
  obtain ⟨m, later, there, calls⟩ := first
  obtain ⟨m', later', there', calls'⟩ := rest m later there
  refine ⟨m', Nat.le_trans later later', there', fun i from_ before => ?_⟩
  rcases Nat.lt_or_ge i m with inside | after
  · exact calls i from_ inside
  · exact calls' i after before

theorem Leads.mono (lead : e.Leads X n goal) (calls : ∀ o r, X o r → Y o r)
    (goals : ∀ m, n ≤ m → goal m → goal' m) : e.Leads Y n goal' := by
  obtain ⟨m, later, there, made⟩ := lead
  exact ⟨m, later, goals m later there, fun i from_ before o r did =>
    calls o r (made i from_ before o r did)⟩

/-- What leads to itself again and again, and never in no time, comes round after any number of
turns. -/
theorem Leads.again_and_again {P : ℕ → Prop} (here : P n)
    (again : ∀ m, n ≤ m → P m → e.Leads X m fun m' => m < m' ∧ P m') (k : ℕ) :
    e.Leads X n fun m => n + k ≤ m ∧ P m := by
  induction k with
  | zero => exact .now ⟨Nat.le_refl n, here⟩
  | succ k ih =>
      refine ih.trans fun m later there => ?_
      refine (again m later there.2).mono (fun _ _ call => call) fun m' _ there' => ⟨?_, there'.2⟩
      have order := there.1
      have order' := there'.1
      omega

/-- All calls that are made while something comes round again and again are in `X`. -/
theorem Leads.all {P : ℕ → Prop} (here : P n)
    (again : ∀ m, n ≤ m → P m → e.Leads X m fun m' => m < m' ∧ P m') {i : ℕ} (later : n ≤ i)
    {o : S.Op} {r : S.Res o} (did : e.did i = some ⟨o, r⟩) : X o r := by
  obtain ⟨m, -, ⟨after, -⟩, calls⟩ := Leads.again_and_again here again (i + 1)
  exact calls i later (by omega) o r did

/-- What the others and the calls on the way keep still holds when the goal is reached. -/
theorem Leads.keeps {J : W → Prop} (stable : Stable M J)
    (kept : ∀ o r w w', X o r → J w → M.answer w o r w' → J w') (lead : e.Leads X n goal)
    (here : J (e.conf n).world) : e.Leads X n fun m => goal m ∧ J (e.conf m).world := by
  obtain ⟨m, later, there, calls⟩ := lead
  refine ⟨m, later, ⟨there, ?_⟩, calls⟩
  -- turn by turn up to the goal
  suffices h : ∀ i, n ≤ i → i ≤ m → J (e.conf i).world from h m later (Nat.le_refl m)
  intro i from_
  induction i, from_ using Nat.le_induction with
  | base => exact fun _ => here
  | succ i from_ ih =>
      intro before
      have now := ih (Nat.le_of_succ_le before)
      have turn := e.goes i
      generalize made : e.did i = did at turn
      generalize e.conf i = c at turn now
      generalize e.conf (i + 1) = c' at turn
      cases turn with
      | answer others answer =>
          exact kept _ _ _ _ (calls i from_ before _ _ made) (stable.star now others) answer
      | unroll others => exact stable.star now others
      | returned others => exact stable.star now others
      | gone _ others => exact stable.star now others

end Execution

/-! ## What is over after finitely many calls -/

/-- `p` is over after finitely many calls of `X`, as long as their results are in `R`, and
its result meets `Q`. -/
def Halts (X : S.Op → Prop) (R : (o : S.Op) → S.Res o → Prop) {α : Type} :
    Prog S α → (α → Prop) → Prop
  | .ret a, Q => Q a
  | .call o k, Q => X o ∧ ∀ r, R o r → Halts X R (k r) Q
  | .loop (σ := σ) body _ k, Q =>
      ∃ rank : σ → ℕ, ∀ s, Halts X R (body s)
        (Sum.elim (fun s' => rank s' < rank s) fun b => Halts X R (k b) Q)

section Halts

variable {X : S.Op → Prop} {R : (o : S.Op) → S.Res o → Prop}

theorem Halts.mono {p : Prog S α} {Q Q' : α → Prop} (weaker : ∀ a, Q a → Q' a)
    (h : Halts X R p Q) : Halts X R p Q' := by
  induction p with
  | ret a => exact weaker a h
  | call o k ih => exact ⟨h.1, fun r given => ih r weaker (h.2 r given)⟩
  | loop body s k ihBody ihRest =>
      obtain ⟨rank, round⟩ := h
      refine ⟨rank, fun s => ihBody s ?_ (round s)⟩
      rintro (s' | b) after
      · exact after
      · exact ihRest b weaker after

theorem Halts.subset {Y : S.Op → Prop} {p : Prog S α} {Q : α → Prop} (sub : ∀ o, X o → Y o)
    (h : Halts X R p Q) : Halts Y R p Q := by
  induction p with
  | ret a => exact h
  | call o k ih => exact ⟨sub o h.1, fun r given => ih r (h.2 r given)⟩
  | loop body s k ihBody ihRest =>
      obtain ⟨rank, round⟩ := h
      refine ⟨rank, fun s => (ihBody s (round s)).mono ?_⟩
      rintro (s' | b) after
      · exact after
      · exact ihRest b after

/-- A program that halts by calls of `X` makes calls of `X` only. -/
theorem Halts.only {p : Prog S α} {Q : α → Prop} (h : Halts X R p Q) : Only X R p Q := by
  induction p with
  | ret a => exact h
  | call o k ih => exact ⟨h.1, fun r given => ih r (h.2 r given)⟩
  | loop body s k ihBody ihRest =>
      obtain ⟨rank, round⟩ := h
      refine ⟨fun _ => True, trivial, fun s _ => (ihBody s (round s)).mono ?_⟩
      rintro (s' | b) after
      · trivial
      · exact ihRest b after

theorem Halts.ret {a : α} {Q : α → Prop} (h : Q a) : Halts X R (.ret a) Q := h

theorem Halts.bind {p : Prog S α} {f : α → Prog S β} {T : α → Prop} {Q : β → Prop}
    (first : Halts X R p T) (rest : ∀ a, T a → Halts X R (f a) Q) :
    Halts X R (p.bind f) Q := by
  induction p with
  | ret a => exact rest a first
  | call o k ih => exact ⟨first.1, fun r given => ih r (first.2 r given) rest⟩
  | loop body s k ihBody ihRest =>
      obtain ⟨rank, round⟩ := first
      refine ⟨rank, fun s => (round s).mono ?_⟩
      rintro (s' | b) after
      · exact after
      · exact ihRest b after rest

theorem Halts.perform {o : S.Op} {Q : S.Res o → Prop} (h : X o) (post : ∀ r, R o r → Q r) :
    Halts X R (Prog.perform o) Q :=
  ⟨h, post⟩

theorem Halts.iterate {body : σ → Prog S (σ ⊕ β)} {s : σ} {Q : β → Prop} (rank : σ → ℕ)
    (round : ∀ s, Halts X R (body s) (Sum.elim (fun s' => rank s' < rank s) Q)) :
    Halts X R (Prog.iterate body s) Q :=
  ⟨rank, round⟩

variable {c₀ : Config S W β} {e : Execution M c₀}

/-- In every execution a program that halts comes to its end, if its calls come back with results in
`R`. -/
theorem Halts.leads (given : ∀ n o r, e.did n = some ⟨o, r⟩ → R o r)
    (comesBack : ∀ o, X o → Nonempty (S.Res o)) {p : Prog S α} {Q : α → Prop}
    (halts : Halts X R p Q) {f : α → Prog S β} {n : ℕ} {w : W}
    (here : e.conf n = ⟨p.bind f, w⟩) :
    e.Leads (fun o _ => X o) n fun m => ∃ a w', Q a ∧ e.conf m = ⟨f a, w'⟩ := by
  induction p generalizing n w with
  | ret a => exact .now ⟨a, w, halts, here⟩
  | call o k ih =>
      obtain ⟨r, w', made, there⟩ := Execution.turn_call (comesBack o halts.1) here
      refine .next ?_ (ih r (halts.2 r (given n o r made)) there)
      intro o' r' did
      cases made.symm.trans did
      exact halts.1
  | loop body s k ihBody ihRest =>
      obtain ⟨rank, round⟩ := halts
      -- by induction on the rank of the state the loop is in
      induction ranked : rank s using Nat.strong_induction_on generalizing s n w with
      | _ x ih =>
          obtain ⟨silent, w', there⟩ := Execution.turn_loop here
          refine .next (by rw [silent]; exact nofun) ?_
          refine (ihBody s (round s) there).trans fun m _ arrived => ?_
          obtain ⟨s' | b, w'', after, there'⟩ := arrived
          · subst ranked
            exact ih (rank s') after s' there' rfl
          · exact ihRest b after there'

end Halts

/-! ## Making executions -/

namespace Execution

variable {c c' : Config S W α}

/-- The execution that takes the given turn first and then goes on as `e`. -/
def cons {did : Option (Did S)} (turn : TakesTurn M c did c') (e : Execution M c') :
    Execution M c where
  conf
    | 0 => c
    | n + 1 => e.conf n
  did
    | 0 => did
    | n + 1 => e.did n
  start := rfl
  goes
    | 0 => by
        show TakesTurn M c did (e.conf 0)
        rw [e.start]
        exact turn
    | n + 1 => e.goes n

theorem returns_of_cons {did : Option (Did S)} {turn : TakesTurn M c did c'} {e : Execution M c'}
    (returns : (e.cons turn).Returns) : e.Returns := by
  obtain ⟨n, a, w, ended⟩ := returns
  obtain ⟨w', ended'⟩ := stays_returned ended (Nat.le_succ n)
  exact ⟨n, a, w', ended'⟩

/-- Turns that begin where `P` holds can be put before an execution. -/
theorem exists_along {P : Config S W α → Prop}
    (turns : Relation.ReflTransGen (fun c c' => P c ∧ ∃ did, TakesTurn M c did c') c c')
    (e : Execution M c') :
    ∃ (e' : Execution M c) (n : ℕ), (∀ m, e'.conf (n + m) = e.conf m) ∧ ∀ i < n, P (e'.conf i) := by
  induction turns using Relation.ReflTransGen.head_induction_on with
  | refl =>
    exact ⟨e, 0, fun m => by rw [Nat.zero_add], fun i before => absurd before (Nat.not_lt_zero i)⟩
  | head turn _ ih =>
      obtain ⟨here, did, turn⟩ := turn
      obtain ⟨e', n, same, along⟩ := ih
      refine ⟨e'.cons turn, n + 1, fun m => by rw [Nat.succ_add]; exact same m, fun i before => ?_⟩
      cases i with
      | zero => exact here
      | succ i => exact along i (Nat.lt_of_succ_lt_succ before)

theorem exists_after (turns : Turns M c c') (e : Execution M c') :
    ∃ (e' : Execution M c) (n : ℕ), ∀ m, e'.conf (n + m) = e.conf m := by
  obtain ⟨e', n, same, -⟩ := exists_along (P := fun _ => True)
    (Relation.ReflTransGen.mono (fun _ _ turn => ⟨trivial, turn⟩) _ _ turns) e
  exact ⟨e', n, same⟩

/-- Some turns and one more, whose call is known, can be put before an execution. -/
theorem exists_through {c'' : Config S W α} {did : Option (Did S)} (turns : Turns M c c')
    (turn : TakesTurn M c' did c'') (e : Execution M c'') :
    ∃ (e' : Execution M c) (n : ℕ), e'.conf n = c' ∧ e'.did n = did ∧
      ∀ m, e'.conf (n + m + 1) = e.conf m := by
  induction turns using Relation.ReflTransGen.head_induction_on with
  | refl => exact ⟨e.cons turn, 0, rfl, rfl, fun m => congrArg e.conf (Nat.zero_add m)⟩
  | head before _ ih =>
      obtain ⟨did', before⟩ := before
      obtain ⟨e', n, there, made, same⟩ := ih
      refine ⟨e'.cons before, n + 1, there, made, fun m => ?_⟩
      rw [Nat.add_right_comm n 1 m]
      exact same m

/-- The execution of a program that has returned, which does nothing. -/
def rest (a : α) (w : W) : Execution M (⟨.ret a, w⟩ : Config S W α) where
  conf _ := ⟨.ret a, w⟩
  did _ := none
  start := rfl
  goes _ := .returned .refl

theorem turns_ret {a : α} {w : W} (turns : Turns M ⟨.ret a, w⟩ c) : ∃ w', c = ⟨.ret a, w'⟩ := by
  induction turns with
  | refl => exact ⟨w, rfl⟩
  | tail _ turn ih =>
      obtain ⟨w', rfl⟩ := ih
      obtain ⟨did, turn⟩ := turn
      cases turn with
      | returned => exact ⟨_, rfl⟩

/-- If a turn can always be taken that keeps `P`, there is an execution where `P` holds at every
turn. -/
theorem exists_forever {P : Config S W α → Prop}
    (go : ∀ c, P c → ∃ did c', TakesTurn M c did c' ∧ P c') (here : P c) :
    ∃ e : Execution M c, ∀ n, P (e.conf n) := by
  choose did next turn kept using go
  let conf : ℕ → { c // P c } := fun n =>
    Nat.rec ⟨c, here⟩ (fun _ d => ⟨next d.1 d.2, kept d.1 d.2⟩) n
  exact ⟨⟨fun n => (conf n).1, fun n => did (conf n).1 (conf n).2, rfl,
    fun n => turn (conf n).1 (conf n).2⟩, fun n => (conf n).2⟩

/-- If every call that comes back is answered where `P` holds, in a way that keeps `P`, there is an
execution from there. -/
theorem exists_where {P : W → Prop}
    (answered : ∀ w o, P w → Nonempty (S.Res o) → ∃ r w', M.answer w o r w' ∧ P w')
    {c : Config S W α} (here : P c.world) : Nonempty (Execution M c) := by
  have go : ∀ c : Config S W α, P c.world → ∃ did c', TakesTurn M c did c' ∧ P c'.world := by
    rintro ⟨p, w⟩ here
    cases p with
    | ret a => exact ⟨_, _, .returned .refl, here⟩
    | loop body s k => exact ⟨_, _, .unroll .refl, here⟩
    | call o k =>
        rcases isEmpty_or_nonempty (S.Res o) with never | comesBack
        · exact ⟨_, _, .gone never .refl, here⟩
        · obtain ⟨r, w', answer, there⟩ := answered w o here comesBack
          exact ⟨_, _, .answer .refl answer, there⟩
  obtain ⟨e, -⟩ := exists_forever go here
  exact ⟨e⟩

/-- If every call that comes back is answered, there is an execution from every configuration. -/
theorem exists_of_answers (answered : ∀ w o, Nonempty (S.Res o) → ∃ r w', M.answer w o r w')
    (c : Config S W α) : Nonempty (Execution M c) := by
  refine exists_where (P := fun _ => True) (fun w o _ comesBack => ?_) trivial
  obtain ⟨r, w', answer⟩ := answered w o comesBack
  exact ⟨r, w', answer, trivial⟩

/-- If `Head` holds again after some turns whenever it holds, there is an execution that never
returns. -/
theorem exists_endless {Head : Config S W α → Prop}
    (round : ∀ c, Head c → ∃ did d, TakesTurn M c did d ∧ ∃ c', Turns M d c' ∧ Head c')
    (notOver : ∀ c a w, Head c → c ≠ ⟨.ret a, w⟩) (turns : Turns M c c') (head : Head c') :
    ∃ e : Execution M c, (∃ n, e.conf n = c') ∧ ¬ e.Returns := by
  have go : ∀ c, (∃ c', Turns M c c' ∧ Head c') →
      ∃ did d, TakesTurn M c did d ∧ ∃ c', Turns M d c' ∧ Head c' := by
    rintro c ⟨c', turns, head⟩
    rcases turns.cases_head with rfl | ⟨d, ⟨did, turn⟩, turns⟩
    · exact round c head
    · exact ⟨did, d, turn, c', turns, head⟩
  obtain ⟨e, always⟩ := exists_forever go ⟨c', .refl, head⟩
  obtain ⟨e', n, same⟩ := exists_after turns e
  refine ⟨e', ⟨n, by rw [← Nat.add_zero n, same, e.start]⟩, ?_⟩
  rintro ⟨m, a, w, ended⟩
  -- once it has returned it comes round no more
  obtain ⟨w', ended'⟩ := stays_returned ended (Nat.le_add_left m n)
  rw [same] at ended'
  obtain ⟨c'', turns, head⟩ := always m
  rw [ended'] at turns
  obtain ⟨w'', rest⟩ := turns_ret turns
  exact notOver c'' a w'' head rest

end Execution

end Interaction
