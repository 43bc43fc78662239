import Mathlib.Data.Nat.Notation
import Mathlib.Logic.Function.Basic
import Zevory.Interaction.Machine

/-!
# Pools of processes

Programs that run side by side, each in a world of its own.  A call may come back
to its caller alone, or copy it: the copy goes on with the same program and another
result.  It may also not come back, and the caller is gone.
-/

namespace Interaction

universe u

variable {S : Signature} {W : Type u} {ι : Type}

/-- What a process has done: made a call that came back, or made one that it has left the pool with.
-/
inductive Deed (S : Signature)
  | called (o : S.Op) (r : S.Res o)
  | left (o : S.Op)

/-- The processes of a pool by name, and what they have done, newest first. -/
structure Pool (S : Signature) (W : Type u) (ι : Type) where
  procs : ι → Option (Config S W Unit)
  trace : List (ι × Deed S)

/-- How the calls of a pool end: with a result for the caller alone, with one for the caller
and one for a copy of it with a name, or never. -/
structure Family (S : Signature) (W : Type u) (ι : Type) where
  sem : Semantics S W
  alone : (o : S.Op) → S.Res o → Prop
  copies : (o : S.Op) → S.Res o → S.Res o → ι → Prop
  leaves : S.Op → Prop

variable [DecidableEq ι] {F : Family S W ι}

namespace Pool

/-- The pool in which the process `i` is in another state, or is gone. -/
def put (pool : Pool S W ι) (i : ι) (c : Option (Config S W Unit)) : Pool S W ι :=
  { pool with procs := Function.update pool.procs i c }

/-- The pool with one more deed of the process `i` in its trace. -/
def did (pool : Pool S W ι) (i : ι) (d : Deed S) : Pool S W ι :=
  { pool with trace := (i, d) :: pool.trace }

/-- One step of the process `i`: a round of a loop, or a call, which may also make a copy of it
under a new name or take it out of the pool. -/
inductive Step (F : Family S W ι) (pool : Pool S W ι) (i : ι) : Pool S W ι → Prop
  | unroll {σ β : Type} {body : σ → Prog S (σ ⊕ β)} {s : σ} {k : β → Prog S Unit} {w : W} :
      pool.procs i = some ⟨.loop body s k, w⟩ →
      Step F pool i (pool.put i (some ⟨(body s).bind (.again body k), w⟩))
  | answer {o : S.Op} {k : S.Res o → Prog S Unit} {r : S.Res o} {w w' : W} :
      pool.procs i = some ⟨.call o k, w⟩ → F.alone o r → F.sem.answer w o r w' →
      Step F pool i ((pool.put i (some ⟨k r, w'⟩)).did i (.called o r))
  | copy {o : S.Op} {k : S.Res o → Prog S Unit} {r r' : S.Res o} {j : ι} {w w' v : W} :
      pool.procs i = some ⟨.call o k, w⟩ → F.copies o r r' j → pool.procs j = none →
      F.sem.answer w o r w' → F.sem.answer w o r' v →
      Step F pool i (((pool.put i (some ⟨k r, w'⟩)).put j (some ⟨k r', v⟩)).did i (.called o r))
  | leave {o : S.Op} {k : S.Res o → Prog S Unit} {w : W} :
      pool.procs i = some ⟨.call o k, w⟩ → F.leaves o →
      Step F pool i ((pool.put i none).did i (.left o))

/-- The pools that are reached when only processes go on that the scheduler may let go on. -/
abbrev Runs (F : Family S W ι) (may : Pool S W ι → ι → Prop) : Pool S W ι → Pool S W ι → Prop :=
  Relation.ReflTransGen fun pool pool' => ∃ i, may pool i ∧ Step F pool i pool'

variable {pool pool' : Pool S W ι} {i j : ι} {c : Config S W Unit}

theorem put_same (c : Option (Config S W Unit)) : (pool.put i c).procs i = c := by
  simp [put]

theorem put_other (c : Option (Config S W Unit)) (ne : j ≠ i) :
    (pool.put i c).procs j = pool.procs j := by
  simp [put, ne]

/-- What holds of every process and the trace after a step: it is enough to look at the one
that has taken the step and at its copy. -/
theorem Step.each {P : ι → Config S W Unit → Prop} (step : Step F pool i pool')
    (others : ∀ j c, pool.procs j = some c → P j c)
    (unroll : ∀ {σ β : Type} {body : σ → Prog S (σ ⊕ β)} {s : σ} {k : β → Prog S Unit} {w : W},
      pool.procs i = some ⟨.loop body s k, w⟩ → P i ⟨(body s).bind (.again body k), w⟩)
    (answer : ∀ {o k r w w'}, pool.procs i = some ⟨.call o k, w⟩ → F.sem.answer w o r w' →
      (F.alone o r ∨ ∃ r' j, F.copies o r r' j) → P i ⟨k r, w'⟩)
    (copy : ∀ {o k r r' j w w'}, pool.procs i = some ⟨.call o k, w⟩ → F.copies o r r' j →
      F.sem.answer w o r' w' → P j ⟨k r', w'⟩) :
    ∀ j c, pool'.procs j = some c → P j c := by
  intro j c is
  -- the process that has taken the step, or another one
  have put : ∀ {pool : Pool S W ι} {i d}, (∀ j c, pool.procs j = some c → P j c) → P i d →
      ∀ j c, (pool.put i (some d)).procs j = some c → P j c := by
    intro pool i d others now j c is
    by_cases same : j = i
    · subst same
      rw [put_same] at is
      cases is
      exact now
    · rw [put_other _ same] at is
      exact others j c is
  cases step with
  | unroll here => exact put others (unroll here) j c is
  | answer here alone answered => exact put others (answer here answered (.inl alone)) j c is
  | copy here copies _ answered answered' =>
      have first := put others (answer here answered (.inr ⟨_, _, copies⟩))
      exact put first (copy here copies answered') j c is
  | leave here =>
      by_cases same : j = i
      · subst same
        change (pool.put j none).procs j = some c at is
        rw [put_same] at is
        cases is
      · change (pool.put i none).procs j = some c at is
        rw [put_other _ same] at is
        exact others j c is

/-- A step adds to the trace what the process has done, if anything. -/
theorem Step.trace (step : Step F pool i pool') :
    pool'.trace = pool.trace ∨ ∃ o k w, pool.procs i = some ⟨.call o k, w⟩ ∧
      ((∃ r, pool'.trace = (i, .called o r) :: pool.trace) ∨
        F.leaves o ∧ pool'.trace = (i, .left o) :: pool.trace) := by
  cases step with
  | unroll => exact .inl rfl
  | answer here => exact .inr ⟨_, _, _, here, .inl ⟨_, rfl⟩⟩
  | copy here => exact .inr ⟨_, _, _, here, .inl ⟨_, rfl⟩⟩
  | leave here leaves => exact .inr ⟨_, _, _, here, .inr ⟨leaves, rfl⟩⟩

/-- A scheduler that lets more processes go on has these runs too. -/
theorem Runs.mono {may may' : Pool S W ι → ι → Prop} (freer : ∀ pool i, may pool i → may' pool i)
    (runs : Runs F may pool pool') : Runs F may' pool pool' := by
  induction runs with
  | refl => exact .refl
  | tail _ step ih =>
      obtain ⟨i, lets, step⟩ := step
      exact ih.tail ⟨i, freer _ i lets, step⟩

/-- Every process of a pool, whether a copy or not, is at a point that is reached by the program the
pool began with. -/
theorem Runs.reaches {may : Pool S W ι → ι → Prop} {first : Config S W Unit}
    (runs : Runs F may pool pool')
    (start : ∀ i c, pool.procs i = some c → Reaches F.sem first c) :
    ∀ i c, pool'.procs i = some c → Reaches F.sem first c := by
  induction runs with
  | refl => exact start
  | tail _ step ih =>
      obtain ⟨i, -, step⟩ := step
      refine step.each ih (fun here => ?_) (fun here answer _ => ?_) fun here _ answer => ?_
      · exact (ih i _ here).tail .unroll
      · exact (ih i _ here).tail (.answer answer)
      · exact (ih i _ here).tail (.answer answer)

end Pool

/-! ## Scheduled runs -/

/-- What a call comes to: a result, a result and a copy of the process, or the end of the process.
-/
inductive Turn (S : Signature) (W : Type u) (ι : Type) (o : S.Op)
  | answer (r : S.Res o) (w : W)
  | copy (r : S.Res o) (w : W) (r' : S.Res o) (v : W) (j : ι)
  | leave

/-- The turn is one that the family allows for a call of a process in the world `w`. -/
def Turn.Fits (F : Family S W ι) (pool : Pool S W ι) (w : W) {o : S.Op} : Turn S W ι o → Prop
  | .answer r w' => F.alone o r ∧ F.sem.answer w o r w'
  | .copy r w' r' v j =>
      F.copies o r r' j ∧ pool.procs j = none ∧ F.sem.answer w o r w' ∧ F.sem.answer w o r' v
  | .leave => F.leaves o

/-- The process that goes on in a pool, and what its call comes to. -/
structure Schedule (F : Family S W ι) where
  who : Pool S W ι → ι
  turn : Pool S W ι → W → (o : S.Op) → Option (Turn S W ι o)
  fits : ∀ {pool w o t}, turn pool w o = some t → t.Fits F pool w

namespace Schedule

/-- The pool after a turn. -/
def take (pool : Pool S W ι) (i : ι) {o : S.Op} (k : S.Res o → Prog S Unit) :
    Turn S W ι o → Pool S W ι
  | .answer r w => (pool.put i (some ⟨k r, w⟩)).did i (.called o r)
  | .copy r w r' v j =>
      ((pool.put i (some ⟨k r, w⟩)).put j (some ⟨k r', v⟩)).did i (.called o r)
  | .leave => (pool.put i none).did i (.left o)

/-- The next pool: the process that is scheduled takes its turn, or a round of its loop. -/
def advance (d : Schedule F) (pool : Pool S W ι) : Option (Pool S W ι) :=
  match pool.procs (d.who pool) with
  | some ⟨.call o k, w⟩ => (d.turn pool w o).map (take pool (d.who pool) k)
  | some ⟨.loop body s k, w⟩ =>
      some (pool.put (d.who pool) (some ⟨(body s).bind (.again body k), w⟩))
  | some ⟨.ret _, _⟩ => none
  | none => none

/-- Run until `stop` holds or the next process may not go on, for at most the given number
of steps. -/
def run (d : Schedule F) (may : Pool S W ι → ι → Bool) (stop : Pool S W ι → Bool) :
    ℕ → Pool S W ι → Pool S W ι
  | 0, pool => pool
  | fuel + 1, pool =>
      if stop pool || !may pool (d.who pool) then pool
      else match d.advance pool with
        | none => pool
        | some pool' => run d may stop fuel pool'

theorem advance_step (d : Schedule F) {pool pool' : Pool S W ι} (h : d.advance pool = some pool') :
    Pool.Step F pool (d.who pool) pool' := by
  unfold advance at h
  split at h
  · rename_i o k w here
    obtain ⟨t, turn, rfl⟩ := Option.map_eq_some_iff.mp h
    have fits := d.fits turn
    cases t with
    | answer r w' => exact .answer here fits.1 fits.2
    | copy r w' r' v j => exact .copy here fits.1 fits.2.1 fits.2.2.1 fits.2.2.2
    | leave => exact .leave here fits
  · rename_i here
    cases h
    exact .unroll here
  · cases h
  · cases h

/-- Every pool that a schedule computes is reached by a run. -/
theorem runs (d : Schedule F) (may : Pool S W ι → ι → Bool) (stop : Pool S W ι → Bool) (fuel : ℕ)
    (pool : Pool S W ι) :
    Pool.Runs F (fun pool i => may pool i) pool (d.run may stop fuel pool) := by
  induction fuel generalizing pool with
  | zero => exact .refl
  | succ fuel ih =>
      rw [run]
      split
      · exact .refl
      · rename_i going
        have may_ : may pool (d.who pool) := by
          simp only [Bool.or_eq_true, not_or, Bool.not_eq_true, Bool.not_eq_false'] at going
          exact going.2
        split
        · exact .refl
        · rename_i pool' stepped
          exact .head ⟨_, may_, d.advance_step stepped⟩ (ih pool')

end Schedule

end Interaction
