import Mathlib.Data.Nat.Notation
import Zevory.Interaction.Triple

/-!
# Scripts that stop at the first failure

A script performs commands, each of which succeeds or fails; under `set -e` it
stops with a nonzero exit status at the first one that fails outside a condition.
`Sh C` is the monad of such scripts over commands of type `C`: a program that may
end early with an exit status.  `Tools C W` says what a command does to a world of
type `W` when it succeeds, and what it may leave behind when it fails.

`Sh.Triple` is the triple of a script, with one assertion for going on and one for
every exit status it may stop with; `Sh.status` is the script as a program whose
result is its exit status.
-/

namespace Interaction

universe u

/-- Commands of type `C`, each of which succeeds or fails. -/
abbrev Commands (C : Type) : Signature := ⟨C, fun _ => Bool⟩

/-- What a command does to a world of type `W` when it succeeds, and what it may leave behind when
it fails. -/
structure Tools (C : Type) (W : Type u) where
  done : W → C → W → Prop
  fails : W → C → W → Prop

/-- The semantics of commands in a world that nobody else touches: the result of a command says
whether it has succeeded. -/
def Tools.sem {C : Type} {W : Type u} (T : Tools C W) : Semantics (Commands C) W where
  interfere _ _ := False
  answer w c ok w' := if ok then T.done w c w' else T.fails w c w'

/-- A script: a program over commands that may stop with an exit status. -/
abbrev Sh (C : Type) : Type → Type 1 := ExceptT ℕ (Prog (Commands C))

namespace Sh

variable {C : Type} {W : Type u} {α β : Type}

/-- `c || exit n` -/
def orExit (c : C) (n : ℕ) : Sh C Unit :=
  .mk (.call c fun ok => .ret (if ok then .ok () else .error n))

/-- A command under `set -e`.  A shell stops with the exit status of the command that has failed;
here a command either succeeds or fails, and the status of one that fails is always 1.  Only
whether an exit status is zero means something. -/
def cmd (c : C) : Sh C Unit := orExit c 1

/-- `if c; then exit n; fi` -/
def exitIf (c : C) (n : ℕ) : Sh C Unit :=
  .mk (.call c fun ok => .ret (if ok then .error n else .ok ()))

/-- `for b in bs; do f b; done` -/
def each (f : β → Sh C Unit) : List β → Sh C Unit
  | [] => pure ()
  | b :: bs => f b >>= fun _ => each f bs

/-- The exit status of a script: 0 when it has gone on to its end, else the one it has stopped with.
-/
def exitStatus : Except ℕ α → ℕ
  | .ok _ => 0
  | .error n => n

/-- The script as a program whose result is its exit status. -/
def status (s : Sh C α) : Prog (Commands C) ℕ :=
  s.run.bind fun r => .ret (exitStatus r)

theorem run_bind (s : Sh C α) (f : α → Sh C β) :
    (s >>= f).run = s.run.bind fun
      | .ok a => (f a).run
      | .error n => .ret (.error n) :=
  congrArg s.run.bind (funext fun r => by cases r <;> rfl)

theorem status_orExit (c : C) (n : ℕ) (f : Unit → Sh C α) :
    (orExit c n >>= f).status = .call c fun ok => if ok then (f ()).status else .ret n := by
  apply congrArg (Prog.call (S := Commands C) c)
  funext ok
  cases ok with
  | true => rfl
  | false => rfl

theorem status_cmd (c : C) (f : Unit → Sh C α) :
    (cmd c >>= f).status = .call c fun ok => if ok then (f ()).status else .ret 1 :=
  status_orExit c 1 f

theorem status_exitIf (c : C) (n : ℕ) (f : Unit → Sh C α) :
    (exitIf c n >>= f).status = .call c fun ok => if ok then .ret n else (f ()).status := by
  apply congrArg (Prog.call (S := Commands C) c)
  funext ok
  cases ok with
  | true => rfl
  | false => rfl

/-! ## Getting on with a script -/

variable {T : Tools C W} {w w' : W} {c : C} {n : ℕ} {f : Unit → Sh C α}
  {goal : Config (Commands C) W ℕ}

theorem orExit_goes_on (h : T.done w c w') (rest : Reaches T.sem ⟨(f ()).status, w'⟩ goal) :
    Reaches T.sem ⟨(orExit c n >>= f).status, w⟩ goal := by
  rw [status_orExit]
  exact Reaches.call true h rest

theorem cmd_goes_on (h : T.done w c w') (rest : Reaches T.sem ⟨(f ()).status, w'⟩ goal) :
    Reaches T.sem ⟨(cmd c >>= f).status, w⟩ goal :=
  orExit_goes_on h rest

theorem exitIf_goes_on (h : T.fails w c w') (rest : Reaches T.sem ⟨(f ()).status, w'⟩ goal) :
    Reaches T.sem ⟨(exitIf c n >>= f).status, w⟩ goal := by
  rw [status_exitIf]
  exact Reaches.call false h rest

/-- A row of commands that all succeed and leave the world as it is goes on to what comes after it.
-/
theorem each_goes_on {bs : List β} {c : β → C} (h : ∀ b ∈ bs, T.done w (c b) w)
    (rest : Reaches T.sem ⟨(f ()).status, w⟩ goal) :
    Reaches T.sem ⟨(each (fun b => orExit (c b) n) bs >>= f).status, w⟩ goal := by
  induction bs with
  | nil => exact rest
  | cons b bs ih =>
      rw [each, bind_assoc]
      apply orExit_goes_on (h b List.mem_cons_self)
      exact ih fun b' hb' => h b' (List.mem_cons_of_mem _ hb')

/-! ## Triples -/

/-- What holds when a script is over: `Q` of its result if it goes on, and `E` of its exit status if
it has stopped. -/
def ends (Q : α → W → Prop) (E : ℕ → W → Prop) : Except ℕ α → W → Prop
  | .ok a => Q a
  | .error n => E n

/-- From every world of `P`, every command of the script meets `guard` when it is
given, and the script goes on in `Q` or stops in `E`. -/
def Triple (T : Tools C W) (guard : C → W → Prop) (P : W → Prop) (s : Sh C α)
    (Q : α → W → Prop) (E : ℕ → W → Prop) : Prop :=
  Interaction.Triple T.sem guard P s.run (ends Q E)

variable {guard : C → W → Prop} {P Q : W → Prop} {E : ℕ → W → Prop}

theorem undisturbed (P : W → Prop) : Stable T.sem P :=
  fun _ _ _ impossible => impossible.elim

theorem ended {Q : α → W → Prop} (r : Except ℕ α) :
    Interaction.Triple T.sem guard (ends Q E r) (.ret r) (ends Q E) :=
  Interaction.Triple.ret (undisturbed _)

theorem Triple.pre {s : Sh C α} {R : α → W → Prop} {P' : W → Prop}
    (h : Triple T guard P s R E) (pre : ∀ w, P' w → P w) : Triple T guard P' s R E :=
  Interaction.Triple.pre h pre

theorem Triple.bind {s : Sh C α} {f : α → Sh C β} {R : α → W → Prop} {R' : β → W → Prop}
    (first : Triple T guard P s R E) (rest : ∀ a, Triple T guard (R a) (f a) R' E) :
    Triple T guard P (s >>= f) R' E := by
  unfold Triple
  rw [run_bind]
  apply Interaction.Triple.bind first
  rintro (n | a)
  · exact ended (Q := R') (.error n)
  · exact rest a

/-- A command that ends a script in one way if it succeeds and in another if it fails. -/
theorem Triple.branch {Q : α → W → Prop} {yes no : Except ℕ α} (met : ∀ w, P w → guard c w)
    (done : ∀ w w', P w → T.done w c w' → ends Q E yes w')
    (fails : ∀ w w', P w → T.fails w c w' → ends Q E no w') :
    Triple T guard P (.mk (.call c fun ok => .ret (if ok then yes else no))) Q E := by
  apply Interaction.Triple.call (R := fun ok => ends Q E (if ok then yes else no)) (undisturbed P) met
  · intro w ok w' hP answer
    cases ok with
    | true => exact done w w' hP answer
    | false => exact fails w w' hP answer
  · exact fun ok => ended _

theorem Triple.orExit (met : ∀ w, P w → guard c w)
    (done : ∀ w w', P w → T.done w c w' → Q w')
    (fails : ∀ w w', P w → T.fails w c w' → E n w') :
    Triple T guard P (orExit c n) (fun _ => Q) E :=
  Triple.branch met done fails

theorem Triple.cmd (met : ∀ w, P w → guard c w)
    (done : ∀ w w', P w → T.done w c w' → Q w')
    (fails : ∀ w w', P w → T.fails w c w' → E 1 w') :
    Triple T guard P (cmd c) (fun _ => Q) E :=
  Triple.orExit met done fails

theorem Triple.exitIf (met : ∀ w, P w → guard c w)
    (done : ∀ w w', P w → T.done w c w' → E n w')
    (fails : ∀ w w', P w → T.fails w c w' → Q w') :
    Triple T guard P (exitIf c n) (fun _ => Q) E :=
  Triple.branch met done fails

/-- A row of tests, each of which must succeed and changes nothing: afterwards all that they tell is
known. -/
theorem Triple.each {c : β → C} {I : W → Prop} {told : β → W → Prop}
    (met : ∀ b w, I w → guard (c b) w)
    (done : ∀ b w w', I w → T.done w (c b) w' → w' = w ∧ told b w)
    (fails : ∀ b w w', I w → T.fails w (c b) w' → E n w') (bs : List β) :
    Triple T guard I (Sh.each (fun b => Sh.orExit (c b) n) bs)
      (fun _ w => I w ∧ ∀ b ∈ bs, told b w) E := by
  suffices h : ∀ P : W → Prop, (∀ w, P w → I w) →
      Triple T guard P (Sh.each (fun b => Sh.orExit (c b) n) bs)
        (fun _ w => P w ∧ ∀ b ∈ bs, told b w) E from h I fun _ h => h
  induction bs with
  | nil =>
      intro P _ w hw
      exact Interaction.Triple.ret (Q := ends (fun _ w => P w ∧ ∀ b ∈ [], told b w) E)
        (undisturbed _) w ⟨hw, fun b hb => nomatch hb⟩
  | cons b bs ih =>
      intro P inside
      rw [Sh.each]
      refine Triple.bind (Triple.orExit (Q := fun w => P w ∧ told b w)
        (fun w hw => met b w (inside w hw)) ?_ fun w w' hw => fails b w w' (inside w hw)) ?_
      · intro w w' hw step
        obtain ⟨rfl, tells⟩ := done b w w' (inside w hw) step
        exact ⟨hw, tells⟩
      · intro _
        refine Interaction.Triple.post (ih (fun w => P w ∧ told b w) fun w h => inside w h.1) ?_
        rintro (n | ⟨⟩) w after
        · exact after
        · obtain ⟨⟨hw, tells⟩, rest⟩ := after
          exact ⟨hw, List.forall_mem_cons.2 ⟨tells, rest⟩⟩

/-- A script with a triple, run from a world of `P`, either goes on to its end with exit status 0 or
stops with one that `E` allows. -/
theorem Triple.safe {s : Sh C α} {R : α → W → Prop} (h : Triple T guard P s R E) (start : P w) :
    Safe T.sem guard s.status (fun n w => n = 0 ∧ (∃ a, R a w) ∨ E n w) w := by
  refine Safe.bind ((h w start).mono fun r v ended v' others => ?_)
  obtain rfl : v' = v := by
    induction others with
    | refl => rfl
    | tail _ impossible => exact impossible.elim
  cases r with
  | ok a => exact .inl ⟨rfl, a, ended⟩
  | error n => exact .inr ended

/-- **Soundness.** Every command that a script with a triple comes to give meets the guard in the
world it is given in. -/
theorem Triple.guarded {s : Sh C α} {R : α → W → Prop} (h : Triple T guard P s R E)
    (start : P w) {k : Bool → Prog (Commands C) ℕ}
    (reach : Reaches T.sem ⟨s.status, w⟩ ⟨.call c k, w'⟩) : guard c w' :=
  (h.safe start).guarded reach

end Sh

end Interaction
