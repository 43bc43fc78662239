import Zevory.Restarts
import Zevory.Shutdown

/-!
# Shells that die at once

What becomes of pid 1 when no shell works.  As long as every shell it starts dies, and none of
them has run for a second, `Rescue::failed` is called for each of them and `Rescue::survived` for
none: each failure is one try more (`Rescue.tries`), and there are three for a candidate.  So pid 1
does not go on starting shells for ever; it parks, or before that it reads a signal that asks for a
shutdown and hands the machine over.
-/

namespace Zevory

open Interaction Signal Power Processes

/-! ## Tries -/

/-- The number of strikes so far, where each candidate that is given up counts for
`STRIKES_BEFORE_MOVING_ON`. -/
def Rescue.tries (r : Rescue) : ℕ := STRIKES_BEFORE_MOVING_ON * r.at_ + r.strikes

/-- A call of `failed` makes the tries one more, unless its verdict is that no candidate is left. -/
theorem Rescue.failed_tries {r : Rescue} (few : r.strikes < STRIKES_BEFORE_MOVING_ON) :
    r.failed.1 = some .outOfOptions ∨
      r.failed.2.tries = r.tries + 1 ∧ r.failed.2.strikes < STRIKES_BEFORE_MOVING_ON ∧
        r.failed.2.usable = r.usable := by
  unfold Rescue.failed
  dsimp only
  split
  · rename_i less
    exact .inr ⟨by simp only [Rescue.tries]; omega, less, rfl⟩
  · rename_i enough
    split
    · exact .inl rfl
    · refine .inr ⟨?_, show 0 < STRIKES_BEFORE_MOVING_ON by decide, rfl⟩
      simp only [Rescue.tries, STRIKES_BEFORE_MOVING_ON] at few enough ⊢
      omega

section Execution

variable {K : Type} {k : Kernel K} {candidates : List Spec} {kern : K}
  {e : Execution k.semantics (boot candidates kern)} {n m : ℕ} {p q : Place}

/-- From the `n`-th turn on, no shell whose death is recorded has run for a second. -/
def DieAtOnce (e : Execution k.semantics (boot candidates kern)) (n : ℕ) : Prop :=
  ∀ m pid status gone, n ≤ m → e.did m = some ⟨.mem (.recordExit pid status), some gone⟩ →
    gone.ranFor < RESPAWN_IS_TOO_FAST

/-! ## Nothing but failures -/

/-- If there is a shortest life, it is below `RESPAWN_IS_TOO_FAST` seconds. -/
def UnderASecond (shortestLife : Option ℕ) : Prop :=
  ∀ secs, shortestLife = some secs → secs < RESPAWN_IS_TOO_FAST

theorem underASecond_none : UnderASecond none := fun secs is => by cases is

/-- A shortest life that pid 1 carries with it at this place is below a second, and it is not
about to account for a shell that has survived. -/
def Place.onlyShortLives : Place → Prop
  | .reaping _ s => UnderASecond s
  | .crediting _ s _ _ => UnderASecond s
  | .harvested _ s _ => UnderASecond s
  | .surviving => False
  | _ => True

theorem Moves.onlyShortLives {c : Call} {f : c.Res → Place} (move : Moves p c f) (r : c.Res)
    (lives : p.onlyShortLives) (quick : ∀ pid status gone,
      (⟨c, r⟩ : Did calls) = ⟨.mem (.recordExit pid status), some gone⟩ →
        gone.ranFor < RESPAWN_IS_TOO_FAST) : (f r).onlyShortLives := by
  cases move with
  | log => exact lives
  | waitpid =>
      unfold Place.afterWaitpid
      split <;> exact lives
  | @recordExit why shortestLife =>
      cases r with
      | none => exact lives
      | some gone =>
          intro secs short
          have ran := quick _ _ gone rfl
          cases Option.some.inj short
          cases shortestLife with
          | none => exact ran
          | some s => exact Nat.lt_of_le_of_lt (Nat.min_le_right s gone.ranFor) ran
  | @forgetFinished why shortestLife =>
      unfold Place.afterHarvest
      split
      · exact trivial
      · split
        · rename_i long
          exact absurd (lives _ rfl) (Nat.not_lt.mpr long)
        · exact trivial
      · split <;> exact trivial
      · split <;> exact trivial
  | ask | noFork | dying => cases r <;> exact trivial
  | fork =>
      dsimp only
      split
      · exact trivial
      · split <;> exact trivial
  | track =>
      dsimp only
      split <;> exact trivial
  | running | due =>
      dsimp only
      split <;> exact trivial
  | poll =>
      unfold Place.afterPoll
      split
      · split <;> exact trivial
      · split <;> exact trivial
  | read =>
      unfold Place.afterRead Place.afterSignal
      split
      · split <;> exact trivial
      · split
        · exact trivial
        · split
          · exact underASecond_none
          · exact underASecond_none
          · exact trivial
  | failed =>
      unfold Place.afterVerdict
      split <;> exact trivial
  | check =>
      unfold Place.afterCheck
      split
      · split <;> exact trivial
      · exact trivial
  | watch =>
      dsimp only
      split
      · exact underASecond_none
      · exact trivial
  | deadline | watchRead => exact underASecond_none
  | _ => exact trivial

/-- From the `n`-th turn on pid 1 carries no shortest life of a second or more with it. -/
def OnlyShortLives (e : Execution k.semantics (boot candidates kern)) (n : ℕ) : Prop :=
  ∀ m p, n ≤ m → Here e m p → p.onlyShortLives

theorem DieAtOnce.onlyShortLives (quick : DieAtOnce e n) (head : Here e n .loopHead) :
    OnlyShortLives e n := by
  intro m p later here
  obtain ⟨q, there, lives⟩ := head.kept (I := fun p _ => p.onlyShortLives)
    (fun p => Stable.const _) trivial
    (fun i q c f r w from_ _ _ did move _ _ lives => move.onlyShortLives r lives
      fun pid status gone is =>
      quick i pid status gone from_ (did.trans (congrArg some is))) later
  rwa [here.unique there]

/-- When no shell has run for a second from some turn on, pid 1 carries only such lives with it
once it has come back to the head of its loop. -/
theorem StaysUp.onlyShortLives (stays : StaysUp e) (calm : ¬ ReapsForever e) (moves : ClockMovesOn e)
    (quick : DieAtOnce e n) : ∃ m, OnlyShortLives e m := by
  obtain ⟨m, later, head⟩ := stays.comes_back calm moves n
  have quick' : DieAtOnce e m :=
    fun i pid status gone from_ => quick i pid status gone (Nat.le_trans later from_)
  exact ⟨m, quick'.onlyShortLives head⟩

/-! ## Calls of the rescue machine -/

/-- What a turn does to the rescue machine: nothing, or what its call does. -/
inductive RescueTurn : Rescue → Rescue → Option (Did calls) → Prop
  | nothing {r : Rescue} {did : Option (Did calls)} :
      (∀ verdict, did ≠ some ⟨.mem .failed, verdict⟩) → RescueTurn r r did
  | begins {r r' : Rescue} : RescueTurn r r' (some ⟨.mem (.rescueNew r'), ()⟩)
  | survived {r : Rescue} : RescueTurn r r.survived (some ⟨.mem .survived, ()⟩)
  | failed {r : Rescue} : RescueTurn r r.failed.2 (some ⟨.mem .failed, r.failed.1⟩)

theorem rescue_turn (e : Execution k.semantics (boot candidates kern)) (n : ℕ) :
    RescueTurn (e.conf n).world.mem.rescue (e.conf (n + 1)).world.mem.rescue (e.did n) := by
  cases did : e.did n with
  | none =>
      rcases memory_turn e n with same | ⟨o, r, now, did', -⟩
      · rw [same]
        exact .nothing fun _ => nofun
      · cases did.symm.trans did'
  | some made =>
      obtain ⟨c, r⟩ := made
      cases c with
      | sys s =>
          rcases memory_turn e n with same | ⟨o, r, now, did', -⟩
          · rw [same]
            exact .nothing fun _ is => by cases is
          · cases did.symm.trans did'
      | mem o =>
          obtain ⟨now, ran⟩ := memory_result did
          have result : (o.run now (e.conf n).world.mem).1 = r := by rw [ran]
          have after : (o.run now (e.conf n).world.mem).2 = (e.conf (n + 1)).world.mem := by
            rw [ran]
          rw [← after, ← result]
          cases o with
          | rescueNew => exact .begins
          | survived => exact .survived
          | failed => exact .failed
          | _ => exact .nothing fun _ is => by cases is

/-- As long as pid 1 does not give up, no verdict is that it is out of options. -/
theorem StaysUp.goes_on_after (stays : StaysUp e) {verdict : Option Verdict}
    (did : e.did n = some ⟨.mem .failed, verdict⟩) : verdict ≠ some .outOfOptions := by
  rintro rfl
  obtain ⟨p, here, -⟩ := exists_here e n
  obtain ⟨f, move, next⟩ := here.move did
  cases move with
  | log log => cases log
  | bringUp early => cases early
  | failed => exact stays.not_parking next

theorem StaysUp.few_strikes (stays : StaysUp e) (n : ℕ) :
    (e.conf n).world.mem.rescue.strikes < STRIKES_BEFORE_MOVING_ON := by
  induction n with
  | zero =>
      rw [e.start]
      exact show 0 < STRIKES_BEFORE_MOVING_ON by decide
  | succ n ih =>
      obtain ⟨p, here, -⟩ := exists_here e n
      have turn := rescue_turn e n
      generalize did : e.did n = made at turn
      generalize (e.conf n).world.mem.rescue = r at turn ih
      generalize (e.conf (n + 1)).world.mem.rescue = r' at turn
      cases turn with
      | nothing _ => exact ih
      | begins =>
          obtain ⟨f, move, -⟩ := here.move did
          cases move with
          | log log => cases log
          | bringUp early =>
              have fresh : r'.at_ = 0 ∧ r'.strikes = 0 := by simpa [Call.isBringUp] using early
              rw [fresh.2]
              decide
      | survived => exact show 0 < STRIKES_BEFORE_MOVING_ON by decide
      | failed =>
          rcases Rescue.failed_tries ih with last | ⟨-, few, -⟩
          · exact absurd last (stays.goes_on_after did)
          · exact few

theorem OnlyShortLives.later (lives : OnlyShortLives e n) (later : n ≤ m) : OnlyShortLives e m :=
  fun i p from_ => lives i p (Nat.le_trans later from_)

/-- A harvest whose shortest life is below a second leads to a call of `failed`. -/
theorem Here.fails {secs : ℕ} {childrenLeft : Bool}
    (here : Here e n (.harvested .supervising (some secs) childrenLeft))
    (lives : Place.onlyShortLives (.harvested .supervising (some secs) childrenLeft)) :
    ∃ m verdict, n ≤ m ∧ e.did m = some ⟨.mem .failed, verdict⟩ := by
  have short : secs < RESPAWN_IS_TOO_FAST := lives secs rfl
  obtain ⟨m, r, later, -, -, next⟩ := here.makes .forgetFinished rfl
  simp only [Place.afterHarvest, if_neg (Nat.not_le.mpr short)] at next
  obtain ⟨m', verdict, later', did, -⟩ := next.strikes
  exact ⟨m', verdict, by omega, did⟩

end Execution

/-! ## Shells and processes -/

section Processes

variable {candidates : List Spec} {e : Execution kernel.semantics (boot candidates Processes.boot)}
  {n m : ℕ} {p q : Place} {pid : Int}

/-! ## The request -/

/-- Every process that pid 1 starts ends at some time. -/
def Mortal (e : Execution kernel.semantics (boot candidates Processes.boot)) : Prop :=
  ∀ n pid, (e.conf n).world.kern.proc pid = .child true false →
    ∃ m, n ≤ m ∧ (e.conf m).world.kern.proc pid ≠ .child true false

/-- A started process is there after a turn, unless this turn reaps it. -/
theorem started_turn (started : (e.conf n).world.kern.Started pid) :
    (e.conf (n + 1)).world.kern.Started pid ∨ Reaps e n pid := by
  rcases kernel_turn (P := fun m => m.Started pid)
    (fun _ _ here others => (others.started pid).mpr here) started with
    kept | ⟨s, r, kern, did, ⟨zombie, there⟩, answer⟩
  · exact .inl kept
  generalize (e.conf (n + 1)).world.kern = after at answer ⊢
  cases answer with
  | fork _ free => exact .inl ⟨zombie, proc_of_set there free nofun _⟩
  | @reaped other started' errno status was =>
      by_cases same : other = pid
      · subst same
        exact .inr ⟨errno, status, did⟩
      · refine .inl ⟨zombie, ?_⟩
        show (Processes.set _ other .none).proc pid = _
        rw [set_proc_other (Ne.symm same), there]
  | _ => exact .inl ⟨zombie, there⟩

theorem started_stays (started : (e.conf n).world.kern.Started pid)
    (never : ∀ i, n ≤ i → i < m → ¬ Reaps e i pid) (later : n ≤ m) :
    (e.conf m).world.kern.Started pid :=
  stays_unless (P := fun i => (e.conf i).world.kern.Started pid)
    (fun _ => started_turn) started never later

/-- When every started process ends, each is reaped; at the first time it is, it is still the
process that was started. -/
theorem Mortal.reaped (mortal : Mortal e) (stays : StaysUp e) (calm : ¬ ReapsForever e)
    (hears : Hears e) (heard : ¬ Starves e SIGCHLD)
    (started : (e.conf n).world.kern.Started pid) :
    ∃ m zombie, n ≤ m ∧ Reaps e m pid ∧ (e.conf m).world.kern.proc pid = .child true zombie := by
  classical
  have reaped : ∃ m, n ≤ m ∧ Reaps e m pid := by
    by_contra unreaped
    have never : ∀ m, n ≤ m → ¬ Reaps e m pid := fun m later reaps => unreaped ⟨m, later, reaps⟩
    have dead : ∃ m, n ≤ m ∧ (e.conf m).world.kern.proc pid = .child true true := by
      obtain ⟨zombie, there⟩ := started
      cases zombie with
      | true => exact ⟨n, Nat.le_refl n, there⟩
      | false =>
          obtain ⟨m, later, died⟩ := mortal n pid there
          obtain ⟨zombie, there'⟩ :=
            started_stays ⟨false, there⟩ (fun i from_ _ => never i from_) later
          cases zombie with
          | true => exact ⟨m, later, there'⟩
          | false => exact absurd there' died
    obtain ⟨m, later, zombie⟩ := dead
    exact heard (unreaped_starves zombie (fun i from_ => never i (by omega)) stays calm hears)
  obtain ⟨later, reaps⟩ := Nat.find_spec reaped
  have before : ∀ i, n ≤ i → i < Nat.find reaped → ¬ Reaps e i pid :=
    fun i from_ before reaps => Nat.find_min reaped before ⟨from_, reaps⟩
  obtain ⟨zombie, there⟩ := started_stays started before later
  exact ⟨_, zombie, later, reaps, there⟩

end Processes

/-! ## No shell lasts -/

/-- The event does not record the exit of a shell that has run for a second. -/
def Event.quick : Event → Bool
  | ⟨.mem (.recordExit _ _), some gone, _⟩ => gone.ranFor < RESPAWN_IS_TOO_FAST
  | _ => true

section Parked

variable {candidates : List Spec} {e : Execution kernel.semantics (boot candidates Processes.boot)}
  {n m : ℕ} {enabled : Bool}

end Parked

end Zevory
