import Mathlib.Data.Nat.Find
import Zevory.FirstShell

/-!
# Rounds

Outside the bring-up, every way through the protocol comes to a `poll`, a `waitpid`, a
`reboot` or a `pause` after finitely many moves: those are the calls at which pid 1 rests
(`Here.comes_to_rest`).  What can keep pid 1 from getting anywhere is therefore a `poll`, or
children that are there to be reaped for ever.
-/

namespace Zevory

open Interaction Signal Power

/-- The calls at which pid 1 rests: `poll`, `waitpid`, `reboot` and `pause`. -/
def Call.rests : Call → Bool
  | .sys (.poll _ _) => true
  | .sys .waitpid => true
  | .sys (.reboot _) => true
  | .sys .pause => true
  | _ => false

/-- The calls with which pid 1 gives up: every `reboot` but the one that has Ctrl+Alt+Del sent to
pid 1 as a signal. -/
def Call.givesUp : Call → Bool
  | .sys (.reboot command) => command != RB_DISABLE_CAD
  | _ => false

namespace Place

/-- A bound on the number of moves from a place to the next rest, when no sessions are left to be
hung up. -/
def stage : Place → ℕ
  | .bringUp => 0
  | .asking first => if first then 33 else 17
  | .chosen first _ => if first then 32 else 16
  | .noFork => 2
  | .forked first _ _ => if first then 31 else 15
  | .up => 30
  | .loopHead => 20
  | .idle => 19
  | .due _ => 18
  | .waiting _ => 14
  | .readable => 21
  | .reaping _ _ => 3
  | .crediting _ _ _ _ => 4
  | .harvested _ _ _ => 25
  | .surviving => 21
  | .failing => 24
  | .backingOff _ => 23
  | .dying => 22
  | .striking => 21
  | .listing _ => 19
  | .hangingUp _ _ => 18
  | .continuing _ => 17
  | .timing _ _ => 16
  | .checking _ _ _ => 19
  | .watching _ _ _ => 14
  | .watched _ _ _ => 15
  | .killing _ => 17
  | .silent _ => 5
  | .synced _ => 4
  | .parking => 1
  | .parked _ => 0
  | .lost => 0

/-- The number of sessions that are still to be hung up at a place. -/
def toHangUp : Place → ℕ
  | .hangingUp _ leaders => leaders.length
  | _ => 0

end Place

/-- Every move that is neither a call of the log nor a rest brings pid 1 nearer to its next rest. -/
theorem Moves.nearer {p : Place} {c : Call} {f : c.Res → Place} (move : Moves p c f)
    (matters : c.isLog = false) (goesOn : c.rests = false) (up : p ≠ .bringUp) (r : c.Res) :
    Prod.Lex (· < ·) (· < ·) ((f r).stage, (f r).toHangUp) (p.stage, p.toHangUp) := by
  cases move with
  | log log => exact absurd log (Bool.eq_false_iff.mp matters)
  | bringUp | giveUpEarly | tableNew => exact absurd rfl up
  | poll | waitpid | watch | handOver | park | pause => cases goesOn
  | hangUp => exact .right _ (Nat.lt_succ_self _)
  | @ask first => cases first <;> cases r <;> exact .left _ _ (Nat.le_of_ble_eq_true rfl)
  | noFork | dying => cases r <;> exact .left _ _ (Nat.le_of_ble_eq_true rfl)
  | @fork first =>
      refine .left _ _ ?_
      dsimp only
      split
      · cases first <;> exact Nat.le_of_ble_eq_true rfl
      · split <;> cases first <;> exact Nat.le_of_ble_eq_true rfl
  | @track first => cases first <;> exact .left _ _ (Nat.le_of_ble_eq_true rfl)
  | running | due =>
      refine .left _ _ ?_
      dsimp only
      split <;> exact Nat.le_of_ble_eq_true rfl
  | read =>
      refine .left _ _ ?_
      unfold Place.afterRead Place.afterSignal
      split
      · split <;> exact Nat.le_of_ble_eq_true rfl
      · split
        · exact Nat.le_of_ble_eq_true rfl
        · split <;> exact Nat.le_of_ble_eq_true rfl
  | recordExit => cases r <;> exact .left _ _ (Nat.le_of_ble_eq_true rfl)
  | @forgetFinished why shortestLife childrenLeft =>
      refine .left _ _ ?_
      unfold Place.afterHarvest
      split
      · exact Nat.le_of_ble_eq_true rfl
      · split <;> exact Nat.le_of_ble_eq_true rfl
      · split <;> exact Nat.le_of_ble_eq_true rfl
      · split <;> exact Nat.le_of_ble_eq_true rfl
  | check =>
      refine .left _ _ ?_
      unfold Place.afterCheck
      split
      · split <;> exact Nat.le_of_ble_eq_true rfl
      · exact Nat.le_of_ble_eq_true rfl
  | failed =>
      refine .left _ _ ?_
      unfold Place.afterVerdict
      split <;> exact Nat.le_of_ble_eq_true rfl
  | _ => exact .left _ _ (Nat.le_of_ble_eq_true rfl)

/-- Pid 1 gets to the places where it is parked only from such a place, or by giving Ctrl+Alt+Del
back to the kernel. -/
theorem Moves.to_parked {p : Place} {c : Call} {f : c.Res → Place} (move : Moves p c f) (r : c.Res)
    {enabled : Bool} (parked : f r = .parked enabled) :
    p = .parked enabled ∨ c = .sys (.reboot RB_ENABLE_CAD) := by
  rcases move.mapped r with stays | goes
  · exact .inl (stays.symm.trans parked)
  · rw [parked] at goes
    cases p with
    | bringUp =>
        cases move with
        | giveUpEarly => exact .inr rfl
        | log | bringUp | tableNew => cases parked
    | parking =>
        cases move with
        | park => exact .inr rfl
        | log => cases parked
    | _ => cases goes

/-- The call that pid 1 makes at a place, if there is only one move from it other than those of the
log. -/
def Place.only : Place → Option Call
  | .asking _ => some (.mem .rescueShell)
  | .chosen _ _ => some (.sys .fork)
  | .noFork => some (.mem .rescueShell)
  | .forked _ spec pid => some (.mem (.track spec.name pid spec.wantsOwnSession))
  | .up => some (.mem (.setRespawnAt 0))
  | .loopHead => some (.mem .running)
  | .idle => some (.sys .clockGettime)
  | .due _ => some (.mem .respawnAt)
  | .crediting _ _ pid status => some (.mem (.recordExit pid status))
  | .harvested _ _ _ => some (.mem .forgetFinished)
  | .surviving => some (.mem .survived)
  | .failing => some (.sys .clockGettime)
  | .backingOff now => some (.mem (.setRespawnAt (now + RESPAWN_BACKOFF_SECS)))
  | .dying => some (.mem .rescueShell)
  | .striking => some (.mem .failed)
  | .listing _ => some (.mem .sessionLeaders)
  | .hangingUp _ (leader :: _) => some (.sys (.kill (-leader) SIGHUP))
  | .hangingUp _ [] => some (.sys (.kill (-1) SIGTERM))
  | .continuing _ => some (.sys (.kill (-1) SIGCONT))
  | .timing _ _ => some (.sys .clockGettime)
  | .checking _ _ _ => some (.sys .clockGettime)
  | .killing _ => some (.sys (.kill (-1) SIGKILL))
  | .silent _ => some (.sys .sync)
  | .synced action => some (.sys (.reboot action.kernelCommand))
  | .parking => some (.sys (.reboot RB_ENABLE_CAD))
  | _ => none

theorem Moves.only {p : Place} {c c' : Call} {f : c.Res → Place} (move : Moves p c f)
    (matters : c.isLog = false) (only : p.only = some c') : c = c' := by
  cases move with
  | log log => exact absurd log (Bool.eq_false_iff.mp matters)
  | _ => cases only <;> rfl

section Rounds

variable {K : Type} {k : Kernel K} {candidates : List Spec} {kern : K}
  {e : Execution k.semantics (boot candidates kern)} {n m : ℕ} {p q : Place}

/-- Pid 1 never gives up in this execution: it neither hands the machine over nor parks. -/
def StaysUp (e : Execution k.semantics (boot candidates kern)) : Prop :=
  ∀ n (c : Call) (r : c.Res), e.did n = some ⟨c, r⟩ → c.givesUp = false

/-- From every turn after the bring-up pid 1 comes to its next rest, and what all moves other than
rests keep still holds there. -/
theorem Here.comes_to_rest_within {I : Place → Prop}
    (kept : ∀ {p c} {f : c.Res → Place} r, I p → Moves p c f → c.isLog = false →
      c.rests = false → I (f r))
    {n : ℕ} {p : Place} (here : Here e n p) (up : p ≠ .bringUp) (inside : I p) :
    ∃ m c r q f, n ≤ m ∧ e.did m = some ⟨c, r⟩ ∧ c.rests ∧ Here e m q ∧ q ≠ .bringUp ∧ I q ∧
      Moves q c f ∧ Here e (m + 1) (f r) := by
  obtain ⟨m, c, r, q, goes⟩ := here.next_move
  obtain ⟨f, move, rfl⟩ := goes.move
  cases rests : c.rests with
  | true =>
      exact ⟨m, c, r, p, f, goes.later, goes.did, rests, goes.from_, up, inside, move, goes.to_⟩
  | false =>
      have nearer := move.nearer goes.matters rests up r
      obtain ⟨m', c', r', q, g, later, rest⟩ := goes.to_.comes_to_rest_within kept
        (move.come_up up r) (kept r inside move goes.matters rests)
      have first := goes.later
      exact ⟨m', c', r', q, g, by omega, rest⟩
termination_by (p.stage, p.toHangUp)
decreasing_by exact nearer

/-- From every turn after the bring-up pid 1 comes to its next rest. -/
theorem Here.comes_to_rest (here : Here e n p) (up : p ≠ .bringUp) :
    ∃ m c r q f, n ≤ m ∧ e.did m = some ⟨c, r⟩ ∧ c.rests ∧ Here e m q ∧ q ≠ .bringUp ∧
      Moves q c f ∧ Here e (m + 1) (f r) := by
  obtain ⟨m, c, r, q, f, later, did, rests, there, up, -, move, next⟩ :=
    here.comes_to_rest_within (I := fun _ => True) (fun _ _ _ _ _ => trivial) up trivial
  exact ⟨m, c, r, q, f, later, did, rests, there, up, move, next⟩

/-- At a place with only one move pid 1 makes that call at some later turn, after calls of the log
only. -/
theorem Here.makes (here : Here e n p) {c : Call} {f : c.Res → Place} (move : Moves p c f)
    (only : p.only = some c) :
    ∃ m r, n ≤ m ∧ e.did m = some ⟨c, r⟩ ∧ Here e m p ∧ Here e (m + 1) (f r) := by
  obtain ⟨m, c', r, q, goes⟩ := here.next_move
  obtain ⟨g, move', rfl⟩ := goes.move
  cases move'.only goes.matters only
  cases move.unique move'
  exact ⟨m, r, goes.later, goes.did, goes.from_, goes.to_⟩

theorem Here.parked_since {enabled : Bool} (here : Here e n (.parked enabled)) : Parks e := by
  obtain ⟨i, q, c, r, f, -, -, outside, did, move, inside⟩ :=
    here.entered (I := fun p => p = .parked enabled) nofun rfl
  rcases move.to_parked r inside with rfl | rfl
  · exact absurd rfl outside
  · exact ⟨i, r, did⟩

theorem StaysUp.not_parks (stays : StaysUp e) : ¬ Parks e := by
  rintro ⟨n, r, parks⟩
  cases stays n _ _ parks

/-- A pid 1 that never gives up gets out of the bring-up. -/
theorem StaysUp.comes_up (stays : StaysUp e) (n : ℕ) :
    ∃ m p, n ≤ m ∧ Here e m p ∧ p ≠ .bringUp := by
  obtain ⟨i, r, forks⟩ := (forks_or_parks e).resolve_right stays.not_parks
  obtain ⟨p, here, -⟩ := exists_here e i
  have up : p ≠ .bringUp := by
    rintro rfl
    obtain ⟨f, move, -⟩ := here.move forks
    cases move with
    | log log => cases log
    | bringUp early => cases early
  obtain ⟨q, there, up⟩ := here.come_up up (Nat.le_max_left i n)
  exact ⟨max i n, q, Nat.le_max_right i n, there, up⟩

/-- What pid 1 rests with if it does not give up: a poll of `supervise`, a `waitpid`, or a poll of a
wait for silence. -/
inductive Waits (e : Execution k.semantics (boot candidates kern)) (m : ℕ) : Prop
  | polls {millis fd : Int} {r : Ret} : Here e m (.waiting millis) →
      e.did m = some ⟨.sys (.poll fd millis), r⟩ → Here e (m + 1) (Place.afterPoll r) → Waits e m
  | watches {action : Action} {killed : Bool} {deadline : ℕ} {fd : Int} {r : Ret} :
      Here e m (.watching action killed deadline) →
      e.did m = some ⟨.sys (.poll fd CHECK_EVERY_MS), r⟩ →
      Here e (m + 1) (if r.rc = -1 ∨ r.rc = 0 then .reaping (.silence action killed deadline) none
        else .watched action killed deadline) → Waits e m
  | reaps {why : Why} {shortestLife : Option ℕ} {r : Ret × Status} :
      Here e m (.reaping why shortestLife) → e.did m = some ⟨.sys .waitpid, r⟩ →
      Here e (m + 1) (Place.afterWaitpid why shortestLife r) → Waits e m

/-- A pid 1 that never gives up comes to such a rest from every turn on. -/
theorem StaysUp.waits (stays : StaysUp e) (here : Here e n p) (up : p ≠ .bringUp) :
    ∃ m, n ≤ m ∧ Waits e m := by
  obtain ⟨m, c, r, q, f, later, did, rests, there, up, move, next⟩ := here.comes_to_rest up
  refine ⟨m, later, ?_⟩
  cases move with
  | poll => exact .polls there did next
  | watch => exact .watches there did next
  | waitpid => exact .reaps there did next
  | pause => exact absurd there.parked_since stays.not_parks
  | park => exact absurd ⟨m, r, did⟩ stays.not_parks
  | @handOver action => cases action <;> cases stays m _ _ did
  | log log =>
      cases c with
      | sys s => cases s <;> first | cases log; done | cases rests
      | mem => cases rests
  | bringUp | giveUpEarly | tableNew => exact absurd rfl up
  | _ => cases rests

/-! ## Reaping -/

/-- From some turn on every `waitpid` hands over a child, and there is always another `waitpid`. -/
def ReapsForever (e : Execution k.semantics (boot candidates kern)) : Prop :=
  (∃ n, ∀ m r, n ≤ m → e.did m = some ⟨.sys .waitpid, r⟩ →
    ∃ pid status, Sys.reapedOf r = .child pid status) ∧
  ∀ n, ∃ m r, n ≤ m ∧ e.did m = some ⟨.sys .waitpid, r⟩

/-- After every reading of the clock there comes a turn from which on all readings are at least
`GRACE_SECS` later. -/
def ClockMovesOn (e : Execution k.semantics (boot candidates kern)) : Prop :=
  ∀ i (now : ℕ), e.did i = some ⟨.sys .clockGettime, now⟩ →
    ∃ j, ∀ m (later : ℕ), j ≤ m → e.did m = some ⟨.sys .clockGettime, later⟩ →
      now + GRACE_SECS ≤ later

/-- The places of the loop of `reap_all`, by what it is for. -/
def Place.reapsFor (why : Why) : Place → Prop
  | .reaping for_ _ => for_ = why
  | .crediting for_ _ _ _ => for_ = why
  | _ => False

/-- The `n`-th turn is a `waitpid` that hands over no child. -/
def BringsNone (e : Execution k.semantics (boot candidates kern)) (n : ℕ) : Prop :=
  ∃ r, e.did n = some ⟨.sys .waitpid, r⟩ ∧ ∀ pid status, Sys.reapedOf r ≠ .child pid status

/-- One turn in the loop of `reap_all`: the loop goes on, or a `waitpid` hands over no child and
there is a harvest. -/
theorem Here.reaps {why : Why} (here : Here e n p) (reaps : p.reapsFor why) :
    (∃ q, Here e (n + 1) q ∧ q.reapsFor why ∧ ¬ BringsNone e n) ∨
    BringsNone e n ∧
      ∃ shortestLife childrenLeft, Here e (n + 1) (.harvested why shortestLife childrenLeft) := by
  cases did : e.did n with
  | none =>
      refine .inl ⟨p, here.silent did, reaps, ?_⟩
      rintro ⟨r, waits, -⟩
      cases did.symm.trans waits
  | some made =>
      obtain ⟨c, r⟩ := made
      obtain ⟨f, move, next⟩ := here.move did
      cases move with
      | log log =>
          refine .inl ⟨p, next, reaps, ?_⟩
          rintro ⟨r', waits, -⟩
          cases did.symm.trans waits
          cases log
      | @recordExit why shortestLife =>
          refine .inl ⟨_, next, by cases r <;> exact reaps, ?_⟩
          rintro ⟨r', waits, -⟩
          cases did.symm.trans waits
      | @waitpid why shortestLife =>
          unfold Place.afterWaitpid at next
          split at next
          · rename_i pid status child
            refine .inl ⟨_, next, reaps, ?_⟩
            rintro ⟨r', waits, noChild⟩
            cases did.symm.trans waits
            exact noChild pid status child
          · rename_i still
            cases reaps
            exact .inr ⟨⟨r, did, by simp [still]⟩, _, _, next⟩
          · rename_i gone
            cases reaps
            exact .inr ⟨⟨r, did, by simp [gone]⟩, _, _, next⟩
      | _ => exact reaps.elim

/-- As long as every `waitpid` hands over a child, pid 1 stays in the loop of `reap_all`. -/
theorem Here.reaps_on {why : Why} (here : Here e n p) (reaps : p.reapsFor why)
    (more : ∀ i, n ≤ i → i < m → ¬ BringsNone e i) (later : n ≤ m) :
    ∃ q, Here e m q ∧ q.reapsFor why := by
  induction m, later using Nat.le_induction with
  | base => exact ⟨p, here, reaps⟩
  | succ m later ih =>
      obtain ⟨q, there, reaps⟩ := ih fun i from_ before => more i from_ (Nat.lt_succ_of_lt before)
      rcases there.reaps reaps with ⟨q', next, reaps', -⟩ | ⟨noChild, -⟩
      · exact ⟨q', next, reaps'⟩
      · exact absurd noChild (more m later (Nat.lt_succ_self m))

/-- As long as every `waitpid` hands over a child, there is always another one. -/
theorem Here.next_waitpid {why : Why} (here : Here e n p) (reaps : p.reapsFor why)
    (more : ∀ i, n ≤ i → ¬ BringsNone e i) : ∃ m r, n ≤ m ∧ e.did m = some ⟨.sys .waitpid, r⟩ := by
  have up : p ≠ .bringUp := by
    rintro rfl
    exact reaps
  obtain ⟨m, c, r, q, f, later, did, rests, at_, -, move, -⟩ := here.comes_to_rest up
  obtain ⟨q', at', reaps'⟩ := here.reaps_on reaps (fun i from_ _ => more i from_) later
  cases at_.unique at'
  cases move with
  | waitpid => exact ⟨m, r, later, did⟩
  | recordExit => cases rests
  | log log =>
      cases c with
      | sys s => cases s <;> first | cases log; done | cases rests
      | mem => cases rests
  | _ => exact reaps'.elim

/-- Unless children keep coming, the loop of `reap_all` ends with the first `waitpid` that hands
over none, and there is a harvest. -/
theorem Here.harvests {why : Why} (here : Here e n p) (reaps : p.reapsFor why)
    (calm : ¬ ReapsForever e) :
    ∃ m shortestLife childrenLeft, n ≤ m ∧
      (BringsNone e m ∧ ∀ i, n ≤ i → i < m → ¬ BringsNone e i) ∧
      Here e (m + 1) (.harvested why shortestLife childrenLeft) := by
  by_cases ends : ∃ m, n ≤ m ∧ BringsNone e m
  · classical
    have first := Nat.find_spec ends
    have before : ∀ i, n ≤ i → i < Nat.find ends → ¬ BringsNone e i :=
      fun i from_ before noChild => Nat.find_min ends before ⟨from_, noChild⟩
    obtain ⟨q, there, reaps'⟩ := here.reaps_on reaps before first.1
    rcases there.reaps reaps' with ⟨-, -, -, goesOn⟩ | ⟨noChild, s, left, harvested⟩
    · exact absurd first.2 goesOn
    · exact ⟨_, s, left, first.1, ⟨noChild, before⟩, harvested⟩
  · have more : ∀ i, n ≤ i → ¬ BringsNone e i := fun i from_ noChild => ends ⟨i, from_, noChild⟩
    refine absurd ⟨⟨n, fun m r later did => ?_⟩, fun i => ?_⟩ calm
    · by_contra noChild
      exact more m later ⟨r, did, fun pid status child => noChild ⟨pid, status, child⟩⟩
    · obtain ⟨q, there, reaps'⟩ := here.reaps_on reaps (fun i from_ _ => more i from_)
        (Nat.le_max_left n i)
      obtain ⟨m, r, later, did⟩ := there.next_waitpid reaps' fun j from_ => more j (by omega)
      exact ⟨m, r, by omega, did⟩

end Rounds

end Zevory
