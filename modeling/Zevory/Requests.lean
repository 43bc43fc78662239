import Zevory.Harvest
import Zevory.Lull
import Zevory.Play

/-!
# Requests are carried out

A shutdown request that is read ends with the machine handed over, on any kernel, as long
as children do not keep coming and the clock moves on; and on the kernel of processes a
request that is pending is read in the end, unless pid 1 parks before.  The README promises
the first for every request and says nothing of the second: signals of one number are
merged, and lower ones are read first.
-/

namespace Zevory

open Interaction Signal Power Processes

section GoingDown

variable {K : Type} {k : Kernel K} {candidates : List Spec} {kern : K}
  {e : Execution k.semantics (boot candidates kern)} {n m : ℕ} {p q : Place} {action : Action}

/-- The machine is handed over for `action` at some turn. -/
def HandsOver (e : Execution k.semantics (boot candidates kern)) (action : Action) : Prop :=
  ∃ m r, e.did m = some ⟨.sys (.reboot action.kernelCommand), r⟩

/-! ## Place by place -/

theorem silent_hands_over (here : Here e n (.silent action)) : HandsOver e action := by
  obtain ⟨m, r, -, -, -, synced⟩ := here.makes .sync rfl
  obtain ⟨m', r', -, did, -, -⟩ := synced.makes .handOver rfl
  exact ⟨m', r', did⟩

/-- The loop over the session leaders ends. -/
theorem hangingUp_goes {leaders : List Int} {n : ℕ} (here : Here e n (.hangingUp action leaders)) :
    ∃ m, n ≤ m ∧ Here e m (.hangingUp action []) := by
  induction leaders generalizing n with
  | nil => exact ⟨n, Nat.le_refl n, here⟩
  | cons leader rest ih =>
      obtain ⟨m, r, later, -, -, next⟩ := here.makes .hangUp rfl
      obtain ⟨m', later', there⟩ := ih next
      exact ⟨m', by omega, there⟩

/-- After a reading of the clock in `wait_for_silence`, the wait is over, or the reading was before
the deadline and pid 1 reaps again. -/
theorem checking_goes {killed : Bool} {deadline : ℕ}
    (here : Here e n (.checking action killed deadline)) :
    (∃ m, n ≤ m ∧ (Here e m (.silent action) ∨ killed = false ∧ Here e m (.killing action))) ∨
      ∃ m i, n ≤ i ∧ i < m ∧ Here e m (.reaping (.silence action killed deadline) none) ∧
        ∃ now : ℕ, e.did i = some ⟨.sys .clockGettime, now⟩ ∧ now < deadline := by
  obtain ⟨i, now, later, read, -, next⟩ := here.makes .check rfl
  unfold Place.afterCheck at next
  split at next
  · refine .inl ⟨i + 1, by omega, ?_⟩
    cases killed with
    | true => exact .inl next
    | false => exact .inr ⟨rfl, next⟩
  · rename_i early
    have before : now < deadline := Nat.lt_of_not_ge early
    obtain ⟨m, c, r, q, goes⟩ := next.next_move
    obtain ⟨f, move, rfl⟩ := goes.move
    have after := goes.later
    cases move with
    | log log => exact absurd log (Bool.eq_false_iff.mp goes.matters)
    | watch =>
        have there := goes.to_
        dsimp only at there
        split at there
        · exact .inr ⟨m + 1, i, later, by omega, there, now, read, before⟩
        · obtain ⟨m', c, r', q, goes'⟩ := there.next_move
          obtain ⟨f, move, rfl⟩ := goes'.move
          have after' := goes'.later
          cases move with
          | log log => exact absurd log (Bool.eq_false_iff.mp goes'.matters)
          | watchRead => exact .inr ⟨m' + 1, i, later, by omega, goes'.to_, now, read, before⟩

/-- A wait for silence ends, if from some turn on all readings have reached its deadline and
children do not keep coming. -/
theorem silence_goes (calm : ¬ ReapsForever e) {killed : Bool} {deadline j : ℕ}
    (shown : ∀ m (later : ℕ), j ≤ m → e.did m = some ⟨.sys .clockGettime, later⟩ →
      deadline ≤ later)
    {n : ℕ} {p : Place} (here : Here e n p) (reaps : p.reapsFor (.silence action killed deadline)) :
    ∃ m, n ≤ m ∧ (Here e m (.silent action) ∨ killed = false ∧ Here e m (.killing action)) := by
  -- by induction on what is left until all readings show the deadline
  induction left : j - n using Nat.strong_induction_on generalizing n p with
  | _ x ih =>
      obtain ⟨m, s, childrenLeft, later, -, harvested⟩ := here.harvests reaps calm
      obtain ⟨m', -, later', -, -, next⟩ := harvested.makes .forgetFinished rfl
      cases childrenLeft with
      | false => exact ⟨m' + 1, by omega, .inl next⟩
      | true =>
          rcases checking_goes next with
            ⟨i, after, ended⟩ | ⟨i', i, from_, before, round, now, read, early⟩
          · exact ⟨i, by omega, ended⟩
          · have notYet : i < j := by
              by_contra reached
              have late := shown i now (by omega) read
              omega
            obtain ⟨l, after, ended⟩ := ih (j - i') (by omega) round rfl rfl
            exact ⟨l, by omega, ended⟩

end GoingDown

/-! ## Deadlines -/

/-- The deadline of the wait for silence that is under way at a place. -/
def Place.deadline : Place → Option ℕ
  | .reaping (.silence _ _ deadline) _ => some deadline
  | .crediting (.silence _ _ deadline) _ _ _ => some deadline
  | .harvested (.silence _ _ deadline) _ _ => some deadline
  | .checking _ _ deadline => some deadline
  | .watching _ _ deadline => some deadline
  | .watched _ _ deadline => some deadline
  | _ => none

/-- A deadline is the seconds of its wait after a reading of the clock. -/
theorem Moves.sets_deadline {p : Place} {c : Call} {f : c.Res → Place} (move : Moves p c f)
    (r : c.Res) {deadline : ℕ} (waits : (f r).deadline = some deadline) :
    p.deadline = some deadline ∨ ∃ (now : ℕ) (killed : Bool),
      (⟨c, r⟩ : Did calls) = ⟨.sys .clockGettime, now⟩ ∧ deadline = now + Place.grace killed := by
  cases move with
  | deadline =>
      cases waits
      exact .inr ⟨_, _, rfl, rfl⟩
  | log | watchRead => exact .inl waits
  | ask | noFork | dying => cases r <;> cases waits
  | @recordExit why => cases r <;> cases why <;> exact .inl waits
  | fork =>
      dsimp only at waits
      split at waits
      · cases waits
      · split at waits <;> cases waits
  | track | running | due =>
      dsimp only at waits
      split at waits <;> cases waits
  | watch =>
      dsimp only at waits
      split at waits <;> exact .inl waits
  | poll =>
      unfold Place.afterPoll at waits
      split at waits
      · split at waits <;> cases waits
      · split at waits <;> cases waits
  | read =>
      unfold Place.afterRead Place.afterSignal at waits
      split at waits
      · split at waits <;> cases waits
      · split at waits
        · cases waits
        · split at waits <;> cases waits
  | @waitpid why =>
      unfold Place.afterWaitpid at waits
      split at waits <;> cases why <;> exact .inl waits
  | @forgetFinished why s childrenLeft =>
      unfold Place.afterHarvest at waits
      split at waits
      · cases waits
      · split at waits <;> cases waits
      · split at waits <;> cases waits
      · split at waits
        · exact .inl waits
        · cases waits
  | check =>
      unfold Place.afterCheck at waits
      split at waits
      · split at waits <;> cases waits
      · exact .inl waits
  | failed =>
      unfold Place.afterVerdict at waits
      split at waits <;> cases waits
  | _ => cases waits

section HandingOver

variable {K : Type} {k : Kernel K} {candidates : List Spec} {kern : K}
  {e : Execution k.semantics (boot candidates kern)} {n m : ℕ} {p q : Place} {action : Action}

theorem Here.deadline_read {deadline : ℕ} (here : Here e n p)
    (waits : p.deadline = some deadline) :
    ∃ (i now : ℕ) (killed : Bool), e.did i = some ⟨.sys .clockGettime, now⟩ ∧
      deadline = now + Place.grace killed := by
  obtain ⟨i, q, c, r, f, -, -, outside, did, move, inside⟩ :=
    here.entered (I := fun p => p.deadline = some deadline) nofun waits
  rcases move.sets_deadline r inside with same | ⟨now, killed, same, rfl⟩
  · exact absurd same outside
  · exact ⟨i, now, killed, by rw [did, same], rfl⟩

/-- If the clock moves on, all readings from some turn on have reached the deadline. -/
theorem ClockMovesOn.shows (moves : ClockMovesOn e) {deadline : ℕ} (here : Here e n p)
    (waits : p.deadline = some deadline) :
    ∃ j, ∀ m (later : ℕ), j ≤ m → e.did m = some ⟨.sys .clockGettime, later⟩ →
      deadline ≤ later := by
  obtain ⟨i, now, killed, read, rfl⟩ := here.deadline_read waits
  obtain ⟨j, shown⟩ := moves i now read
  have grace : Place.grace killed ≤ GRACE_SECS := by cases killed <;> decide
  exact ⟨j, fun m later from_ did => Nat.le_trans (by omega) (shown m later from_ did)⟩

/-- From `reap_all` in a wait for silence pid 1 comes to the hand-over. -/
theorem silence_hands_over (calm : ¬ ReapsForever e) (moves : ClockMovesOn e) {killed : Bool}
    {deadline : ℕ} (here : Here e n p) (reaps : p.reapsFor (.silence action killed deadline)) :
    HandsOver e action := by
  have waits : p.deadline = some deadline := by
    cases p with
    | reaping | crediting =>
        cases reaps
        rfl
    | _ => exact reaps.elim
  obtain ⟨j, shown⟩ := moves.shows here waits
  obtain ⟨m, -, silent | ⟨-, killing⟩⟩ := silence_goes calm shown here reaps
  · exact silent_hands_over silent
  · -- once more, after SIGKILL
    obtain ⟨m₁, -, -, -, -, timing⟩ := killing.makes .kill rfl
    obtain ⟨m₂, now, -, -, -, again⟩ := timing.makes .deadline rfl
    obtain ⟨j', shown'⟩ := moves.shows again rfl
    obtain ⟨m₃, -, silent | ⟨first, -⟩⟩ := silence_goes calm shown' again rfl
    · exact silent_hands_over silent
    · cases first

/-- From the poll in a wait for silence pid 1 comes to the hand-over. -/
theorem watch_hands_over (calm : ¬ ReapsForever e) (moves : ClockMovesOn e) {killed : Bool}
    {deadline : ℕ} {r : Ret}
    (here : Here e n (if r.rc = -1 ∨ r.rc = 0 then .reaping (.silence action killed deadline) none
      else .watched action killed deadline)) : HandsOver e action := by
  split at here
  · exact silence_hands_over calm moves here rfl
  · obtain ⟨m, c, r', q, goes⟩ := here.next_move
    obtain ⟨f, move, rfl⟩ := goes.move
    cases move with
    | log log => exact absurd log (Bool.eq_false_iff.mp goes.matters)
    | watchRead => exact silence_hands_over calm moves goes.to_ rfl

/-- From the `reap_all` at the beginning of a shutdown pid 1 comes to the hand-over. -/
theorem stopping_hands_over (calm : ¬ ReapsForever e) (moves : ClockMovesOn e) (here : Here e n p)
    (reaps : p.reapsFor (.stopping action)) : HandsOver e action := by
  obtain ⟨m, s, childrenLeft, -, -, harvested⟩ := here.harvests reaps calm
  obtain ⟨m₁, -, -, -, -, next⟩ := harvested.makes .forgetFinished rfl
  cases childrenLeft with
  | false => exact silent_hands_over next
  | true =>
      obtain ⟨m₂, leaders, -, -, -, hanging⟩ := next.makes .sessionLeaders rfl
      obtain ⟨m₃, -, hung⟩ := hangingUp_goes hanging
      obtain ⟨m₄, -, -, -, -, continuing⟩ := hung.makes .terminate rfl
      obtain ⟨m₅, -, -, -, -, timing⟩ := continuing.makes .cont rfl
      obtain ⟨m₆, now, -, -, -, waiting⟩ := timing.makes .deadline rfl
      exact silence_hands_over calm moves waiting rfl

theorem StaysUp.not_hands_over (stays : StaysUp e) : ¬ HandsOver e action := by
  rintro ⟨m, r, did⟩
  have goesOn := stays m (.sys (.reboot action.kernelCommand)) r did
  cases action <;> cases goesOn

/-! ## Polling again and again -/

/-- The places of `supervise` that lead back to its poll, if there is no shutdown. -/
def Place.onTheWay : Place → Bool
  | .asking _ => true
  | .chosen _ _ => true
  | .noFork => true
  | .forked _ _ _ => true
  | .up => true
  | .loopHead => true
  | .idle => true
  | .due _ => true
  | .waiting _ => true
  | .surviving => true
  | .failing => true
  | .backingOff _ => true
  | .dying => true
  | .striking => true
  | .parking => true
  | .parked _ => true
  | .lost => true
  | _ => false

theorem Moves.on_the_way {c : Call} {f : c.Res → Place} (move : Moves p c f) (r : c.Res)
    (onTheWay : p.onTheWay) (goesOn : c.rests = false) : (f r).onTheWay := by
  cases move with
  | log => exact onTheWay
  | ask | noFork | dying => cases r <;> rfl
  | fork =>
      dsimp only
      split
      · rfl
      · split <;> rfl
  | track | running | due =>
      dsimp only
      split <;> rfl
  | failed =>
      unfold Place.afterVerdict
      split <;> rfl
  | supervise | idle | survived | failing | setRespawnAt => rfl
  | poll | park | pause => cases goesOn
  | _ => cases onTheWay

/-- From these places a pid 1 that never gives up comes to a poll of `supervise`. -/
theorem StaysUp.comes_round (stays : StaysUp e) (here : Here e n p) (onTheWay : p.onTheWay) :
    ∃ m millis fd r, n ≤ m ∧ e.did m = some ⟨.sys (.poll fd millis), r⟩ ∧
      Here e m (.waiting millis) := by
  have up : p ≠ .bringUp := by
    rintro rfl
    cases onTheWay
  obtain ⟨m, c, r, q, f, later, did, rests, there, -, onTheWay, move, -⟩ :=
    here.comes_to_rest_within (I := fun p => p.onTheWay)
      (fun r onTheWay move _ goesOn => move.on_the_way r onTheWay goesOn) up onTheWay
  cases move with
  | poll => exact ⟨m, _, _, r, later, did, there⟩
  | park => exact absurd ⟨m, r, did⟩ stays.not_parks
  | pause => exact absurd there.parked_since stays.not_parks
  | log log =>
      cases c with
      | sys s => cases s <;> first | cases log; done | cases rests
      | mem => cases rests
  | bringUp | giveUpEarly | tableNew | waitpid | watch | handOver => cases onTheWay
  | _ => cases rests

/-- A pid 1 that never gives up polls in `supervise` again and again. -/
theorem StaysUp.polls (stays : StaysUp e) (calm : ¬ ReapsForever e) (moves : ClockMovesOn e)
    (i : ℕ) : ∃ m millis fd r, i ≤ m ∧ e.did m = some ⟨.sys (.poll fd millis), r⟩ ∧
      Here e m (.waiting millis) := by
  obtain ⟨n, p, later, here, up⟩ := stays.comes_up i
  obtain ⟨m, later', waits⟩ := stays.waits here up
  cases waits with
  | polls there did => exact ⟨m, _, _, _, by omega, did, there⟩
  | watches _ _ next =>
      exact absurd (watch_hands_over calm moves next) stays.not_hands_over
  | @reaps why shortestLife r there =>
      cases why with
      | stopping action => exact absurd (stopping_hands_over calm moves there rfl) stays.not_hands_over
      | silence => exact absurd (silence_hands_over calm moves there rfl) stays.not_hands_over
      | supervising =>
          obtain ⟨j, s, childrenLeft, from_, -, harvested⟩ := there.harvests rfl calm
          obtain ⟨j', -, from_', -, -, next⟩ := harvested.makes .forgetFinished rfl
          have onTheWay : (Place.afterHarvest .supervising s childrenLeft).onTheWay := by
            unfold Place.afterHarvest
            cases s with
            | none => rfl
            | some =>
                dsimp only
                split <;> rfl
          obtain ⟨l, millis, fd, r, after, did, there⟩ := stays.comes_round next onTheWay
          exact ⟨l, millis, fd, r, by omega, did, there⟩

end HandingOver

/-! ## Pending requests -/

section Pending

variable {candidates : List Spec} {e : Execution kernel.semantics (boot candidates Processes.boot)}
  {n m : ℕ} {p q : Place} {signal : Int} {action : Action}

namespace Processes

end Processes

end Pending

/-! ## A power failure -/

section Parked

variable {candidates : List Spec} {e : Execution kernel.semantics (boot candidates Processes.boot)}
  {n m : ℕ} {enabled : Bool}

/-- Once pid 1 is parked, its calls other than those of the log are all `pause`. -/
theorem Here.idles {c : Call} {r : c.Res} (here : Here e n (.parked enabled)) (later : n ≤ m)
    (did : e.did m = some ⟨c, r⟩) (matters : c.isLog = false) : c = .sys .pause := by
  obtain ⟨f, move, -⟩ := (here.parked later).move did
  cases move with
  | log log => exact absurd log (Bool.eq_false_iff.mp matters)
  | pause => rfl

end Parked

end Zevory
