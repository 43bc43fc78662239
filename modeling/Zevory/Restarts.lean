import Zevory.Reaped
import Zevory.Requests

/-!
# Another shell

A pid 1 that never gives up starts a shell again whenever it has none, on any kernel whose
clock moves on and whose children do not keep coming.  The wait between two starts is over
once the clock reaches the time of the next start, and that time is set only after the death
of a shell, so not while there is none.
-/

namespace Zevory

open Interaction Signal Power Processes

section Memory

variable {K : Type} {k : Kernel K} {candidates : List Spec} {kern : K}
  {e : Execution k.semantics (boot candidates kern)} {n m : ℕ} {p q : Place}

/-! ## The memory, turn by turn -/

/-- At each turn the memory stays as it is, or an operation on it is carried out. -/
theorem memory_turn (e : Execution k.semantics (boot candidates kern)) (n : ℕ) :
    (e.conf (n + 1)).world.mem = (e.conf n).world.mem ∨
      ∃ (o : MemOp) (r : o.Res) (now : ℕ), e.did n = some ⟨.mem o, r⟩ ∧
        o.run now (e.conf n).world.mem = (r, (e.conf (n + 1)).world.mem) := by
  cases did : e.did n with
  | none =>
      have turn := e.goes n
      rw [did] at turn
      generalize e.conf n = c at turn
      generalize e.conf (n + 1) = c' at turn
      cases turn with
      | unroll star => exact .inl (star_private star).1
      | returned star => exact .inl (star_private star).1
      | gone _ star => exact .inl (star_private star).1
  | some made =>
      obtain ⟨c, r⟩ := made
      obtain ⟨v, same, -, -, answer⟩ := turn_answered did
      generalize (e.conf (n + 1)).world = w at answer
      cases answer with
      | sys => exact .inl same
      | @mem o now => exact .inr ⟨o, _, now, rfl, by rw [← same]; rfl⟩

/-- The result of an operation on the memory, and the memory after it. -/
theorem memory_result {o : MemOp} {r : o.Res} (did : e.did n = some ⟨.mem o, r⟩) :
    ∃ now, o.run now (e.conf n).world.mem = (r, (e.conf (n + 1)).world.mem) := by
  obtain ⟨v, same, -, -, answer⟩ := turn_answered did
  generalize (e.conf (n + 1)).world = w at answer
  cases answer with
  | @mem _ now => exact ⟨now, by rw [← same]; rfl⟩

theorem run_respawnAt {o : MemOp} (other : ∀ at_, o ≠ .setRespawnAt at_) (now : ℕ) (m : Mem) :
    (o.run now m).2.respawnAt = m.respawnAt := by
  cases o with
  | setRespawnAt at_ => exact absurd rfl (other at_)
  | _ => rfl

/-- Only `track` puts a shell into a table without shells. -/
theorem run_shells {o : MemOp} (other : ∀ name pid owns, o ≠ .track name pid owns) {now : ℕ}
    {m : Mem} (noShell : m.table.shells = []) : (o.run now m).2.table.shells = [] := by
  cases o with
  | track name pid owns => exact absurd rfl (other name pid owns)
  | tableNew => rfl
  | forgetFinished => exact (Table.shells_forgetFinished m.table).trans noShell
  | recordExit pid status =>
      show (m.table.recordExit pid status now).2.shells = []
      rw [(m.table.recordExit_shells pid status now).2, noShell]
      rfl
  | _ => exact noShell

/-- At each turn the time of the next start stays as it is, or it is set. -/
theorem respawnAt_turn (e : Execution k.semantics (boot candidates kern)) (n : ℕ) :
    (e.conf (n + 1)).world.mem.respawnAt = (e.conf n).world.mem.respawnAt ∨
      e.did n = some ⟨.mem (.setRespawnAt (e.conf (n + 1)).world.mem.respawnAt), ()⟩ := by
  rcases memory_turn e n with same | ⟨o, r, now, did, ran⟩
  · exact .inl (by rw [same])
  · have after : (o.run now (e.conf n).world.mem).2 = (e.conf (n + 1)).world.mem := by rw [ran]
    cases o with
    | setRespawnAt at_ => exact .inr (by rw [did, ← after]; rfl)
    | _ =>
        rw [← after]
        refine .inl (run_respawnAt ?_ now _)
        exact nofun

theorem shells_turn (noShell : (e.conf n).world.mem.table.shells = [])
    (notTracked : ∀ name pid owns, e.did n ≠ some ⟨.mem (.track name pid owns), ()⟩) :
    (e.conf (n + 1)).world.mem.table.shells = [] := by
  rcases memory_turn e n with same | ⟨o, r, now, did, ran⟩
  · rw [same, noShell]
  · have after : (o.run now (e.conf n).world.mem).2 = (e.conf (n + 1)).world.mem := by rw [ran]
    rw [← after]
    refine run_shells (fun name pid owns track => ?_) noShell
    subst track
    exact notTracked name pid owns did

/-! ## The time of the next start -/

/-- The place `backingOff` is entered with a reading of the clock. -/
theorem Moves.to_backingOff {p : Place} {c : Call} {f : c.Res → Place} (move : Moves p c f)
    (r : c.Res) {now : ℕ} (read : f r = .backingOff now) :
    p = .backingOff now ∨ (⟨c, r⟩ : Did calls) = ⟨.sys .clockGettime, now⟩ := by
  rcases move.mapped r with stays | goes
  · exact .inl (stays.symm.trans read)
  · rw [read] at goes
    cases p with
    | failing =>
        cases move with
        | log => cases read
        | failing =>
            cases read
            exact .inr rfl
    | _ => cases goes

theorem Here.read_before {now : ℕ} (here : Here e n (.backingOff now)) :
    ∃ i, e.did i = some ⟨.sys .clockGettime, now⟩ := by
  obtain ⟨i, q, c, r, f, -, -, outside, did, move, inside⟩ :=
    here.entered (I := fun p => p = .backingOff now) nofun rfl
  rcases move.to_backingOff r inside with same | same
  · exact absurd same outside
  · exact ⟨i, by rw [did, same]⟩

/-- The time of the next start is 0, or `RESPAWN_BACKOFF_SECS` after a reading of the clock. -/
theorem respawnAt_read (e : Execution k.semantics (boot candidates kern)) (n : ℕ) :
    (e.conf n).world.mem.respawnAt = 0 ∨ ∃ (i now : ℕ), e.did i = some ⟨.sys .clockGettime, now⟩ ∧
      (e.conf n).world.mem.respawnAt = now + RESPAWN_BACKOFF_SECS := by
  induction n with
  | zero =>
      rw [e.start]
      exact .inl rfl
  | succ n ih =>
      rcases respawnAt_turn e n with same | did
      · rw [same]
        exact ih
      · generalize (e.conf (n + 1)).world.mem.respawnAt = at_ at did
        obtain ⟨p, here, -⟩ := exists_here e n
        obtain ⟨f, move, -⟩ := here.move did
        cases move with
        | log log => cases log
        | bringUp early => cases early
        | supervise => exact .inl rfl
        | setRespawnAt =>
            obtain ⟨i, read⟩ := here.read_before
            exact .inr ⟨i, _, read, rfl⟩

/-- If the clock moves on, all readings from some turn on have reached the time of the next start.
-/
theorem ClockMovesOn.due (moves : ClockMovesOn e) (n : ℕ) :
    ∃ j, ∀ m (later : ℕ), j ≤ m → e.did m = some ⟨.sys .clockGettime, later⟩ →
      (e.conf n).world.mem.respawnAt ≤ later := by
  rcases respawnAt_read e n with never | ⟨i, now, read, set_⟩
  · exact ⟨0, fun _ later _ _ => by omega⟩
  · obtain ⟨j, shown⟩ := moves i now read
    refine ⟨j, fun m later from_ did => ?_⟩
    have reached := shown m later from_ did
    have sooner : RESPAWN_BACKOFF_SECS ≤ GRACE_SECS := by decide
    omega

/-! ## Back to the head of the loop -/

theorem Here.not_lost (here : Here e n p) : p ≠ .lost := by
  obtain ⟨q, there, found⟩ := exists_here e n
  rwa [here.unique there]

theorem StaysUp.not_parking (stays : StaysUp e) : ¬ Here e n .parking := by
  intro here
  obtain ⟨m, r, -, did, -⟩ := here.makes .park rfl
  exact stays.not_parks ⟨m, r, did⟩

/-- From the place `failing` pid 1 comes to a call of `failed`. -/
theorem Here.strikes (here : Here e n .failing) :
    ∃ m verdict, n ≤ m ∧ e.did m = some ⟨.mem .failed, verdict⟩ ∧
      Here e (m + 1) (Place.afterVerdict verdict) := by
  obtain ⟨m₁, now, later₁, -, -, backingOff⟩ := here.makes .failing rfl
  obtain ⟨m₂, r, later₂, -, -, dying⟩ := backingOff.makes .setRespawnAt rfl
  obtain ⟨m₃, shell, later₃, -, -, striking⟩ := dying.makes .dying rfl
  cases shell with
  | none => exact absurd rfl striking.not_lost
  | some spec =>
      obtain ⟨m₄, verdict, later₄, did, -, next⟩ := striking.makes .failed rfl
      exact ⟨m₄, verdict, by omega, did, next⟩

/-- From the end of a harvest a pid 1 that never gives up comes back to the head of its loop. -/
theorem StaysUp.accounts (stays : StaysUp e) {s : Option ℕ} {childrenLeft : Bool}
    (here : Here e n (Place.afterHarvest .supervising s childrenLeft)) :
    ∃ m, n ≤ m ∧ Here e m .loopHead := by
  unfold Place.afterHarvest at here
  cases s with
  | none => exact ⟨n, Nat.le_refl n, here⟩
  | some ranFor =>
      dsimp only at here
      split at here
      · obtain ⟨m, r, later, -, -, next⟩ := here.makes .survived rfl
        exact ⟨m + 1, by omega, next⟩
      · obtain ⟨m, verdict, later, -, next⟩ := here.strikes
        unfold Place.afterVerdict at next
        split at next
        · exact ⟨m + 1, by omega, next⟩
        · exact ⟨m + 1, by omega, next⟩
        · exact absurd next stays.not_parking
        · exact absurd rfl next.not_lost

/-- From the poll of `supervise` a pid 1 that never gives up comes back to the head of its loop. -/
theorem StaysUp.heeds (stays : StaysUp e) (calm : ¬ ReapsForever e) (moves : ClockMovesOn e)
    {millis : Int} (here : Here e n (.waiting millis)) : ∃ m, n ≤ m ∧ Here e m .loopHead := by
  obtain ⟨m₁, c₁, r₁, q₁, polls⟩ := here.next_move
  obtain ⟨f₁, move₁, rfl⟩ := polls.move
  have later₁ := polls.later
  cases move₁ with
  | log log => exact absurd log (Bool.eq_false_iff.mp polls.matters)
  | poll =>
      have next := polls.to_
      unfold Place.afterPoll at next
      split at next
      · split at next
        · exact ⟨m₁ + 1, by omega, next⟩
        · exact absurd next stays.not_parking
      · split at next
        · exact ⟨m₁ + 1, by omega, next⟩
        · obtain ⟨m₂, c₂, r₂, q₂, reads⟩ := next.next_move
          obtain ⟨f₂, move₂, rfl⟩ := reads.move
          have later₂ := reads.later
          cases move₂ with
          | log log => exact absurd log (Bool.eq_false_iff.mp reads.matters)
          | read =>
              have heard := reads.to_
              unfold Place.afterRead Place.afterSignal at heard
              split at heard
              · split at heard
                · exact ⟨m₂ + 1, by omega, heard⟩
                · exact absurd heard stays.not_parking
              · split at heard
                · exact absurd heard stays.not_parking
                · split at heard
                  · obtain ⟨m₃, s, childrenLeft, later₃, -, harvested⟩ := heard.harvests rfl calm
                    obtain ⟨m₄, r, later₄, -, -, next⟩ := harvested.makes .forgetFinished rfl
                    obtain ⟨m, later, round⟩ := stays.accounts next
                    exact ⟨m, by omega, round⟩
                  · exact absurd (stopping_hands_over calm moves heard rfl) stays.not_hands_over
                  · exact ⟨m₂ + 1, by omega, heard⟩

/-- A pid 1 that never gives up is at the head of its loop again and again. -/
theorem StaysUp.comes_back (stays : StaysUp e) (calm : ¬ ReapsForever e) (moves : ClockMovesOn e)
    (n : ℕ) : ∃ m, n ≤ m ∧ Here e m .loopHead := by
  obtain ⟨i, millis, fd, r, later, -, there⟩ := stays.polls calm moves n
  obtain ⟨m, later', round⟩ := stays.heeds calm moves there
  exact ⟨m, by omega, round⟩

/-! ## From an empty table to a start -/

/-- The `n`-th turn is a `fork` that returns the child `pid`. -/
def Starts (e : Execution k.semantics (boot candidates kern)) (n : ℕ) (pid : Int) : Prop :=
  ∃ errno, e.did n = some ⟨.sys .fork, ⟨pid, errno⟩⟩ ∧ 1 < pid

/-- The places of `supervise` at which the harvest, if there is one, has found no shell. -/
def Place.eventless : Place → Bool
  | .loopHead => true
  | .idle => true
  | .due _ => true
  | .waiting _ => true
  | .readable => true
  | .reaping .supervising none => true
  | .crediting .supervising none _ _ => true
  | .harvested .supervising none _ => true
  | _ => false

/-- From these places moves lead to such places or to a start, as long as no exit recorded is that
of a shell. -/
theorem Moves.eventless {c : Call} {f : c.Res → Place} (move : Moves p c f) (r : c.Res)
    (eventless : p.eventless) (unknown : ∀ pid status gone,
      (⟨c, r⟩ : Did calls) ≠ ⟨.mem (.recordExit pid status), some gone⟩) :
    (f r).eventless ∨ f r = .asking false ∨ f r = .parking ∨
      ∃ action, f r = .reaping (.stopping action) none := by
  cases move with
  | log => exact .inl eventless
  | idle => exact .inl rfl
  | running =>
      dsimp only
      split <;> exact .inl rfl
  | due =>
      dsimp only
      split
      · exact .inr (.inl rfl)
      · exact .inl rfl
  | poll =>
      unfold Place.afterPoll
      split
      · split
        · exact .inl rfl
        · exact .inr (.inr (.inl rfl))
      · split <;> exact .inl rfl
  | read =>
      unfold Place.afterRead Place.afterSignal
      split
      · split
        · exact .inl rfl
        · exact .inr (.inr (.inl rfl))
      · split
        · exact .inr (.inr (.inl rfl))
        · split
          · exact .inl rfl
          · exact .inr (.inr (.inr ⟨_, rfl⟩))
          · exact .inl rfl
  | @waitpid why shortestLife =>
      unfold Place.afterWaitpid
      cases why with
      | supervising =>
          cases shortestLife with
          | none => split <;> exact .inl rfl
          | some => cases eventless
      | _ => cases eventless
  | @recordExit why shortestLife =>
      cases r with
      | some gone => exact absurd rfl (unknown _ _ gone)
      | none =>
          cases why with
          | supervising =>
              cases shortestLife with
              | none => exact .inl rfl
              | some => cases eventless
          | _ => cases eventless
  | @forgetFinished why shortestLife =>
      cases why with
      | supervising =>
          cases shortestLife with
          | none => exact .inl rfl
          | some => cases eventless
      | _ => cases eventless
  | _ => cases eventless

theorem StaysUp.asks_starts (stays : StaysUp e) {first : Bool} (here : Here e n (.asking first)) :
    ∃ m pid, n ≤ m ∧ Starts e m pid := by
  obtain ⟨m, shell, later, -, -, chosen⟩ := here.makes .ask rfl
  cases shell with
  | none => exact absurd rfl chosen.not_lost
  | some spec =>
      obtain ⟨m', r, later', did, -, next⟩ := chosen.makes .fork rfl
      have promised : r.rc = -1 ∨ 1 < r.rc := did_promised did
      rcases promised with failed | pid
      · rw [if_pos failed] at next
        obtain ⟨m'', shell, -, -, -, next⟩ := next.makes .noFork rfl
        cases shell with
        | none => exact absurd rfl next.not_lost
        | some => exact absurd next stays.not_parking
      · exact ⟨m', r.rc, by omega, r.errno, did, pid⟩

section Empty

variable (noStart : ∀ m, n ≤ m → ∀ pid, ¬ Starts e m pid)

include noStart

/-- As long as no shell is started, the table stays without one. -/
theorem stays_empty (here : Here e n p) (outside : p.kind ≠ .forked)
    (noShell : (e.conf n).world.mem.table.shells = []) (later : n ≤ m) :
    (e.conf m).world.mem.table.shells = [] ∧ ∀ q, Here e m q → q.kind ≠ .forked := by
  induction m, later using Nat.le_induction with
  | base => exact ⟨noShell, fun q there => by rwa [there.unique here]⟩
  | succ m later ih =>
      obtain ⟨noShell, outside⟩ := ih
      obtain ⟨q, there, -⟩ := exists_here e m
      refine ⟨shells_turn noShell fun name pid owns did => ?_, fun q' next => ?_⟩
      · obtain ⟨f, move, -⟩ := there.move did
        cases move with
        | log log => cases log
        | bringUp early => cases early
        | track => exact outside _ there rfl
      · cases did : e.did m with
        | none =>
            cases next.unique (there.silent did)
            exact outside _ there
        | some made =>
            obtain ⟨c, r⟩ := made
            obtain ⟨f, move, next'⟩ := there.move did
            cases next.unique next'
            intro forked
            rcases move.mapped r with same | goes
            · exact outside _ there (by rw [← same, forked])
            · rw [forked] at goes
              cases q with
              | chosen =>
                  cases move with
                  | log => cases forked
                  | fork =>
                      have promised : r.rc = -1 ∨ 1 < r.rc := did_promised did
                      rcases promised with failed | pid
                      · dsimp only at forked
                        rw [if_pos failed] at forked
                        cases forked
                      · exact noStart m later r.rc ⟨r.errno, did, pid⟩
              | _ => cases goes

/-- If the table has no shell at the head of the loop and none is started, pid 1 stays at such
places, and the time of the next start stays as it is. -/
theorem nothing_happens (stays : StaysUp e) (calm : ¬ ReapsForever e) (moves : ClockMovesOn e)
    (here : Here e n .loopHead) (noShell : (e.conf n).world.mem.table.shells = []) (later : n ≤ m) :
    (∀ q, Here e m q → q.eventless) ∧
      (e.conf m).world.mem.respawnAt = (e.conf n).world.mem.respawnAt := by
  induction m, later using Nat.le_induction with
  | base => exact ⟨fun q there => by rw [there.unique here]; rfl, rfl⟩
  | succ m later ih =>
      obtain ⟨eventless, same⟩ := ih
      obtain ⟨q, there, -⟩ := exists_here e m
      have inside := eventless q there
      obtain ⟨empty, -⟩ := stays_empty noStart here nofun noShell later
      constructor
      · intro q' next
        cases did : e.did m with
        | none =>
            cases next.unique (there.silent did)
            exact inside
        | some made =>
            obtain ⟨c, r⟩ := made
            obtain ⟨f, move, next'⟩ := there.move did
            cases next.unique next'
            have unknown : ∀ pid status gone,
                (⟨c, r⟩ : Did calls) ≠ ⟨.mem (.recordExit pid status), some gone⟩ := by
              rintro pid status gone known
              cases known
              obtain ⟨now, ran⟩ := memory_result did
              have credited :=
                ((e.conf m).world.mem.table.recordExit_shells pid status now).1
              rw [show ((e.conf m).world.mem.table.recordExit pid status now).1 = some gone from
                congrArg Prod.fst ran, empty] at credited
              cases credited
            rcases move.eventless r inside unknown with goesOn | asks | parks | ⟨action, stops⟩
            · exact goesOn
            · rw [asks] at next
              obtain ⟨i, pid, after, starts⟩ := stays.asks_starts next
              exact absurd starts (noStart i (by omega) pid)
            · rw [parks] at next
              exact absurd next stays.not_parking
            · rw [stops] at next
              exact absurd (stopping_hands_over calm moves next rfl) stays.not_hands_over
      · rcases respawnAt_turn e m with still | did
        · rw [still, same]
        · obtain ⟨f, move, -⟩ := there.move did
          generalize (e.conf (m + 1)).world.mem.respawnAt = at_ at move
          cases move with
          | log log => cases log
          | bringUp early => cases early
          | supervise | setRespawnAt => cases inside

end Empty

/-- When the table has no shell, a pid 1 that never gives up starts one. -/
theorem starts_again (stays : StaysUp e) (calm : ¬ ReapsForever e) (moves : ClockMovesOn e)
    (here : Here e n p) (outside : p.kind ≠ .forked)
    (noShell : (e.conf n).world.mem.table.shells = []) : ∃ m pid, n ≤ m ∧ Starts e m pid := by
  by_contra never
  have noStart : ∀ m, n ≤ m → ∀ pid, ¬ Starts e m pid :=
    fun m later pid starts => never ⟨m, pid, later, starts⟩
  obtain ⟨m₀, later₀, head⟩ := stays.comes_back calm moves n
  have empty : ∀ m, n ≤ m → (e.conf m).world.mem.table.shells = [] :=
    fun m later => (stays_empty noStart here outside noShell later).1
  have noStart₀ : ∀ m, m₀ ≤ m → ∀ pid, ¬ Starts e m pid :=
    fun m later => noStart m (Nat.le_trans later₀ later)
  -- a round once the clock shows that the backoff is over
  obtain ⟨j, shown⟩ := moves.due m₀
  obtain ⟨m₁, later₁, round⟩ := stays.comes_back calm moves (max m₀ j)
  obtain ⟨i₁, running, after₁, did₁, -, next⟩ := round.makes .running rfl
  have idle : running = 0 := by
    obtain ⟨now, ran⟩ := memory_result did₁
    have counted : (e.conf i₁).world.mem.table.running = running := congrArg Prod.fst ran
    rw [← counted, Table.running_eq, empty i₁ (by omega)]
    rfl
  rw [if_pos idle] at next
  obtain ⟨i₂, now, after₂, did₂, -, due⟩ := next.makes .idle rfl
  obtain ⟨i₃, respawnAt, after₃, did₃, -, next⟩ := due.makes .due rfl
  have over_ : respawnAt ≤ now := by
    obtain ⟨-, same⟩ := nothing_happens noStart₀ stays calm moves head (empty m₀ later₀)
      (show m₀ ≤ i₃ by omega)
    obtain ⟨now', ran⟩ := memory_result did₃
    have found : (e.conf i₃).world.mem.respawnAt = respawnAt := congrArg Prod.fst ran
    rw [← found, same]
    exact shown i₂ now (by omega) did₂
  rw [if_pos over_] at next
  obtain ⟨m, pid, later, starts⟩ := stays.asks_starts next
  exact noStart m (by omega) pid starts

/-- After a start there comes a turn at which the table has a shell. -/
theorem Here.tracks {first : Bool} {spec : Spec} {pid : Int}
    (here : Here e n (.forked first spec pid)) :
    ∃ m, n ≤ m ∧ (e.conf m).world.mem.table.shells ≠ [] := by
  obtain ⟨m, r, later, did, -, -⟩ := here.makes .track rfl
  obtain ⟨now, ran⟩ := memory_result did
  refine ⟨m + 1, by omega, ?_⟩
  rw [← show ((e.conf m).world.mem.table.track spec.name pid spec.wantsOwnSession now) =
    (e.conf (m + 1)).world.mem.table from congrArg (fun x => x.2.table) ran, Table.shells_track]
  exact List.append_ne_nil_of_right_ne_nil _ (List.cons_ne_nil _ _)

theorem Starts.forked {pid : Int} (starts : Starts e n pid) :
    ∃ first spec, Here e (n + 1) (.forked first spec pid) := by
  obtain ⟨errno, did, fresh⟩ := starts
  obtain ⟨p, here, -⟩ := exists_here e n
  obtain ⟨f, move, next⟩ := here.move did
  cases move with
  | log log => cases log
  | bringUp early => cases early
  | fork =>
      dsimp only at next
      rw [if_neg (by omega), if_neg (by omega)] at next
      exact ⟨_, _, next⟩

/-- Calls of the log leave the table as it is. -/
theorem Goes.table {c : Call} {r : c.Res} (goes : Goes e n p m c r q) :
    (e.conf m).world.mem.table = (e.conf n).world.mem.table := by
  suffices h : ∀ i, n ≤ i → i ≤ m → (e.conf i).world.mem.table = (e.conf n).world.mem.table from
    h m goes.later (Nat.le_refl m)
  intro i from_
  induction i, from_ using Nat.le_induction with
  | base => exact fun _ => rfl
  | succ i from_ ih =>
      intro before
      refine Eq.trans ?_ (ih (by omega))
      rcases memory_turn e i with same | ⟨o, r', now, did, ran⟩
      · rw [same]
      · have log := goes.quiet i from_ before _ _ did
        have after : (o.run now (e.conf i).world.mem).2 = (e.conf (i + 1)).world.mem := by rw [ran]
        rw [← after]
        cases o with
        | kmsgLoad | kmsgStore => rfl
        | _ => cases log

end Memory

/-! ## A dead shell is replaced -/

section Replaced

variable {candidates : List Spec} {e : Execution kernel.semantics (boot candidates Processes.boot)}
  {n m : ℕ} {p q : Place} {pid : Int}

/-- When `waitpid` hands over a child, pid 1 comes to the place where its exit is recorded. -/
theorem Reaps.crediting (reaps : Reaps e n pid) (fresh : 1 < pid) :
    ∃ why shortestLife status, Here e n (.reaping why shortestLife) ∧
      Here e (n + 1) (.crediting why shortestLife pid status) ∧
        (e.conf (n + 1)).world.mem = (e.conf n).world.mem := by
  obtain ⟨errno, status, did⟩ := reaps
  obtain ⟨p, here, -⟩ := exists_here e n
  obtain ⟨f, move, next⟩ := here.move did
  have same : (e.conf (n + 1)).world.mem = (e.conf n).world.mem := by
    rcases memory_turn e n with same | ⟨o, r, now, did', -⟩
    · exact same
    · cases did.symm.trans did'
  cases move with
  | log log => cases log
  | bringUp early => cases early
  | waitpid =>
      have child : Sys.reapedOf (⟨pid, errno⟩, status) = .child pid status := by
        simp [Sys.reapedOf, show (0 : Int) < pid by omega]
      rw [Place.afterWaitpid, child] at next
      exact ⟨_, _, status, here, next, same⟩

/-- When a shell is handed over, its entry is found in the table, which then has no running shell.
-/
theorem Reaps.credited {zombie : Bool}
    (shell : (e.conf n).world.kern.proc pid = .child true zombie)
    (reaps : Reaps e n pid) :
    ∃ m why s, n < m ∧ Here e m (.reaping why s) ∧ s.isSome ∧
      (e.conf m).world.mem.table.shells = [] := by
  obtain ⟨p, before, -⟩ := exists_here e n
  have fresh : 1 < pid := before.told.pids pid (by simp [shell])
  obtain ⟨why, s, status, here, next, same⟩ := reaps.crediting fresh
  have sound := sound_everywhere (e.reaches n) here
  have member : pid ∈ (e.conf n).world.mem.table.shells := by
    have owes := (sound.mirrors.started pid).mp ⟨zombie, shell⟩
    rwa [Place.owes_of_told rfl] at owes
  obtain ⟨i, c, r, q, goes⟩ := next.next_move
  obtain ⟨f, move, rfl⟩ := goes.move
  have after := goes.later
  cases move with
  | log log => exact absurd log (Bool.eq_false_iff.mp goes.matters)
  | recordExit =>
      obtain ⟨now, ran⟩ := memory_result goes.did
      rw [← same, ← goes.table] at member
      have few := sound.tidy.few
      rw [← same, ← goes.table] at few
      obtain ⟨found, rest⟩ := Table.recordExit_shells (e.conf i).world.mem.table pid status now
      rw [show ((e.conf i).world.mem.table.recordExit pid status now).1 = r from
        congrArg Prod.fst ran] at found
      rw [show ((e.conf i).world.mem.table.recordExit pid status now).2 =
        (e.conf (i + 1)).world.mem.table from congrArg (fun x => x.2.table) ran] at rest
      have there := goes.to_
      cases r with
      | none => exact absurd member (of_decide_eq_false found.symm)
      | some gone =>
          refine ⟨i + 1, why, _, by omega, there, rfl, ?_⟩
          rw [rest]
          generalize (e.conf i).world.mem.table.shells = shells at member few
          match shells with
          | [x] =>
              cases List.mem_singleton.mp member
              rw [List.erase_cons_head]

end Replaced

/-! ## The promise -/

/-- The plan in which the first shell dies when pid 1 first waits. -/
def shellDies : Plan kernel :=
  play fun w c =>
    if c = .sys (.poll 4 UNTIL_SOMETHING_ARRIVES) ∧ w.kern.reaped = [] then .shellDies
    else .nothing

def besideADeadShell : Config calls (World Processes) Unit :=
  shellDies.driver.run (fun c => c.prog.next == some (Call.sys (.read 4))) 400
    (boot CANDIDATES Processes.boot)

/-- Pid 1 waiting beside the second shell. -/
def besideAnotherShell : Config calls (World Processes) Unit :=
  shellDies.driver.run (fun c => c.world.kern.reaped == [(100, true)] &&
    c.prog.next == some (Call.sys (.poll 4 UNTIL_SOMETHING_ARRIVES))) 400 besideADeadShell

theorem besideADeadShell_turns :
    Turns kernel.semantics (boot CANDIDATES Processes.boot) besideADeadShell ∧
      Few besideADeadShell.world.kern := by
  unfold besideADeadShell
  exact shellDies.turns _ _ few_boot

theorem besideAnotherShell_turns :
    Turns kernel.semantics besideADeadShell besideAnotherShell ∧
      Few besideAnotherShell.world.kern := by
  unfold besideAnotherShell
  exact shellDies.turns _ _ besideADeadShell_turns.2

/-- There is an execution in which the first shell dies and the second one lives on. -/
theorem exists_replacement :
    ∃ (e : Execution kernel.semantics (boot CANDIDATES Processes.boot)) (n : ℕ),
      (e.conf n).world.kern.proc 100 = .child true true ∧ StaysUp e ∧ ¬ ReapsForever e ∧
        ClockMovesOn e ∧ Hears e ∧ ¬ Starves e SIGCHLD := by
  obtain ⟨turns₁, -⟩ := besideADeadShell_turns
  obtain ⟨turns₂, few⟩ := besideAnotherShell_turns
  have next : besideAnotherShell.prog.next = some (Call.sys (.poll 4 UNTIL_SOMETHING_ARRIVES)) := by
    decide +kernel
  have lull : Lull CANDIDATES besideAnotherShell.world.kern besideAnotherShell :=
    .of_next (Turns.reaches (turns₁.trans turns₂)) next (by decide +kernel)
  have lives : besideAnotherShell.world.kern.HasChild := ⟨100, true, false, by decide +kernel⟩
  obtain ⟨e, n₁, n, there, after, lulls⟩ := lull.exists_execution turns₁ turns₂
    (few.noZombie (by decide +kernel) (by decide +kernel)) lives
  have zombie : (e.conf n₁).world.kern.proc 100 = .child true true := by
    rw [there]
    decide +kernel
  exact ⟨e, n₁, zombie, lull_stays lulls (by rw [after]; decide +kernel), lull_calm lulls,
    lull_clock lulls, lull_hears lulls (by decide +kernel), lull_heard lulls SIGCHLD⟩

/-- **There is a shell again and again.**  In every execution of `main`, on any kernel, in which
pid 1 never gives up, children do not keep coming and the clock moves on, there is a shell in
the table from every turn on. -/
theorem there_is_a_shell_again_and_again {K : Type} {k : Kernel K} {candidates : List Spec}
    {kern : K} {e : Execution k.semantics (boot candidates kern)} (stays : StaysUp e) (calm : ¬ ReapsForever e)
    (moves : ClockMovesOn e) (n : ℕ) : ∃ m, n ≤ m ∧ (e.conf m).world.mem.table.shells ≠ [] := by
  obtain ⟨p, here, -⟩ := exists_here e n
  by_cases shell : (e.conf n).world.mem.table.shells = []
  · by_cases forked : p.kind = .forked
    · cases p with
      | forked => exact here.tracks
      | _ => cases forked
    · obtain ⟨i, pid, later, starts⟩ := starts_again stays calm moves here forked shell
      obtain ⟨first, spec, there⟩ := starts.forked
      obtain ⟨m, later', shell⟩ := there.tracks
      exact ⟨m, by omega, shell⟩
  · exact ⟨n, Nat.le_refl n, shell⟩

theorem there_is_a_shell_again_and_again_after_a_death :
    ∃ (e : Execution kernel.semantics (boot CANDIDATES Processes.boot)) (n : ℕ),
      (e.conf n).world.kern.proc 100 = .child true true ∧
        ∀ i, ∃ m, i ≤ m ∧ (e.conf m).world.mem.table.shells ≠ [] := by
  obtain ⟨e, n, zombie, stays, calm, moves, -, -⟩ := exists_replacement
  exact ⟨e, n, zombie, there_is_a_shell_again_and_again stays calm moves⟩

/-- **A dead shell is replaced.**  In every execution of `main` on the kernel of processes in
which pid 1 never gives up, children do not keep coming, the clock moves on, waits do not fail
for ever beside a pending signal, and lower signals that ask for nothing are not all that is
ever taken, a shell that has died is handed over in the end, and after that another one is
started. -/
theorem a_dead_shell_is_replaced {candidates : List Spec}
    {e : Execution kernel.semantics (boot candidates Processes.boot)} {n : ℕ} {pid : Int}
    (stays : StaysUp e) (calm : ¬ ReapsForever e)
    (moves : ClockMovesOn e) (hears : Hears e) (heard : ¬ Starves e SIGCHLD)
    (zombie : (e.conf n).world.kern.proc pid = .child true true) :
    ∃ m m' pid', n ≤ m ∧ m < m' ∧ Reaps e m pid ∧ Starts e m' pid' := by
  classical
  have reaped : ∃ m, n ≤ m ∧ Reaps e m pid := by
    by_contra unreaped
    exact heard (unreaped_starves zombie (fun m later reaps => unreaped ⟨m, later, reaps⟩) stays
      calm hears)
  -- the first time it is handed over, it is the shell
  obtain ⟨later, reaps⟩ := Nat.find_spec reaped
  have before : ∀ i, n ≤ i → i < Nat.find reaped → ¬ Reaps e i pid :=
    fun i from_ before reaps => Nat.find_min reaped before ⟨from_, reaps⟩
  generalize Nat.find reaped = m at later reaps before
  obtain ⟨i, why, s, after, here, -, noShell⟩ := reaps.credited (zombie_stays zombie before later)
  -- the table is told, and is empty
  obtain ⟨m', pid', later', starts⟩ := starts_again stays calm moves here nofun noShell
  exact ⟨m, m', pid', later, by omega, reaps, starts⟩

theorem a_dead_shell_is_replaced_once :
    ∃ (e : Execution kernel.semantics (boot CANDIDATES Processes.boot)) (n m m' : ℕ) (pid : Int),
      (e.conf n).world.kern.proc 100 = .child true true ∧ n ≤ m ∧ m < m' ∧ Reaps e m 100 ∧
        Starts e m' pid := by
  obtain ⟨e, n, zombie, stays, calm, moves, hears, heard⟩ := exists_replacement
  obtain ⟨m, m', pid, later, after, reaps, starts⟩ :=
    a_dead_shell_is_replaced stays calm moves hears heard zombie
  exact ⟨e, n, m, m', pid, zombie, later, after, reaps, starts⟩

end Zevory
