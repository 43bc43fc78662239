import Zevory.Clock
import Zevory.Restarts

/-!
# How long pid 1 waits

Pid 1 on a kernel that counts the time it has waited apart from the time that everything else
has taken.  Only `poll` and `pause` wait, and a `poll` with a limit no longer than that.  The
time waited during a shutdown, and without a shell before a restart, is bounded, for every
start of the clock and however long everything else takes.
-/

namespace Zevory

open Interaction Signal Power

/-- The time that pid 1 has waited, and the time that everything else has taken, in nanoseconds. -/
structure Spent where
  waited : ℕ
  busy : ℕ
  deriving DecidableEq

/-- The time since the start. -/
def Spent.now (k : Spent) : ℕ := k.waited + k.busy

/-- Milliseconds in nanoseconds. -/
def nanos (millis : Int) : ℕ := millis.toNat * 10 ^ 6

/-- Only a poll and `pause` may wait, and a poll with a limit no longer than that. -/
def MayWait (slept : ℕ) : Syscall → Prop
  | .poll _ millis => 0 ≤ millis → slept ≤ nanos millis
  | .pause => True
  | _ => slept = 0

/-- The kernel that keeps these two times: any results, but for those of `clock_gettime`, which are
the whole seconds of the time. -/
def spending : Kernel Spent where
  others k k' := ∃ more, k' = ⟨k.waited, k.busy + more⟩
  answer k s r k' := Promised (.sys s) r ∧ Ticks k.now s r ∧
    ∃ slept, MayWait slept s ∧ k' = ⟨k.waited + slept, k.busy⟩
  reads k secs := secs = k.now / NANOS
  time := Spent.now
  promised h := h.1

/-- The calls that may wait. -/
def Call.waits : Call → Bool
  | .sys (.poll _ _) => true
  | .sys .pause => true
  | _ => false

theorem Call.prompt_log {c : Call} (log : c.isLog) : c.waits = false := by
  cases c with
  | sys s => cases s <;> first | rfl | cases log
  | mem => rfl

theorem Call.prompt_bringUp {c : Call} (early : c.isBringUp) : c.waits = false := by
  cases c with
  | sys s => cases s <;> first | rfl | cases early
  | mem => rfl

section Answers

variable {w w' : World Spent} {c : Call} {r : c.Res}

theorem spends_nothing (answer : spending.Answers w c r w') (prompt : c.waits = false) :
    w'.kern = w.kern := by
  cases answer with
  | mem => rfl
  | @sys s r kern answer =>
      obtain ⟨-, -, slept, allowed, rfl⟩ := answer
      have zero : slept = 0 := by
        cases s with
        | poll | pause => cases prompt
        | _ => exact allowed
      rw [zero]
      rfl

theorem spends_poll {fd millis : Int} {r : Ret}
    (answer : spending.Answers w (.sys (.poll fd millis)) r w') (bounded : 0 ≤ millis) :
    w'.kern.waited ≤ w.kern.waited + nanos millis ∧ w'.kern.busy = w.kern.busy := by
  cases answer with
  | sys answer =>
      obtain ⟨-, -, slept, allowed, rfl⟩ := answer
      exact ⟨Nat.add_le_add_left (allowed bounded) _, rfl⟩

theorem reads_now {r : ℕ} (answer : spending.Answers w (.sys .clockGettime) r w') :
    r = w.kern.now / NANOS := by
  cases answer with
  | sys answer => exact answer.2.1

theorem reads_past {r : ℕ} (answer : spending.Answers w (.sys .clockGettime) r w') :
    r * NANOS ≤ w.kern.now := by
  rw [reads_now answer]
  exact Nat.div_mul_le_self _ _

end Answers

/-- What the others do takes time, but none of it is time that pid 1 has waited. -/
theorem spending_star {w v : World Spent}
    (others : Relation.ReflTransGen spending.semantics.interfere w v) :
    v.kern.waited = w.kern.waited ∧ w.kern.busy ≤ v.kern.busy := by
  induction others with
  | refl => exact ⟨rfl, Nat.le_refl _⟩
  | tail _ step ih =>
      obtain ⟨kern, ⟨more, rfl⟩, rfl⟩ := step
      exact ⟨ih.1, Nat.le_trans ih.2 (Nat.le_add_right _ _)⟩

/-- What does not become false when time passes in which pid 1 does not wait is stable. -/
theorem spending_stable {P : ℕ → ℕ → Mem → Prop}
    (later : ∀ {waited busy more mem}, P waited busy mem → P waited (busy + more) mem) :
    Stable spending.semantics fun w => P w.kern.waited w.kern.busy w.mem := by
  intro w w' holds others
  obtain ⟨kern, ⟨more, rfl⟩, rfl⟩ := others
  exact later holds

/-! ## A shutdown -/

/-- The longest that one call of `wait_for_silence` waits, before SIGKILL or after it: its seconds
and one more poll. -/
def longestSilence (killed : Bool) : ℕ := Place.grace killed * NANOS + nanos CHECK_EVERY_MS

/-- The most pid 1 has waited when it calls `wait_for_silence`, if it had waited for `since` when
the shutdown was asked for: nothing more at the first call, and one whole wait for silence more at
the second one, after SIGKILL. -/
def latest (since : ℕ) (killed : Bool) : ℕ := if killed then since + longestSilence false else since

/-- A bound on the time waited, in a wait for silence with this deadline before it reads the clock.
-/
structure Expects (since waited busy : ℕ) (killed : Bool) (deadline : ℕ) : Prop where
  deadline : deadline * NANOS ≤ latest since killed + Place.grace killed * NANOS + busy
  waited : waited ≤ latest since killed + longestSilence killed

/-- How long pid 1 has waited at most while children are reaped during a shutdown. -/
def Why.endsBy (since waited busy : ℕ) : Why → Prop
  | .supervising => False
  | .stopping _ => waited ≤ since
  | .silence _ killed deadline => Expects since waited busy killed deadline

/-- How long pid 1 has waited at most at each place, when it had waited for `since` at the time the
shutdown was asked for. -/
def Place.endsBy (since waited busy : ℕ) : Place → Prop
  | .reaping why _ => why.endsBy since waited busy
  | .crediting why _ _ _ => why.endsBy since waited busy
  | .harvested why _ _ => why.endsBy since waited busy
  | .listing _ => waited ≤ since
  | .hangingUp _ _ => waited ≤ since
  | .continuing _ => waited ≤ since
  | .timing _ killed => waited ≤ latest since killed
  | .checking _ killed deadline => Expects since waited busy killed deadline
  | .watching _ killed deadline => Expects since waited busy killed deadline ∧
      waited ≤ latest since killed + Place.grace killed * NANOS
  | .watched _ killed deadline => Expects since waited busy killed deadline
  | .killing _ => waited ≤ latest since true
  | .silent _ => waited ≤ since + longestSilence false + longestSilence true
  | .synced _ => waited ≤ since + longestSilence false + longestSilence true
  | _ => False

section Kept

variable {since waited busy more : ℕ} {p : Place} {c : Call} {f : c.Res → Place} {r : c.Res}
  {w w' : World Spent} {action : Action} {killed : Bool} {deadline : ℕ}

theorem Expects.later (expects : Expects since waited busy killed deadline) :
    Expects since waited (busy + more) killed deadline :=
  ⟨Nat.le_trans expects.deadline (Nat.add_le_add_left (Nat.le_add_right _ _) _), expects.waited⟩

theorem endsBy_later (ends : p.endsBy since waited busy) : p.endsBy since waited (busy + more) := by
  have reaps :
      ∀ {why : Why}, why.endsBy since waited busy → why.endsBy since waited (busy + more) := by
    intro why ends
    cases why with
    | supervising => exact ends
    | stopping => exact ends
    | silence => exact ends.later
  cases p with
  | reaping | crediting | harvested => exact reaps ends
  | checking | watched => exact ends.later
  | watching => exact ⟨ends.1.later, ends.2⟩
  | _ => exact ends

/-- The bound holds when `wait_for_silence` sets its deadline. -/
theorem expects_from {now : ℕ} (reads : now = (waited + busy) / NANOS)
    (ends : waited ≤ latest since killed) :
    Expects since waited busy killed (now + Place.grace killed) := by
  refine ⟨?_, Nat.le_trans ends (Nat.le_add_right _ _)⟩
  have second : now * NANOS ≤ waited + busy := by
    rw [reads]
    exact Nat.div_mul_le_self _ _
  rw [Nat.add_mul]
  omega

/-- When the clock is before the deadline, pid 1 has not waited longer than the seconds of this
wait. -/
theorem Expects.early {now : ℕ} (expects : Expects since waited busy killed deadline)
    (reads : now = (waited + busy) / NANOS) (early : ¬ now ≥ deadline) :
    waited ≤ latest since killed + Place.grace killed * NANOS := by
  have before : waited + busy < deadline * NANOS := by
    rw [reads, ge_iff_le, Nat.not_le, Nat.div_lt_iff_lt_mul (by decide)] at early
    exact early
  have atMost := expects.deadline
  omega

theorem ends_at_last (waits : waited ≤ latest since killed + longestSilence killed) :
    waited ≤ since + longestSilence false + longestSilence true := by
  cases killed with
  | true => exact waits
  | false => exact Nat.le_trans waits (Nat.le_add_right _ _)

/-- Every move of a shutdown but the last keeps the bound. -/
theorem endsBy_kept (ends : p.endsBy since w.kern.waited w.kern.busy) (move : Moves p c f)
    (answer : spending.Answers w c r w') (notYet : c.handsOver = false) :
    (f r).endsBy since w'.kern.waited w'.kern.busy := by
  have still : c.waits = false → w'.kern = w.kern := spends_nothing answer
  cases move with
  | log log =>
      rw [still (Call.prompt_log log)]
      exact ends
  | @waitpid why =>
      rw [still rfl]
      unfold Place.afterWaitpid
      split <;> exact ends
  | @recordExit why =>
      rw [still rfl]
      cases r <;> exact ends
  | @forgetFinished why shortestLife childrenLeft =>
      rw [still rfl]
      cases why with
      | supervising => exact ends.elim
      | stopping =>
          cases childrenLeft with
          | true => exact ends
          | false =>
              have within : w.kern.waited ≤ since := ends
              show w.kern.waited ≤ since + longestSilence false + longestSilence true
              omega
      | silence =>
          cases childrenLeft with
          | true => exact ends
          | false => exact ends_at_last ends.waited
  | sessionLeaders | hangUp | terminate | cont =>
      rw [still rfl]
      exact ends
  | deadline =>
      rw [still rfl]
      exact expects_from (reads_now answer) ends
  | @check action killed deadline =>
      rw [still rfl]
      unfold Place.afterCheck
      split
      · cases killed with
        | true => exact ends_at_last ends.waited
        | false => exact ends.waited
      · rename_i early
        exact ⟨ends, ends.early (reads_now answer) early⟩
  | @watch action killed deadline =>
      obtain ⟨waited, busy⟩ := spends_poll answer (by decide)
      obtain ⟨expects, inTime⟩ := ends
      have expects' : Expects since w'.kern.waited w'.kern.busy killed deadline := by
        refine ⟨?_, ?_⟩
        · rw [busy]
          exact expects.deadline
        · rw [longestSilence]
          omega
      dsimp only
      split <;> exact expects'
  | watchRead =>
      rw [still rfl]
      exact ends
  | kill =>
      rw [still rfl]
      exact ends
  | sync =>
      rw [still rfl]
      exact ends
  | @handOver action => cases action <;> cases notYet
  | _ => exact ends.elim

theorem Expects.bound (expects : Expects since waited busy killed deadline) :
    waited ≤ since + longestSilence false + longestSilence true :=
  ends_at_last expects.waited

theorem latest_bound (ends : waited ≤ latest since killed) :
    waited ≤ since + longestSilence false + longestSilence true :=
  ends_at_last (Nat.le_trans ends (Nat.le_add_right _ _))

/-- At all places of a shutdown pid 1 has waited for 7.2 seconds at most. -/
theorem endsBy_bound (ends : p.endsBy since waited busy) :
    waited ≤ since + longestSilence false + longestSilence true := by
  have reaps : ∀ {why : Why}, why.endsBy since waited busy →
      waited ≤ since + longestSilence false + longestSilence true := by
    intro why ends
    cases why with
    | supervising => exact ends.elim
    | stopping => exact latest_bound (show waited ≤ latest since false from ends)
    | silence => exact ends.bound
  cases p with
  | reaping | crediting | harvested => exact reaps ends
  | listing | hangingUp | continuing => exact latest_bound (show waited ≤ latest since false from ends)
  | timing | killing => exact latest_bound ends
  | checking | watched => exact ends.bound
  | watching => exact ends.1.bound
  | silent | synced => exact ends
  | _ => exact ends.elim

end Kept

/-! ## Where every wait is as long as it may be -/

/-- A poll with a limit waits for all of it and times out, and one without a limit returns at once.
-/
def slept (k : Spent) (millis : Int) : Ret × Spent :=
  if millis < 0 then (⟨1, ⟨0, ""⟩⟩, k) else (⟨0, ⟨0, ""⟩⟩, ⟨k.waited + nanos millis, k.busy⟩)

theorem slept_answers {k kern : Spent} {fd millis : Int} {r : Ret} (h : slept k millis = (r, kern)) :
    spending.answer k (.poll fd millis) r kern := by
  unfold slept at h
  split at h
  · cases h
    exact ⟨trivial, trivial, 0, fun _ => Nat.zero_le _, rfl⟩
  · cases h
    exact ⟨trivial, trivial, nanos millis, fun _ => Nat.le_refl _, rfl⟩

theorem smooth_spends {s : Syscall} {r : s.Res} {k kern : Spent}
    (h : s.smooth.map (fun r => (r, k)) = some (r, kern)) : spending.answer k s r kern := by
  obtain ⟨promised, rfl⟩ := Syscall.smoothly h
  refine ⟨promised, ?_, 0, ?_, rfl⟩
  · cases s with
    | clockGettime => cases h
    | _ => trivial
  · cases s with
    | poll | pause => cases h
    | _ => rfl

/-- The script in which every read hands over `signal`, every poll waits for its time and `waitpid`
answers as it is told. -/
def pollsWaitOut (signal : Int) (waitpid : World Spent → Ret × Status) : Script spending where
  before w _ := w.kern
  answer w
    | .fork => some (⟨100, ⟨0, ""⟩⟩, w.kern)
    | .poll _ millis => some (slept w.kern millis)
    | .read _ => some ((⟨128, ⟨0, ""⟩⟩, signal), w.kern)
    | .waitpid => some (waitpid w, w.kern)
    | .clockGettime =>
        if w.kern.now / NANOS < 2 ^ 63 then some (w.kern.now / NANOS, w.kern) else none
    | s => s.smooth.map fun r => (r, w.kern)
  clock k := k.now / NANOS
  others := Script.still
  answers {w s r kern} h := by
    cases s with
    | fork =>
        cases h
        exact ⟨.inr (by decide), trivial, 0, rfl, rfl⟩
    | poll => exact slept_answers (Option.some.inj h)
    | read | waitpid =>
        cases h
        exact ⟨trivial, trivial, 0, rfl, rfl⟩
    | clockGettime =>
        obtain ⟨early, rfl, rfl⟩ := by simpa using h
        exact ⟨early, rfl, 0, rfl, rfl⟩
    | _ => exact smooth_spends h
  reads _ := rfl

/-- This kernel has an answer to every call whose result type has an element, as long as the clock
fits into 63 bits. -/
theorem spending_answers (w : World Spent) (c : Call) (early : w.kern.now / NANOS < 2 ^ 63)
    (comesBack : Nonempty c.Res) :
    ∃ r w', spending.Answers w c r w' ∧ w'.kern.now / NANOS < 2 ^ 63 := by
  cases c with
  | mem o => exact ⟨_, _, .mem (show spending.reads w.kern (w.kern.now / NANOS) from rfl), early⟩
  | sys s =>
      obtain ⟨r⟩ := comesBack
      have answered : ∃ r : s.Res, spending.answer w.kern s r w.kern := by
        obtain ⟨r', promised⟩ := promised_result r
        cases s with
        | clockGettime => exact ⟨w.kern.now / NANOS, early, rfl, 0, rfl, rfl⟩
        | poll => exact ⟨r', promised, trivial, 0, fun _ => Nat.zero_le _, rfl⟩
        | pause => exact ⟨r', promised, trivial, 0, trivial, rfl⟩
        | _ => exact ⟨r', promised, trivial, 0, rfl, rfl⟩
      obtain ⟨r, answer⟩ := answered
      exact ⟨r, _, .sys answer, early⟩

/-- The script in which the first shell does not go away when the machine is shut down. -/
def shellStays : Script spending := pollsWaitOut SIGTERM fun _ => (⟨0, ⟨0, ""⟩⟩, 0)

/-- Pid 1 about to read the first request. -/
def aboutToBeAsked : Config calls (World Spent) Unit :=
  shellStays.driver.run (fun c => c.prog.next == some (Call.sys (.read 4))) 400
    (boot CANDIDATES ⟨0, 0⟩)

theorem aboutToBeAsked_turns :
    Turns spending.semantics (boot CANDIDATES ⟨0, 0⟩) aboutToBeAsked := by
  unfold aboutToBeAsked
  exact shellStays.driver.turns _ _ _

/-- Pid 1 about to hand over to the kernel. -/
def aboutToHandOver : Config calls (World Spent) Unit :=
  shellStays.driver.run (fun c => c.prog.next == some (Call.sys (.reboot RB_AUTOBOOT))) 3000
    aboutToBeAsked

section Executions

variable {candidates : List Spec} {kern : Spent}
  {e : Execution spending.semantics (boot candidates kern)}
  {n m : ℕ}

/-- The first request for a shutdown is read by `supervise`, which goes on to `reap_all`. -/
theorem asked_stops {fd : Int} {r : Ret × Int} {action : Action} {p : Place} (here : Here e n p)
    (unasked : Unasked (e.conf n).world.hist) (did : e.did n = some ⟨.sys (.read fd), r⟩)
    (asks : Event.asks ⟨.sys (.read fd), r, 0⟩ = some action) :
    Here e (n + 1) (.reaping (.stopping action) none) := by
  obtain ⟨f, move, after⟩ := here.move did
  have noAction : p.action = none := (Path.story here).unasked unasked
  cases move with
  | log log => cases log
  | bringUp early => cases early
  | read =>
      have next := afterRead_asks r fd 0
      rw [asks] at next
      rwa [next] at after
  | watchRead => cases noAction

/-- **A shutdown waits no longer than 7.2 seconds.**  In every execution of `main`, from the
first request for a shutdown that is read up to the hand-over to the kernel pid 1 has waited for
7.2 seconds at most, whatever its children do and however long everything else takes. -/
theorem a_shutdown_waits_no_longer {fd : Int} {r : Ret × Int} {action : Action}
    (unasked : Unasked (e.conf n).world.hist) (did : e.did n = some ⟨.sys (.read fd), r⟩)
    (asks : Event.asks ⟨.sys (.read fd), r, 0⟩ = some action) (later : n < m)
    (notYet : ∀ i, n < i → i < m → ∀ (c : Call) (r : c.Res), e.did i = some ⟨c, r⟩ →
      c.handsOver = false) :
    (e.conf m).world.kern.waited ≤ (e.conf n).world.kern.waited + nanos 7200 := by
  obtain ⟨p, here, -⟩ := exists_here e n
  have stops := asked_stops here unasked did asks
  obtain ⟨v, -, -, others, answer⟩ := turn_answered did
  have start : (e.conf (n + 1)).world.kern.waited = (e.conf n).world.kern.waited := by
    rw [spends_nothing answer rfl]
    exact (spending_star others).1
  obtain ⟨q, -, ends⟩ := stops.kept
    (I := fun p w => p.endsBy (e.conf n).world.kern.waited w.kern.waited w.kern.busy)
    (fun p => spending_stable (P := fun waited busy _ => p.endsBy _ waited busy) endsBy_later)
    (Nat.le_of_eq start)
    (fun i q c f r w from_ before _ did move _ answer ends =>
      endsBy_kept ends move answer (notYet i from_ before c r did)) later
  have bound := endsBy_bound ends
  rw [Nat.add_assoc] at bound
  exact bound

end Executions

theorem a_shutdown_waits_no_longer_for_a_shell_that_stays :
    ∃ (e : Execution spending.semantics (boot CANDIDATES ⟨0, 0⟩)) (n m : ℕ), n < m ∧
      (e.conf m).prog.next = some (Call.sys (.reboot RB_AUTOBOOT)) ∧
      (e.conf m).world.kern.waited = (e.conf n).world.kern.waited + nanos 7000 ∧
      (e.conf m).world.kern.waited ≤ (e.conf n).world.kern.waited + nanos 7200 := by
  have next : aboutToBeAsked.prog.next = some (Call.sys (.read 4)) := by
    decide +kernel
  obtain ⟨asked, turn, turns⟩ : ∃ asked, TakesTurn spending.semantics aboutToBeAsked
      (some ⟨Call.sys (.read 4), ((⟨128, ⟨0, ""⟩⟩, SIGTERM) : Ret × Int)⟩) asked ∧
        Turns spending.semantics asked aboutToHandOver := by
    unfold aboutToHandOver
    exact shellStays.driver.turns_picked next rfl (by decide +kernel)
  obtain ⟨rest⟩ := Execution.exists_where (M := spending.semantics) spending_answers
    (c := aboutToHandOver) (by decide +kernel)
  obtain ⟨after, k, same⟩ := Execution.exists_after turns rest
  obtain ⟨e, n, there, did, same'⟩ := Execution.exists_through aboutToBeAsked_turns turn after
  have last : e.conf (n + k + 1) = aboutToHandOver := by
    rw [same', ← Nat.add_zero k, same, rest.start]
  have early : ∀ event ∈ (e.conf (n + k + 1)).world.hist, event.call.handsOver = false := by
    rw [last]
    decide +kernel
  refine ⟨e, n, n + k + 1, by omega, ?_, ?_, ?_⟩
  · rw [last]
    decide +kernel
  · rw [last, there]
    decide +kernel
  · refine a_shutdown_waits_no_longer ?_ did rfl (by omega) fun i _ before c r made => ?_
    · rw [there]
      decide +kernel
    · obtain ⟨t, member⟩ := did_in_hist made before
      exact early _ member

/-! ## A restart -/

/-- The nanoseconds of the backoff. -/
def backoff : ℕ := RESPAWN_BACKOFF_SECS * NANOS

/-- The longest that pid 1 waits without a shell: the backoff and one more poll. -/
def longest : ℕ := backoff + nanos BACKOFF_CHECK_MS

/-- The calls that set the time of the next start. -/
def Call.setsDue : Call → Bool
  | .mem (.setRespawnAt _) => true
  | _ => false

theorem Call.setsDue_eq {c : Call} (sets : c.setsDue = true) :
    ∃ at_, c = .mem (.setRespawnAt at_) := by
  cases c with
  | sys => cases sets
  | mem o =>
      cases o with
      | setRespawnAt at_ => exact ⟨at_, rfl⟩
      | _ => cases sets

theorem Call.undue_log {c : Call} (log : c.isLog) : c.setsDue = false := by
  cases c with
  | sys => rfl
  | mem o => cases o <;> first | rfl | cases log

theorem Call.undue_bringUp {c : Call} (early : c.isBringUp) : c.setsDue = false := by
  cases c with
  | sys => rfl
  | mem o => cases o <;> first | rfl | cases early

/-- How long pid 1 has waited without a shell while it harvests: as soon as the harvest has a
shortest life, the shell was still there when it began, and there was no wait since. -/
def shortestLifeBound (since waited : ℕ) : Option ℕ → Prop
  | none => waited ≤ since + longest
  | some _ => waited ≤ since

/-- How long pid 1 has waited at each place when it had waited for `since` at the turn since which
there is no shell in the table. -/
def Place.noShellBound (since waited busy respawnAt : ℕ) : Place → Prop
  | .reaping _ shortestLife => shortestLifeBound since waited shortestLife
  | .crediting _ shortestLife _ _ => shortestLifeBound since waited shortestLife
  | .harvested _ shortestLife _ => shortestLifeBound since waited shortestLife
  | .surviving => waited ≤ since
  | .failing => waited ≤ since
  | .backingOff read => waited ≤ since ∧ read * NANOS ≤ since + busy
  | .dying => waited ≤ since
  | .striking => waited ≤ since
  | .due read => waited ≤ since + longest ∧ (read < respawnAt → waited ≤ since + backoff)
  | .waiting millis => millis = BACKOFF_CHECK_MS ∧ waited ≤ since + backoff
  | _ => waited ≤ since + longest

/-- The bounds that hold while there is no shell in the table: on the time pid 1 has waited, and on
the time of the next start. -/
structure NoShellBounds (since : ℕ) (p : Place) (waited busy : ℕ) (mem : Mem) : Prop where
  waits : p.noShellBound since waited busy mem.respawnAt
  due : mem.respawnAt * NANOS ≤ since + backoff + busy

section NoShellBounds

variable {since waited busy more : ℕ} {mem : Mem} {p q : Place} {c : Call} {f : c.Res → Place}
  {r : c.Res} {w w' : World Spent}

theorem NoShellBounds.later (bounds : NoShellBounds since p waited busy mem) :
    NoShellBounds since p waited (busy + more) mem := by
  obtain ⟨idles, due⟩ := bounds
  refine ⟨?_, Nat.le_trans due (Nat.add_le_add_left (Nat.le_add_right _ _) _)⟩
  cases p with
  | backingOff => exact ⟨idles.1, Nat.le_trans idles.2 (Nat.add_le_add_left (Nat.le_add_right _ _) _)⟩
  | _ => exact idles

theorem NoShellBounds.bound (bounds : NoShellBounds since p waited busy mem) :
    waited ≤ since + longest := by
  have idles := bounds.waits
  have little : ∀ {x}, x ≤ since → x ≤ since + longest :=
    fun le => Nat.le_trans le (Nat.le_add_right _ _)
  have backed : ∀ {x}, x ≤ since + backoff → x ≤ since + longest := by
    intro x le
    unfold longest
    omega
  cases p with
  | reaping _ s | crediting _ s | harvested _ s =>
      cases s with
      | none => exact idles
      | some => exact little idles
  | surviving | failing | dying | striking => exact little idles
  | backingOff => exact little idles.1
  | due => exact idles.1
  | waiting => exact backed idles.2
  | _ => exact idles

/-- When the clock reads less than the time of the next start, pid 1 has waited no longer than the
backoff. -/
theorem waited_of_early {now respawnAt : ℕ} (reads : now = (waited + busy) / NANOS)
    (due : respawnAt * NANOS ≤ since + backoff + busy) (early : now < respawnAt) :
    waited ≤ since + backoff := by
  have before : waited + busy < respawnAt * NANOS := by
    rw [reads, Nat.div_lt_iff_lt_mul (by decide)] at early
    exact early
  omega


theorem keeps_respawnAt (answer : spending.Answers w c r w') (keeps : c.setsDue = false) :
    w'.mem.respawnAt = w.mem.respawnAt := by
  cases answer with
  | sys => rfl
  | @mem o =>
      refine run_respawnAt (fun at_ sets => ?_) _ _
      subst sets
      cases keeps

/-- Calls that neither wait nor set the time of the next start keep the bounds. -/
theorem NoShellBounds.to (bounds : NoShellBounds since p w.kern.waited w.kern.busy w.mem)
    (answer : spending.Answers w c r w') (prompt : c.waits = false)
    (keeps : c.setsDue = false)
    (next : p.noShellBound since w.kern.waited w.kern.busy w.mem.respawnAt →
      q.noShellBound since w.kern.waited w.kern.busy w.mem.respawnAt) :
    NoShellBounds since q w'.kern.waited w'.kern.busy w'.mem := by
  have same := keeps_respawnAt answer keeps
  obtain ⟨idles, due⟩ := bounds
  refine ⟨?_, ?_⟩
  · rw [spends_nothing answer prompt, same]
    exact next idles
  · rw [spends_nothing answer prompt, same]
    exact due

theorem NoShellBounds.poll {fd millis : Int} {r : Ret}
    (bounds : NoShellBounds since (.waiting millis) w.kern.waited w.kern.busy w.mem)
    (answer : spending.Answers w (.sys (.poll fd millis)) r w') :
    NoShellBounds since (Place.afterPoll r) w'.kern.waited w'.kern.busy w'.mem := by
  obtain ⟨⟨rfl, inTime⟩, due⟩ := bounds
  obtain ⟨waited, busy⟩ := spends_poll answer (by decide)
  have same : w'.mem = w.mem := by
    cases answer with
    | sys => rfl
  rw [same, busy]
  refine ⟨?_, due⟩
  have bound : w'.kern.waited ≤ since + longest := by
    unfold longest
    omega
  unfold Place.afterPoll
  split
  · split <;> exact bound
  · split <;> exact bound

theorem noShellBounds_setRespawnAt {at_ : ℕ} {r : Unit}
    (answer : spending.Answers w (.mem (.setRespawnAt at_)) r w')
    (due : at_ * NANOS ≤ since + backoff + w.kern.busy)
    (idles : q.noShellBound since w.kern.waited w.kern.busy at_) :
    NoShellBounds since q w'.kern.waited w'.kern.busy w'.mem := by
  cases answer with
  | mem => exact ⟨idles, due⟩

/-- Every move keeps the bounds, while there is no shell in the table and no shutdown is asked for.
-/
theorem noShellBounds_kept (bounds : NoShellBounds since p w.kern.waited w.kern.busy w.mem)
    (move : Moves p c f)
    (answer : spending.Answers w c r w') (noShell : w.mem.table.shells = [])
    (noShell' : w'.mem.table.shells = []) (up : c.givesUp = false) (unasked : p.action = none)
    (runs : ∀ enabled, p ≠ .parked enabled) :
    NoShellBounds since (f r) w'.kern.waited w'.kern.busy w'.mem := by
  have bound := bounds.bound
  cases move with
  | log log =>
      exact bounds.to answer (Call.prompt_log log) (Call.undue_log log) fun idles => idles
  | bringUp early =>
      exact bounds.to answer (Call.prompt_bringUp early) (Call.undue_bringUp early) fun idles => idles
  | tableNew => exact bounds.to answer rfl rfl fun _ => bound
  | fork =>
      refine bounds.to answer rfl rfl fun _ => ?_
      dsimp only
      split
      · exact bound
      · split <;> exact bound
  | @track first spec pid =>
      cases answer with
      | @mem _ now =>
          have shells :
              (w.mem.table.track spec.name pid spec.wantsOwnSession now).shells = [] := noShell'
          rw [Table.shells_track] at shells
          cases (List.append_eq_nil_iff.mp shells).2
  | running =>
      have idles : r = 0 := by
        cases answer with
        | mem => exact (Table.running_eq _).trans (congrArg List.length noShell)
      subst idles
      exact bounds.to answer rfl rfl fun _ => bound
  | @due read =>
      have known : r = w.mem.respawnAt := by
        cases answer with
        | mem => rfl
      refine bounds.to answer rfl rfl fun idles => ?_
      dsimp only
      split
      · exact bound
      · rename_i early
        rw [known] at early
        exact ⟨rfl, idles.2 (Nat.not_le.mp early)⟩
  | failed =>
      refine bounds.to answer rfl rfl fun _ => ?_
      unfold Place.afterVerdict
      split <;> exact bound
  | ask | noFork => cases r <;> exact bounds.to answer rfl rfl fun idles => idles
  | dying =>
      cases r with
      | none => exact bounds.to answer rfl rfl fun _ => bound
      | some => exact bounds.to answer rfl rfl fun idles => idles
  | supervise =>
      refine noShellBounds_setRespawnAt answer ?_ bound
      rw [Nat.zero_mul]
      exact Nat.zero_le _
  | idle =>
      refine bounds.to answer rfl rfl fun _ => ⟨bound, fun early => ?_⟩
      exact waited_of_early (reads_now answer) bounds.due early
  | poll => exact bounds.poll answer
  | read =>
      refine bounds.to answer rfl rfl fun _ => ?_
      unfold Place.afterRead Place.afterSignal
      split
      · split <;> exact bound
      · split
        · exact bound
        · split <;> exact bound
  | waitpid =>
      refine bounds.to answer rfl rfl fun idles => ?_
      unfold Place.afterWaitpid
      split <;> exact idles
  | @recordExit why shortestLife pid status =>
      have unknown : r = none := by
        cases answer with
        | @mem _ now =>
            cases gone : (w.mem.table.recordExit pid status now).1 with
            | none => exact gone
            | some departed =>
                have member := Table.recordExit_known gone
                rw [noShell] at member
                cases member
      rw [unknown]
      exact bounds.to answer rfl rfl fun idles => idles
  | @forgetFinished why shortestLife childrenLeft =>
      cases why with
      | supervising =>
          refine bounds.to answer rfl rfl fun idles => ?_
          cases shortestLife with
          | none => exact idles
          | some ranFor =>
              simp only [Place.afterHarvest]
              split <;> exact idles
      | stopping | silence => cases unasked
  | survived => exact bounds.to answer rfl rfl fun _ => bound
  | failing =>
      refine bounds.to answer rfl rfl fun waited => ⟨waited, ?_⟩
      exact Nat.le_trans (reads_past answer) (Nat.add_le_add_right waited _)
  | @setRespawnAt now =>
      obtain ⟨waited, read⟩ := bounds.waits
      refine noShellBounds_setRespawnAt answer ?_ waited
      rw [Nat.add_mul]
      exact Nat.le_trans (Nat.add_le_add_right read _) (by unfold backoff; omega)
  | giveUpEarly | park => cases up
  | pause => exact absurd rfl (runs _)
  | handOver | sessionLeaders | hangUp | terminate | cont | deadline | check | watch | watchRead
  | kill | sync => cases unasked

end NoShellBounds

/-- What holds at every place of the time of the next start, and of the waits. -/
structure Timely (p : Place) (w : World Spent) : Prop where
  due : w.mem.respawnAt * NANOS ≤ backoff + w.kern.now
  read : ∀ read, p = .backingOff read → read * NANOS ≤ w.kern.now
  polls : ∀ millis, p = .waiting millis → millis = UNTIL_SOMETHING_ARRIVES ∨ millis = BACKOFF_CHECK_MS

section Timely

variable {p : Place} {c : Call} {f : c.Res → Place} {r : c.Res} {w w' : World Spent}

/-- The limit of a poll of `supervise` is none, or `BACKOFF_CHECK_MS`. -/
theorem Moves.to_waiting (move : Moves p c f) (r : c.Res) {millis : Int}
    (waits : f r = .waiting millis) :
    p = .waiting millis ∨ millis = UNTIL_SOMETHING_ARRIVES ∨ millis = BACKOFF_CHECK_MS := by
  rcases move.mapped r with stays | goes
  · exact .inl (stays.symm.trans waits)
  · rw [waits] at goes
    refine .inr ?_
    cases p with
    | forked first spec pid =>
        cases move with
        | log => cases waits
        | track =>
            cases first with
            | true => cases waits
            | false =>
                cases waits
                exact .inr rfl
    | loopHead =>
        cases move with
        | log => cases waits
        | running =>
            dsimp only at waits
            split at waits
            · cases waits
            · cases waits
              exact .inl rfl
    | due =>
        cases move with
        | log => cases waits
        | due =>
            dsimp only at waits
            split at waits
            · cases waits
            · cases waits
              exact .inr rfl
    | _ => cases goes

theorem spends_more (answer : spending.Answers w c r w') : w.kern.now ≤ w'.kern.now := by
  cases answer with
  | mem => exact Nat.le_refl _
  | sys answer =>
      obtain ⟨-, -, slept, -, rfl⟩ := answer
      show w.kern.waited + w.kern.busy ≤ w.kern.waited + slept + w.kern.busy
      omega

/-- The time of the next start is at most the backoff after the time at which it is set. -/
theorem Timely.sets {at_ : ℕ} {f : Unit → Place} (timely : Timely p w)
    (move : Moves p (.mem (.setRespawnAt at_)) f) : at_ * NANOS ≤ backoff + w.kern.now := by
  cases move with
  | log log => cases log
  | bringUp early => cases early
  | supervise =>
      rw [Nat.zero_mul]
      exact Nat.zero_le _
  | @setRespawnAt now =>
      rw [Nat.add_mul, Nat.add_comm]
      exact Nat.add_le_add_left (timely.read now rfl) _

theorem timely_kept (timely : Timely p w) (move : Moves p c f) (answer : spending.Answers w c r w') :
    Timely (f r) w' := by
  have passes := spends_more answer
  refine ⟨?_, fun read there => ?_, fun millis there => ?_⟩
  · cases sets : c.setsDue with
    | true =>
        obtain ⟨at_, rfl⟩ := Call.setsDue_eq sets
        have due := Nat.le_trans (timely.sets move) (Nat.add_le_add_left passes _)
        cases answer with
        | mem => exact due
    | false =>
        rw [keeps_respawnAt answer sets]
        exact Nat.le_trans timely.due (Nat.add_le_add_left passes _)
  · rcases move.to_backingOff r there with stays | reads
    · exact Nat.le_trans (timely.read read stays) passes
    · cases reads
      exact Nat.le_trans (reads_past answer) passes
  · rcases move.to_waiting r there with stays | known
    · exact timely.polls millis stays
    · exact known

theorem timely_everywhere {candidates : List Spec} {kern : Spent} {conf : Config calls (World Spent) Unit}
    (reach : Reaches spending.semantics (boot candidates kern) conf)
    (path : Path conf.world.hist p) : Timely p conf.world := by
  refine at_every_place (I := Timely) ?_ ?_ ?_ reach path
  · exact ⟨Nat.le_trans (Nat.le_of_eq (Nat.zero_mul _)) (Nat.zero_le _), nofun, nofun⟩
  · intro p w w' timely others
    obtain ⟨kern, ⟨more, rfl⟩, rfl⟩ := others
    have passes : w.kern.now ≤ w.kern.waited + (w.kern.busy + more) :=
      Nat.add_le_add_left (Nat.le_add_right _ _) _
    exact ⟨Nat.le_trans timely.due (Nat.add_le_add_left passes _),
      fun read there => Nat.le_trans (timely.read read there) passes, timely.polls⟩
  · exact fun p c f r w w' timely move answer => timely_kept timely move answer

/-- When there is no shell in the table the bounds hold, counted from now. -/
theorem Timely.noShellBounds (timely : Timely p w) (tidy : Tidy p w.mem.table)
    (noShell : w.mem.table.shells = []) :
    NoShellBounds w.kern.waited p w.kern.waited w.kern.busy w.mem := by
  refine ⟨?_, ?_⟩
  · have now : w.kern.waited ≤ w.kern.waited + longest := Nat.le_add_right _ _
    cases p with
    | reaping _ s | crediting _ s | harvested _ s =>
        cases s with
        | none => exact now
        | some => exact Nat.le_refl _
    | surviving | failing | dying | striking => exact Nat.le_refl _
    | backingOff read => exact ⟨Nat.le_refl _, timely.read read rfl⟩
    | due => exact ⟨now, fun _ => Nat.le_add_right _ _⟩
    | waiting millis =>
        refine ⟨?_, Nat.le_add_right _ _⟩
        rcases timely.polls millis rfl with forever | backoff
        · exact absurd noShell (tidy.demands forever)
        · exact backoff
    | _ => exact now
  · have due := timely.due
    unfold Spent.now at due
    omega

end Timely

section Executions

variable {candidates : List Spec} {kern : Spent}
  {e : Execution spending.semantics (boot candidates kern)}
  {n m : ℕ}

/-- If pid 1 has made no call that gives up, it is not parked. -/
theorem not_parked (up : ∀ i < n, ∀ (c : Call) (r : c.Res), e.did i = some ⟨c, r⟩ → c.givesUp = false)
    (enabled : Bool) : ¬ Here e n (.parked enabled) := by
  intro here
  obtain ⟨i, p, c, r, f, before, -, outside, did, move, inside⟩ :=
    here.entered (I := fun p => p = .parked enabled) nofun rfl
  have stays := up i before c r did
  rcases move.to_parked r inside with parked | gives
  · exact outside parked
  · subst gives
    cases stays

/-- **Pid 1 waits no longer than 1.1 seconds without a shell.**  In every execution of `main`, as
long as no shutdown is asked for and pid 1 does not give up, it waits for 1.1 seconds at most
between any two turns between which there is no shell in the table. -/
theorem a_restart_waits_no_longer (later : n ≤ m)
    (noShell : ∀ i, n ≤ i → i ≤ m → (e.conf i).world.mem.table.shells = [])
    (unasked : Unasked (e.conf m).world.hist)
    (up : ∀ i < m, ∀ (c : Call) (r : c.Res), e.did i = some ⟨c, r⟩ → c.givesUp = false) :
    (e.conf m).world.kern.waited ≤ (e.conf n).world.kern.waited + nanos 1100 := by
  obtain ⟨p, here, -⟩ := exists_here e n
  have timely := timely_everywhere (e.reaches n) here
  have start := timely.noShellBounds (tidy_everywhere (e.reaches n) here)
    (noShell n (Nat.le_refl n) later)
  obtain ⟨q, -, bounds⟩ := here.kept
    (I := fun p w => NoShellBounds (e.conf n).world.kern.waited p w.kern.waited w.kern.busy w.mem)
    (fun p => spending_stable (P := NoShellBounds _ p) NoShellBounds.later) start
    (fun i q c f r w from_ before there did move same answer bounds => by
      refine noShellBounds_kept bounds move answer ?_ (noShell (i + 1) (by omega) before)
        (up i before c r did) ?_ ?_
      · rw [same]
        exact noShell i from_ (Nat.le_of_lt before)
      · exact (Path.story there).unasked fun event member =>
          unasked event ((hist_suffix e (Nat.le_of_lt before)).subset member)
      · intro enabled parked
        subst parked
        exact not_parked (fun j earlier => up j (by omega)) enabled there) later
  exact bounds.bound

end Executions

/-- The first shell dies at once, and SIGCHLD is the only signal that arrives. -/
def shellDiesAtOnce : Script spending :=
  pollsWaitOut SIGCHLD fun w =>
    if w.mem.table.shells = [] then (⟨0, ⟨0, ""⟩⟩, 0) else (⟨100, ⟨0, ""⟩⟩, 0)

/-- Pid 1 has recorded the exit of the shell, and is about to call `waitpid` again. -/
def shellStruckOff : Config calls (World Spent) Unit :=
  shellDiesAtOnce.driver.run
    (fun c => c.prog.next == some (Call.sys .waitpid) && c.world.mem.table.shells.isEmpty) 400
    (boot CANDIDATES ⟨0, 0⟩)

/-- Pid 1 is about to fork, or there is a shell in its table. -/
def forksOrHasShell (c : Config calls (World Spent) Unit) : Bool :=
  c.prog.next == some (Call.sys .fork) || !c.world.mem.table.shells.isEmpty

def aboutToRestart : Config calls (World Spent) Unit :=
  shellDiesAtOnce.driver.run forksOrHasShell 400 shellStruckOff

theorem shellStruckOff_turns : Turns spending.semantics (boot CANDIDATES ⟨0, 0⟩) shellStruckOff := by
  unfold shellStruckOff
  exact shellDiesAtOnce.driver.turns _ _ _

theorem aboutToRestart_turns :
    Relation.ReflTransGen
      (fun c c' => forksOrHasShell c = false ∧ ∃ did, TakesTurn spending.semantics c did c')
      shellStruckOff aboutToRestart := by
  unfold aboutToRestart
  exact shellDiesAtOnce.driver.turns_going _ _ _

theorem a_restart_waits_no_longer_after_a_death :
    ∃ (e : Execution spending.semantics (boot CANDIDATES ⟨0, 0⟩)) (n m : ℕ), n ≤ m ∧
      (e.conf m).prog.next = some (Call.sys .fork) ∧
      (e.conf m).world.kern.waited = (e.conf n).world.kern.waited + nanos 1000 ∧
      (e.conf m).world.kern.waited ≤ (e.conf n).world.kern.waited + nanos 1100 := by
  obtain ⟨rest⟩ := Execution.exists_where (M := spending.semantics) spending_answers
    (c := aboutToRestart) (by decide +kernel)
  obtain ⟨after, k, same, alone⟩ := Execution.exists_along aboutToRestart_turns rest
  obtain ⟨e, n, same'⟩ := Execution.exists_after shellStruckOff_turns after
  have first : e.conf n = shellStruckOff := by
    rw [← Nat.add_zero n, same', after.start]
  have last : e.conf (n + k) = aboutToRestart := by
    rw [same', ← Nat.add_zero k, same, rest.start]
  have shells : aboutToRestart.world.mem.table.shells = [] := by
    decide +kernel
  have early : ∀ event ∈ (e.conf (n + k)).world.hist, event.call.givesUp = false := by
    rw [last]
    decide +kernel
  refine ⟨e, n, n + k, by omega, ?_, ?_, ?_⟩
  · rw [last]
    decide +kernel
  · rw [last, first]
    decide +kernel
  · refine a_restart_waits_no_longer (by omega) (fun i from_ before => ?_) ?_ fun i before c r made => ?_
    · obtain ⟨j, rfl⟩ := Nat.exists_eq_add_of_le from_
      rcases Nat.lt_or_ge j k with inside | atTheEnd
      · rw [same']
        have waits := alone j inside
        rw [forksOrHasShell, Bool.or_eq_false_iff, Bool.not_eq_false'] at waits
        exact List.isEmpty_iff.mp waits.2
      · rw [show n + j = n + k by omega, last]
        exact shells
    · rw [last]
      decide +kernel
    · obtain ⟨t, member⟩ := did_in_hist made before
      exact early _ member

end Zevory
