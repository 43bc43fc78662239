import Mathlib.Data.List.Induction
import Zevory.Keyed
import Zevory.Table

/-!
# The table as queues

What the process table says is what one queue for every pid says: `track` puts a process
into the queue of its pid, `record_exit` takes the first one out, and `forget_finished` does
nothing.  The vector of the source also holds what is finished, until it is forgotten; its
running entries, `live`, are the queues in one list, and every operation on the table is the
operation on them.
-/

namespace Zevory

/-- A call of one of the operations that change the table, with its reading of the clock. -/
inductive TableOp
  | track (name : String) (pid : Int) (ownsSession : Bool) (now : ℕ)
  | recordExit (pid : Int) (status : Status) (now : ℕ)
  | forgetFinished
  deriving DecidableEq, Repr

/-- What is reported about an entry when its exit is recorded at `now`. -/
def Entry.departed (status : Status) (now : ℕ) (e : Entry) : Departed :=
  { name := e.name, pid := e.pid, state := stateFrom status, ranFor := now - e.startedAt }

namespace Table

/-- The entries of the table that are running, in order. -/
def live (t : Table) : List Entry := t.entries.filter Entry.isRunning

def apply (t : Table) : TableOp → Table
  | .track name pid ownsSession now => t.track name pid ownsSession now
  | .recordExit pid status now => (t.recordExit pid status now).2
  | .forgetFinished => t.forgetFinished

/-- The table after some calls, oldest first. -/
def after (t : Table) (ops : List TableOp) : Table := ops.foldl apply t

/-- What the calls of `record_exit` among some calls return, in order. -/
def answers (t : Table) : List TableOp → List (Option Departed)
  | [] => []
  | .recordExit pid status now :: ops =>
      (t.recordExit pid status now).1 :: (t.recordExit pid status now).2.answers ops
  | op :: ops => (t.apply op).answers ops

theorem after_concat (t : Table) (ops : List TableOp) (op : TableOp) :
    t.after (ops ++ [op]) = (t.after ops).apply op := by
  rw [after, List.foldl_append]
  rfl

theorem answers_append (t : Table) (before later : List TableOp) :
    t.answers (before ++ later) = t.answers before ++ (t.after before).answers later := by
  induction before generalizing t with
  | nil => rfl
  | cons op before ih =>
      cases op with
      | recordExit pid status now => exact congrArg _ (ih _)
      | track | forgetFinished => exact ih _

/-! ## The operations on the running entries -/

/-- `markFirst` takes the first entry of its pid out of the running ones, and finds this entry. -/
theorem markFirst_live (pid : Int) {state : State} (ended : state ≠ .running) (es : List Entry) :
    (markFirst pid state es).map Prod.fst =
        Keyed.first? Entry.pid pid (es.filter Entry.isRunning) ∧
      ((markFirst pid state es).elim es Prod.snd).filter Entry.isRunning =
        Keyed.pop Entry.pid pid (es.filter Entry.isRunning) := by
  have done : ∀ e : Entry, ({ e with state := state } : Entry).isRunning = false := by
    intro e
    simpa [Entry.isRunning] using ended
  induction es with
  | nil => exact ⟨rfl, rfl⟩
  | cons e es ih =>
      rw [markFirst]
      by_cases running : e.isRunning
      · by_cases same : e.pid = pid
        · subst same
          simp [Entry.isLive, running, done, Keyed.first?, Keyed.pop]
        · have other : e.isLive pid = false := by simp [Entry.isLive, same]
          rw [if_neg (by simp [other]), List.filter_cons_of_pos running]
          simp only [Keyed.first?, Keyed.pop] at ih ⊢
          rw [List.find?_cons_of_neg (by simpa using same),
            List.eraseP_cons_of_neg (by simpa using same), ← ih.1, ← ih.2]
          cases markFirst pid state es with
          | none => exact ⟨rfl, List.filter_cons_of_pos running⟩
          | some found => exact ⟨rfl, List.filter_cons_of_pos running⟩
      · have other : e.isLive pid = false := by simp [Entry.isLive, running]
        rw [if_neg (by simp [other]), List.filter_cons_of_neg running, ← ih.1, ← ih.2]
        cases markFirst pid state es with
        | none => exact ⟨rfl, List.filter_cons_of_neg running⟩
        | some found => exact ⟨rfl, List.filter_cons_of_neg running⟩

theorem live_track (t : Table) (name : String) (pid : Int) (ownsSession : Bool) (now : ℕ) :
    (t.track name pid ownsSession now).live =
      t.live ++ [{ name, pid, state := .running, startedAt := now, ownsSession }] := by
  simp [live, track, List.filter_append, Entry.isRunning]

theorem live_forgetFinished (t : Table) : t.forgetFinished.live = t.live := by
  simp [live, forgetFinished]

/-- `record_exit` pops the queue of the pid, and reports the entry it has popped. -/
theorem recordExit_live (t : Table) (pid : Int) (status : Status) (now : ℕ) :
    (t.recordExit pid status now).1 =
        (Keyed.first? Entry.pid pid t.live).map (Entry.departed status now) ∧
      (t.recordExit pid status now).2.live = Keyed.pop Entry.pid pid t.live := by
  obtain ⟨first, rest⟩ := markFirst_live pid (stateFrom_ne_running status) t.entries
  have ofPid : ∀ e, Keyed.first? Entry.pid pid t.live = some e → e.pid = pid :=
    fun e found => Keyed.key_of_first? found
  unfold live at ofPid ⊢
  unfold recordExit
  dsimp only
  rw [← first, ← rest]
  rw [← first] at ofPid
  cases marked : markFirst pid (stateFrom status) t.entries with
  | none => exact ⟨rfl, rfl⟩
  | some found =>
      refine ⟨?_, rfl⟩
      rw [marked] at ofPid
      simp [Entry.departed, ofPid found.1 rfl]

/-- Two tables with the same running entries answer every later call alike, and keep the same
running entries. -/
theorem same_live {t t' : Table} (same : t.live = t'.live) (ops : List TableOp) :
    (t.after ops).live = (t'.after ops).live ∧ t.answers ops = t'.answers ops := by
  induction ops generalizing t t' with
  | nil => exact ⟨same, rfl⟩
  | cons op ops ih =>
      cases op with
      | track name pid ownsSession now =>
          exact ih (by rw [apply, apply, live_track, live_track, same])
      | recordExit pid status now =>
          obtain ⟨first, rest⟩ := t.recordExit_live pid status now
          obtain ⟨first', rest'⟩ := t'.recordExit_live pid status now
          have next :
              (t.recordExit pid status now).2.live = (t'.recordExit pid status now).2.live := by
            rw [rest, rest', same]
          obtain ⟨lives, answers⟩ := ih next
          exact ⟨lives, by rw [Table.answers, Table.answers, first, first', same, answers]⟩
      | forgetFinished =>
          exact ih (by rw [apply, apply, live_forgetFinished, live_forgetFinished, same])

theorem running_live (t : Table) : t.running = t.live.length := rfl

theorem sessionLeaders_live (t : Table) :
    t.sessionLeaders = (t.live.filter Entry.ownsSession).map Entry.pid := by
  rw [sessionLeaders, live, List.filter_filter]

end Table

/-! ## A queue for every pid -/

/-- What the table is for, stated on its own: the live processes of every pid, in the order they
were started in. -/
abbrev PidQueues := Int → List Entry

def PidQueues.apply (q : PidQueues) : TableOp → PidQueues
  | .track name pid ownsSession now =>
      Function.update q pid
        (q pid ++ [{ name, pid, state := .running, startedAt := now, ownsSession }])
  | .recordExit pid _ _ => Function.update q pid (q pid).tail
  | .forgetFinished => q

/-- The queues of live processes that a table stands for. -/
def Table.queues (t : Table) : PidQueues := fun pid => Keyed.queue Entry.pid pid t.live

/-- Every operation on the table is the corresponding operation on its queues. -/
theorem Table.queues_apply (t : Table) (op : TableOp) :
    (t.apply op).queues = t.queues.apply op := by
  funext pid
  cases op with
  | track name pid' ownsSession now =>
      rw [queues, Table.apply, live_track, Keyed.queue, List.filter_append, PidQueues.apply]
      by_cases same : pid = pid'
      · subst same
        rw [Function.update_self, List.filter_cons_of_pos (by simp)]
        rfl
      · rw [Function.update_of_ne same, List.filter_cons_of_neg (by simpa using Ne.symm same),
          List.filter_nil, List.append_nil]
        rfl
  | recordExit pid' status now =>
      rw [queues, Table.apply, (t.recordExit_live pid' status now).2, PidQueues.apply]
      by_cases same : pid = pid'
      · rw [same, Function.update_self, Keyed.queue_pop_same]
        rfl
      · rw [Function.update_of_ne same, Keyed.queue_pop_other same]
        rfl
  | forgetFinished =>
      rw [queues, Table.apply, live_forgetFinished]
      rfl

theorem Table.queues_after (t : Table) (ops : List TableOp) :
    (t.after ops).queues = ops.foldl PidQueues.apply t.queues := by
  induction ops generalizing t with
  | nil => rfl
  | cons op ops ih =>
      rw [List.foldl_cons, ← t.queues_apply op]
      exact ih (t.apply op)

/-! ## Any calls -/

/-- The entry that a call puts into the table. -/
def TableOp.tracked : TableOp → Option Entry
  | .track name pid ownsSession now =>
      some { name, pid, state := .running, startedAt := now, ownsSession }
  | _ => none

/-- The entries that some calls have tracked, in order. -/
def trackings (ops : List TableOp) : List Entry := ops.filterMap TableOp.tracked

/-- How often some calls have recorded an exit of `pid`. -/
def recorded (ops : List TableOp) (pid : Int) : ℕ :=
  (Table.new.answers ops).countP fun a => a.map Departed.pid == some pid

/-- How often some calls have recorded an exit, of any pid. -/
def successes (ops : List TableOp) : ℕ := (Table.new.answers ops).countP Option.isSome

/-- The tracked entries whose exit has not been recorded. -/
def unrecorded (ops : List TableOp) : List Entry :=
  Keyed.dropFirst Entry.pid (recorded ops) (trackings ops)

/-- A call other than `forget_finished`. -/
def TableOp.counts : TableOp → Bool
  | .forgetFinished => false
  | _ => true

/-- After these calls the running entries of the table are the tracked entries whose exit has not
been recorded. -/
structure Recorded (ops : List TableOp) : Prop where
  live : (Table.new.after ops).live = unrecorded ops
  enough : ∀ pid, recorded ops pid ≤ (Keyed.queue Entry.pid pid (trackings ops)).length
  total : (Table.new.after ops).live.length + successes ops = (trackings ops).length

section Concat

variable {ops : List TableOp}

theorem recorded_track {name : String} {pid : Int} {ownsSession : Bool} {now : ℕ}
    (before : Recorded ops) : Recorded (ops ++ [.track name pid ownsSession now]) := by
  have new : trackings (ops ++ [.track name pid ownsSession now]) =
      trackings ops ++ [{ name, pid, state := .running, startedAt := now, ownsSession }] := by
    simp [trackings, TableOp.tracked]
  have answers : Table.new.answers (ops ++ [.track name pid ownsSession now]) =
      Table.new.answers ops := by
    rw [Table.answers_append]
    exact List.append_nil _
  have same : recorded (ops ++ [.track name pid ownsSession now]) = recorded ops := by
    funext other
    rw [recorded, recorded, answers]
  refine ⟨?_, fun other => ?_, ?_⟩
  · rw [Table.after_concat, Table.apply, Table.live_track, before.live, unrecorded, unrecorded,
      same, new, Keyed.dropFirst_concat (before.enough pid)]
  · rw [same, new, Keyed.queue, List.filter_append, List.length_append]
    exact Nat.le_add_right_of_le (before.enough other)
  · have total := before.total
    rw [Table.after_concat, Table.apply, Table.live_track, successes, answers, new,
      List.length_append, List.length_append, ← total, successes]
    omega

theorem recorded_forgetFinished (before : Recorded ops) :
    Recorded (ops ++ [.forgetFinished]) := by
  have new : trackings (ops ++ [.forgetFinished]) = trackings ops := by
    simp [trackings, TableOp.tracked]
  have answers : Table.new.answers (ops ++ [.forgetFinished]) = Table.new.answers ops := by
    rw [Table.answers_append]
    exact List.append_nil _
  have same : recorded (ops ++ [.forgetFinished]) = recorded ops := by
    funext other
    rw [recorded, recorded, answers]
  refine ⟨?_, fun other => ?_, ?_⟩
  · rw [Table.after_concat, Table.apply, Table.live_forgetFinished, before.live, unrecorded,
      unrecorded, same, new]
  · rw [same, new]
    exact before.enough other
  · rw [Table.after_concat, Table.apply, Table.live_forgetFinished, successes, answers, new]
    exact before.total

theorem recorded_recordExit {pid : Int} {status : Status} {now : ℕ} (before : Recorded ops) :
    Recorded (ops ++ [.recordExit pid status now]) := by
  obtain ⟨first, rest⟩ := (Table.new.after ops).recordExit_live pid status now
  have new : trackings (ops ++ [.recordExit pid status now]) = trackings ops := by
    simp [trackings, TableOp.tracked]
  have answers : Table.new.answers (ops ++ [.recordExit pid status now]) =
      Table.new.answers ops ++ [((Table.new.after ops).recordExit pid status now).1] :=
    Table.answers_append _ _ _
  have total := before.total
  rw [before.live] at first rest total
  have length : (Keyed.pop Entry.pid pid (unrecorded ops)).length +
      (Keyed.first? Entry.pid pid (unrecorded ops)).toList.length = (unrecorded ops).length :=
    Keyed.length_pop pid _
  cases found : Keyed.first? Entry.pid pid (unrecorded ops) with
  | none =>
      rw [found] at first length
      have same : recorded (ops ++ [.recordExit pid status now]) = recorded ops := by
        funext other
        simp [recorded, answers, first]
      refine ⟨?_, fun other => ?_, ?_⟩
      · rw [Table.after_concat, Table.apply, rest, Keyed.pop_of_none found, unrecorded, unrecorded,
          same, new]
      · rw [same, new]
        exact before.enough other
      · rw [Table.after_concat, Table.apply, rest, Keyed.pop_of_none found, successes, answers, new,
          first, List.countP_append, ← total, successes]
        rfl
  | some e =>
      have ofPid : e.pid = pid := Keyed.key_of_first? found
      rw [found] at first length
      have next : recorded (ops ++ [.recordExit pid status now]) =
          Function.update (recorded ops) pid (recorded ops pid + 1) := by
        funext other
        by_cases same : other = pid
        · subst same
          rw [Function.update_self, recorded, answers, first, List.countP_append, recorded]
          simp [Entry.departed, ofPid]
        · rw [Function.update_of_ne same, recorded, answers, first, List.countP_append, recorded]
          simp [Entry.departed, ofPid, Ne.symm same]
      have one : recorded ops pid < (Keyed.queue Entry.pid pid (trackings ops)).length := by
        rw [unrecorded, Keyed.first?_dropFirst] at found
        exact (List.getElem?_eq_some_iff.mp found).1
      refine ⟨?_, fun other => ?_, ?_⟩
      · rw [Table.after_concat, Table.apply, rest, unrecorded, unrecorded, next, new,
          Keyed.dropFirst_succ]
      · rw [next, new]
        by_cases same : other = pid
        · rw [same, Function.update_self]
          exact one
        · rw [Function.update_of_ne same]
          exact before.enough other
      · rw [Table.after_concat, Table.apply, rest, successes, answers, new, first,
          List.countP_append, ← total, ← length, successes]
        simp only [Option.map_some, List.countP_singleton, Option.isSome_some, if_true,
          Option.toList_some, List.length_singleton]
        omega

end Concat

theorem recorded_everywhere (ops : List TableOp) : Recorded ops := by
  induction ops using List.reverseRecOn with
  | nil => exact ⟨rfl, fun pid => Nat.zero_le _, rfl⟩
  | append_singleton ops op ih =>
      cases op with
      | track => exact recorded_track ih
      | recordExit => exact recorded_recordExit ih
      | forgetFinished => exact recorded_forgetFinished ih

/-- The calls of `forget_finished` can be left out without a change to any answer. -/
theorem forget_unnoticed (t : Table) (ops : List TableOp) :
    (t.after ops).live = (t.after (ops.filter TableOp.counts)).live ∧
      t.answers ops = t.answers (ops.filter TableOp.counts) := by
  induction ops generalizing t with
  | nil => exact ⟨rfl, rfl⟩
  | cons op ops ih =>
      cases op with
      | track => exact ih _
      | recordExit pid status now =>
          obtain ⟨lives, answers⟩ := ih (t.recordExit pid status now).2
          exact ⟨lives, congrArg (List.cons _) answers⟩
      | forgetFinished =>
          obtain ⟨lives, answers⟩ := Table.same_live t.live_forgetFinished ops
          obtain ⟨lives', answers'⟩ := ih t
          exact ⟨lives.trans lives', answers.trans answers'⟩

/-- **The table is a queue of live processes for every pid**, whatever calls were made before: every
exit that is recorded is that of the first process of its pid that is still there. -/
theorem table_refines_queues (ops : List TableOp) :
    let t := Table.new.after ops
    t.queues = ops.foldl PidQueues.apply (fun _ => []) ∧
      (∀ pid status now, (t.recordExit pid status now).1 =
        (Keyed.queue Entry.pid pid (trackings ops))[recorded ops pid]?.map
          (Entry.departed status now)) ∧
      (∀ pid status now, (t.recordExit pid status now).1.isSome ↔
        recorded ops pid < (Keyed.queue Entry.pid pid (trackings ops)).length) ∧
      (∀ status, stateFrom status ≠ .running) ∧
      t.running + successes ops = (trackings ops).length ∧
      t.sessionLeaders = ((unrecorded ops).filter Entry.ownsSession).map Entry.pid ∧
      ∀ ops', ops'.filter TableOp.counts = ops.filter TableOp.counts →
        Table.new.answers ops' = Table.new.answers ops ∧
          (Table.new.after ops').running = t.running ∧
          (Table.new.after ops').sessionLeaders = t.sessionLeaders ∧
          ∀ pid status now, ((Table.new.after ops').recordExit pid status now).1 =
            (t.recordExit pid status now).1 := by
  have holds := recorded_everywhere ops
  have answer : ∀ pid status now, ((Table.new.after ops).recordExit pid status now).1 =
      (Keyed.queue Entry.pid pid (trackings ops))[recorded ops pid]?.map
        (Entry.departed status now) := by
    intro pid status now
    rw [(Table.recordExit_live _ pid status now).1, holds.live, unrecorded, Keyed.first?_dropFirst]
  refine ⟨Table.queues_after _ ops, answer, fun pid status now => ?_, stateFrom_ne_running,
    holds.total, ?_, ?_⟩
  · rw [answer]
    simp
  · rw [Table.sessionLeaders_live, holds.live]
  · intro ops' same
    obtain ⟨lives, answers⟩ := forget_unnoticed Table.new ops
    obtain ⟨lives', answers'⟩ := forget_unnoticed Table.new ops'
    rw [same] at lives' answers'
    have live : (Table.new.after ops').live = (Table.new.after ops).live := lives'.trans lives.symm
    refine ⟨answers'.trans answers.symm, ?_, ?_, fun pid status now => ?_⟩
    · rw [Table.running_live, Table.running_live, live]
    · rw [Table.sessionLeaders_live, Table.sessionLeaders_live, live]
    · rw [(Table.recordExit_live _ pid status now).1, (Table.recordExit_live _ pid status now).1, live]

theorem table_refines_queues_of_a_recycled_pid :
    let ops : List TableOp := [.track "first" 7 true 3, .track "other" 8 true 4,
      .track "second" 7 false 5, .recordExit 7 0 9]
    (∀ ops' : List TableOp, ops'.filter TableOp.counts = ops →
        Table.new.answers ops' = Table.new.answers ops) ∧
      (∀ status now, ((Table.new.after ops).recordExit 7 status now).1 =
        some ⟨"second", 7, stateFrom status, now - 5⟩) ∧
      (Table.new.after ops).sessionLeaders = [8] := by
  intro ops
  obtain ⟨-, answer, -, -, -, leaders, forget⟩ := table_refines_queues ops
  refine ⟨fun ops' same => (forget ops' same).1, fun status now => ?_, leaders.trans (by decide)⟩
  exact answer 7 status now

end Zevory
