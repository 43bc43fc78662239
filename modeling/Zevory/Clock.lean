import Zevory.Accounting

/-!
# The truncated clock

Pid 1 on a kernel with a true time in nanoseconds, of which `monotonic_secs` returns the
whole seconds.  A lifetime is the difference of two such readings, so whether a death counts
as a quick one depends on whether a second begins in that life.
-/

namespace Zevory

open Interaction Signal

/-- The nanoseconds of a second. -/
def NANOS : ℕ := 10 ^ 9

/-- The assumption on the results that `clock_gettime` returns the whole seconds of the time. -/
def Ticks (now : ℕ) : (s : Syscall) → s.Res → Prop
  | .clockGettime, secs => secs = now / NANOS
  | _, _ => True

/-- The kernel with the time as its state: any results, but for those of `clock_gettime`. Time
passes between calls. -/
def clockKernel : Kernel ℕ where
  others now later := now ≤ later
  answer now s r after := Promised (.sys s) r ∧ Ticks now s r ∧ after = now
  reads now secs := secs = now / NANOS
  time now := now
  promised h := h.1

theorem reads_second (now : ℕ) : clockKernel.reads now (now / NANOS) := rfl

variable {p q : Place} {w w' : World ℕ} {c : Call} {f : c.Res → Place} {r : c.Res}

theorem clock_stands (answer : clockKernel.Answers w c r w') : w'.kern = w.kern := by
  cases answer with
  | sys answer => exact answer.2.2
  | mem => rfl

/-! ## Reading a history -/

/-- The time at which `started_at` of a new shell was read. -/
def Event.tracked : Event → Option ℕ
  | ⟨.mem (.track _ _ _), _, t⟩ => some t
  | _ => none

/-- The time at which `started_at` was last read. -/
def lastTracked (h : List Event) : Option ℕ := h.findSome? Event.tracked

/-- A recorded exit of a shell: how many candidates were given up by then, when its
`started_at` was read, and when its exit was recorded. -/
structure Death where
  candidate : ℕ
  started : ℕ
  reaped : ℕ
  deriving DecidableEq, Repr

/-- The recorded exits of shells, newest first. -/
def deaths : List Event → List Death
  | [] => []
  | e :: h =>
      if e.life.isSome then ⟨moves h, (lastTracked h).getD 0, e.time⟩ :: deaths h else deaths h

/-- The exits that were accounted for, each with its account, oldest first. -/
def judged (h : List Event) : List (Death × Account) :=
  (deaths h).reverse.zip (accounts h).reverse

namespace Death

/-- The death comes less than a second after the start. -/
def quick (d : Death) : Prop := d.reaped < d.started + NANOS

/-- No second of the clock begins between the start and the death. -/
def sameSecond (d : Death) : Prop := d.started / NANOS = d.reaped / NANOS

/-- The lifetime as `record_exit` computes it, from whole seconds. -/
def recorded (d : Death) : ℕ := d.reaped / NANOS - d.started / NANOS

instance (d : Death) : Decidable d.quick := inferInstanceAs (Decidable (_ < _))

instance (d : Death) : Decidable d.sameSecond := inferInstanceAs (Decidable (_ = _))

theorem recorded_short {d : Death} (order : d.started ≤ d.reaped) :
    d.recorded < RESPAWN_IS_TOO_FAST ↔ d.sameSecond := by
  have seconds : d.started / NANOS ≤ d.reaped / NANOS := Nat.div_le_div_right order
  unfold recorded sameSecond RESPAWN_IS_TOO_FAST
  omega

end Death

/-! ## What is recorded -/

/-- For each of the given lifetimes, the index of the candidate whose shell had it. -/
def Rescue.tried (r : Rescue) : List ℕ → List ℕ
  | [] => []
  | _ :: lives => (r.after lives).at_ :: r.tried lives

/-- The running shell has the start that was read last, and the recorded lifetimes are those of the
deaths in whole seconds. -/
structure Timed (w : World ℕ) : Prop where
  running : ∀ e ∈ w.mem.table.entries, e.isRunning →
    ∃ t, lastTracked w.hist = some t ∧ t ≤ w.kern ∧ e.startedAt = t / NANOS
  lives : lifetimes w.hist = (deaths w.hist).map Death.recorded
  order : ∀ d ∈ deaths w.hist, d.started ≤ d.reaped
  candidates : Unasked w.hist →
    (deaths w.hist).map Death.candidate = (firstRescue w.hist).tried (lifetimes w.hist)

theorem markFirst_running {pid : Int} {state : State} {entries : List Entry}
    {found : Entry × List Entry} (marked : markFirst pid state entries = some found) :
    found.1 ∈ entries ∧ found.1.isRunning ∧
      ∀ e ∈ found.2, e.isRunning → e ∈ entries ∨ e.state = state := by
  induction entries generalizing found with
  | nil => cases marked
  | cons e es ih =>
      rw [markFirst] at marked
      split at marked
      · rename_i live
        cases marked
        refine ⟨List.mem_cons_self, ?_, fun e' member _ => ?_⟩
        · have both : e.pid = pid ∧ e.isRunning := by simpa [Entry.isLive] using live
          exact both.2
        · rcases List.mem_cons.mp member with rfl | old
          · exact .inr rfl
          · exact .inl (List.mem_cons_of_mem _ old)
      · obtain ⟨found', marked', rfl⟩ := Option.map_eq_some_iff.mp marked
        obtain ⟨member, running, rest⟩ := ih marked'
        refine ⟨List.mem_cons_of_mem _ member, running, fun e' there is => ?_⟩
        rcases List.mem_cons.mp there with rfl | old
        · exact .inl List.mem_cons_self
        · exact (rest e' old is).imp_left (List.mem_cons_of_mem _)

/-- The lifetime that `record_exit` returns is that of a running entry, and the entries that still
run afterwards ran before. -/
theorem recordExit_running {t : Table} {pid : Int} {status : Status} {now : ℕ} :
    (∀ gone, (t.recordExit pid status now).1 = some gone →
      ∃ e ∈ t.entries, e.isRunning ∧ gone.ranFor = now - e.startedAt) ∧
    ∀ e ∈ (t.recordExit pid status now).2.entries, e.isRunning → e ∈ t.entries := by
  unfold Table.recordExit
  dsimp only
  cases marked : markFirst pid (stateFrom status) t.entries with
  | none => exact ⟨nofun, fun e member _ => member⟩
  | some found =>
      obtain ⟨member, running, rest⟩ := markFirst_running marked
      refine ⟨fun gone is => ?_, fun e there is => ?_⟩
      · cases is
        exact ⟨found.1, member, running, rfl⟩
      · rcases rest e there is with old | ended
        · exact old
        · have now_ : e.state = .running := by simpa [Entry.isRunning] using is
          exact absurd (ended.symm.trans now_) (stateFrom_ne_running status)

/-- Calls that neither start a shell nor record the exit of one keep this. -/
theorem Timed.plain (timed : Timed w) (answer : clockKernel.Answers w c r w')
    (entries : ∀ e ∈ w'.mem.table.entries, e.isRunning → e ∈ w.mem.table.entries)
    (life : ∀ t, Event.life ⟨c, r, t⟩ = none) (tracked : ∀ t, Event.tracked ⟨c, r, t⟩ = none)
    (first : (∀ t, Event.sets ⟨c, r, t⟩ = none) ∨ (Unasked w.hist → lifetimes w.hist = [])) :
    Timed w' := by
  have hist := answer.hist
  have lives : lifetimes w'.hist = lifetimes w.hist := by
    rw [hist, lifetimes, List.filterMap_cons_none (life _)]
    rfl
  have deaths_ : deaths w'.hist = deaths w.hist := by
    rw [hist, deaths, life]
    rfl
  have last : lastTracked w'.hist = lastTracked w.hist := by
    rw [hist, lastTracked, List.findSome?_cons, tracked]
    rfl
  refine ⟨fun e member running => ?_, ?_, ?_, fun unasked => ?_⟩
  · rw [last, clock_stands answer]
    exact timed.running e (entries e member running) running
  · rw [lives, deaths_]
    exact timed.lives
  · rw [deaths_]
    exact timed.order
  · rw [hist] at unasked
    have before := timed.candidates unasked.tail
    rw [deaths_, lives, before]
    rcases first with same | noLives
    · rw [hist, firstRescue, firstRescue, List.findSome?_cons, same]
    · rw [noLives unasked.tail]
      rfl

theorem timed_track {first : Bool} {spec : Spec} {pid : Int} {r : Unit} (timed : Timed w)
    (tidy : Tidy (.forked first spec pid) w.mem.table)
    (answer : clockKernel.Answers w (.mem (.track spec.name pid spec.wantsOwnSession)) r w') :
    Timed w' := by
  cases answer with
  | @mem o now reads =>
      refine ⟨fun e member _ => ?_, timed.lives, timed.order,
        fun unasked => timed.candidates unasked.tail⟩
      rcases List.mem_append.mp member with old | new
      · have running := tidy.finished rfl e old
        have noShell : w.mem.table.shells = [] := tidy.demands
        have shell : e.pid ∈ w.mem.table.shells :=
          List.mem_map.mpr ⟨e, List.mem_filter.mpr ⟨old, running⟩, rfl⟩
        rw [noShell] at shell
        cases shell
      · rw [List.mem_singleton.mp new]
        exact ⟨w.kern, rfl, Nat.le_refl _, reads⟩

theorem timed_recordExit {pid : Int} {status : Status} {r : Option Departed} (timed : Timed w)
    (books : Unasked w.hist → ∃ pending done, Books p pending done w)
    (answer : clockKernel.Answers w (.mem (.recordExit pid status)) r w') : Timed w' := by
  cases r with
  | none =>
      refine timed.plain answer ?_ (fun _ => rfl) (fun _ => rfl) (.inl fun _ => rfl)
      generalize same : (none : Option Departed) = gone at answer
      cases answer with
      | mem => exact recordExit_running.2
  | some departed =>
      generalize same : some departed = gone at answer
      cases answer with
      | @mem o now reads =>
          have departs : (w.mem.table.recordExit pid status now).1 = some departed := same.symm
          obtain ⟨entry, member, running, ranFor⟩ := recordExit_running.1 departed departs
          obtain ⟨t, last, early, started⟩ := timed.running entry member running
          have life : Event.life ⟨.mem (.recordExit pid status),
              (w.mem.table.recordExit pid status now).1, w.kern⟩ = some departed.ranFor := by
            rw [departs]
            rfl
          have lives : lifetimes (w.updated w.kern (.recordExit pid status) now).hist =
              departed.ranFor :: lifetimes w.hist := List.filterMap_cons_some life
          have deaths_ : deaths (w.updated w.kern (.recordExit pid status) now).hist =
              ⟨moves w.hist, t, w.kern⟩ :: deaths w.hist := by
            refine (if_pos ?_).trans ?_
            · exact Option.isSome_of_mem life
            · rw [last]
              rfl
          have recorded : departed.ranFor = w.kern / NANOS - t / NANOS := by
            rw [ranFor, started, reads]
          refine ⟨fun e there is => ?_, ?_, ?_, fun unasked => ?_⟩
          · exact timed.running e (recordExit_running.2 e there is) is
          · calc
              _ = departed.ranFor :: lifetimes w.hist := lives
              _ = (⟨moves w.hist, t, w.kern⟩ : Death).recorded ::
                    (deaths w.hist).map Death.recorded := by
                rw [recorded, timed.lives]
                rfl
              _ = (deaths _).map Death.recorded := (congrArg (List.map Death.recorded) deaths_).symm
          · intro d there
            have there : d ∈ ⟨moves w.hist, t, w.kern⟩ :: deaths w.hist := deaths_ ▸ there
            rcases List.mem_cons.mp there with rfl | old
            · exact early
            · exact timed.order d old
          · have before : Unasked w.hist := unasked.tail
            obtain ⟨pending, done, books⟩ := books before
            obtain ⟨-, alive⟩ := books.alive departs
            subst alive
            have all : lifetimes w.hist = done := books.lives
            calc
              _ = moves w.hist :: (deaths w.hist).map Death.candidate :=
                congrArg (List.map Death.candidate) deaths_
              _ = ((firstRescue w.hist).after done).at_ :: (firstRescue w.hist).tried done := by
                rw [books.moves, timed.candidates before, all]
              _ = (firstRescue w.hist).tried (departed.ranFor :: lifetimes w.hist) := by
                rw [all]
                rfl
              _ = _ := (congrArg (firstRescue w.hist).tried lives).symm

theorem timed_kept (timed : Timed w) (ledger : Ledger p w)
    (move : Moves p c f) (answer : clockKernel.Answers w c r w') : Timed w' := by
  have quiet : c.changesTable = false → (∀ t, Event.life ⟨c, r, t⟩ = none) →
      (∀ t, Event.tracked ⟨c, r, t⟩ = none) → (∀ t, Event.sets ⟨c, r, t⟩ = none) → Timed w' := by
    intro still life tracked sets
    refine timed.plain answer (fun e member _ => ?_) life tracked (.inl sets)
    rwa [table_of_answer answer still] at member
  cases c with
  | sys s => exact quiet rfl (fun _ => rfl) (fun _ => rfl) fun _ => rfl
  | mem o =>
      cases o with
      | track name pid owns =>
          cases move with
          | log log => cases log
          | bringUp early => cases early
          | track => exact timed_track timed ledger.tidy answer
      | recordExit pid status =>
          cases move with
          | log log => cases log
          | bringUp early => cases early
          | recordExit => exact timed_recordExit timed ledger.books answer
      | tableNew =>
          refine timed.plain answer ?_ (fun _ => rfl) (fun _ => rfl) (.inl fun _ => rfl)
          cases answer with
          | mem => exact nofun
      | forgetFinished =>
          refine timed.plain answer ?_ (fun _ => rfl) (fun _ => rfl) (.inl fun _ => rfl)
          cases answer with
          | mem => exact fun e member _ => (List.mem_filter.mp member).1
      | rescueNew rescue =>
          cases move with
          | log log => cases log
          | bringUp early =>
              refine timed.plain answer ?_ (fun _ => rfl) (fun _ => rfl) (.inr fun unasked => ?_)
              · cases answer with
                | mem => exact fun e member _ => member
              · obtain ⟨pending, done, books⟩ := ledger.books unasked
                have nothing : pending = none := books.pends
                rw [books.lives, nothing, books.early rfl]
                rfl
      | _ => exact quiet rfl (fun _ => rfl) (fun _ => rfl) fun _ => rfl

variable {candidates : List Spec} {kern : ℕ} {conf : Config calls (World ℕ) Unit}

theorem timed_everywhere (reach : Reaches clockKernel.semantics (boot candidates kern) conf)
    (path : Path conf.world.hist p) : Ledger p conf.world ∧ Timed conf.world := by
  refine at_every_place (I := fun p w => Ledger p w ∧ Timed w) ?_ ?_ ?_ reach path
  · exact ⟨ledger_boot kern, nofun, rfl, nofun, fun _ => rfl⟩
  · intro p w w' ⟨ledger, timed⟩ step
    refine ⟨Ledger.stable p ledger step, ?_⟩
    obtain ⟨later, passes, rfl⟩ := step
    refine ⟨fun e member running => ?_, timed.lives, timed.order, timed.candidates⟩
    obtain ⟨t, last, early, started⟩ := timed.running e member running
    exact ⟨t, last, Nat.le_trans early passes, started⟩
  · intro p c f r w w' ⟨ledger, timed⟩ move answer
    exact ⟨ledger.kept move answer, timed_kept timed ledger move answer⟩

/-! ## Three strikes -/

namespace Rescue

/-- The number of starts of the candidate with index `i`. -/
def count (i : ℕ) (starts : List (ℕ × Spec)) : ℕ := (starts.filter fun start => start.1 == i).length

theorem count_nextStart (r : Rescue) (i : ℕ) :
    count i r.nextStart ≤ if r.at_ = i then 1 else 0 := by
  unfold count nextStart
  cases r.shell with
  | none => exact Nat.zero_le _
  | some spec =>
      by_cases here : r.at_ = i
      · simp [here]
      · simp [here]

theorem count_append (i : ℕ) (xs ys : List (ℕ × Spec)) :
    count i (xs ++ ys) = count i xs + count i ys := by
  simp [count, List.filter_append]

/-- All shells of the candidate with index `i` had short lifetimes. -/
def allShort (r : Rescue) (i : ℕ) : List ℕ → Prop
  | [] => True
  | ranFor :: lives =>
      ((r.after lives).at_ = i → ranFor < RESPAWN_IS_TOO_FAST) ∧ r.allShort i lives

/-- After a short life that was not the last one there is one more strike, or the next candidate
with none. -/
theorem account_short {r : Rescue} {ranFor : ℕ} (short : ranFor < RESPAWN_IS_TOO_FAST)
    (more : (r.account ranFor).1.isLast = false) :
    ((r.account ranFor).2.at_ = r.at_ ∧ (r.account ranFor).2.strikes = r.strikes + 1 ∧
        r.strikes + 1 < STRIKES_BEFORE_MOVING_ON) ∨
      ((r.account ranFor).2.at_ = r.at_ + 1 ∧ (r.account ranFor).2.strikes = 0) := by
  unfold account at more ⊢
  rw [if_neg (Nat.not_le.mpr short)] at more ⊢
  unfold failed at more ⊢
  dsimp only at more ⊢
  split
  · rename_i few
    exact .inl ⟨rfl, rfl, few⟩
  · rename_i strikes
    split
    · rename_i last
      rw [if_neg strikes, if_pos last] at more
      cases more
    · exact .inr ⟨rfl, rfl⟩

/-- If the next start is one of candidate `i`, its number of starts is one more than the strikes. -/
theorem count_next {r : Rescue} {i n : ℕ} (few : r.strikes < STRIKES_BEFORE_MOVING_ON)
    (early : r.at_ < i → n = 0) (now : r.at_ = i → n ≤ r.strikes)
    (most : n ≤ STRIKES_BEFORE_MOVING_ON) :
    (r.at_ < i → count i r.nextStart + n = 0) ∧
      (r.at_ = i → count i r.nextStart + n ≤ r.strikes + 1) ∧
      count i r.nextStart + n ≤ STRIKES_BEFORE_MOVING_ON := by
  have one := count_nextStart r i
  by_cases same : r.at_ = i
  · rw [if_pos same] at one
    have counted := now same
    omega
  · rw [if_neg same] at one
    omega

/-- While all shells of a candidate have short lives, it has as many starts as strikes at most, and
at most three once the machine has moved on. -/
theorem count_startsBefore {r : Rescue} {i : ℕ} (fresh : r.strikes = 0) {lives : List ℕ}
    (short : r.allShort i lives) (more : ∀ a ∈ r.accountsOf lives, a.isLast = false) :
    (r.after lives).strikes < STRIKES_BEFORE_MOVING_ON ∧
      ((r.after lives).at_ < i → count i (r.startsBefore lives) = 0) ∧
      ((r.after lives).at_ = i → count i (r.startsBefore lives) ≤ (r.after lives).strikes) ∧
      count i (r.startsBefore lives) ≤ STRIKES_BEFORE_MOVING_ON := by
  induction lives with
  | nil =>
      refine ⟨?_, fun _ => rfl, fun _ => Nat.zero_le _, Nat.zero_le _⟩
      change r.strikes < _
      rw [fresh]
      decide
  | cons ranFor lives ih =>
      obtain ⟨here, before⟩ := short
      obtain ⟨few, early, now, most⟩ :=
        ih before fun a member => more a (List.mem_cons_of_mem _ member)
      obtain ⟨early', now', most'⟩ := count_next few early now most
      rw [startsBefore, count_append, after]
      by_cases long : ranFor ≥ RESPAWN_IS_TOO_FAST
      · have other : (r.after lives).at_ ≠ i := fun same => absurd (here same) (Nat.not_lt.mpr long)
        have survives : (r.after lives).account ranFor = (.survived, (r.after lives).survived) :=
          if_pos long
        rw [survives]
        have fresh' : (r.after lives).survived.strikes < STRIKES_BEFORE_MOVING_ON :=
          show 0 < STRIKES_BEFORE_MOVING_ON by decide
        exact ⟨fresh', early', fun same => absurd same other, most'⟩
      · have last := more _ List.mem_cons_self
        rcases account_short (Nat.lt_of_not_le long) last with ⟨at_, strikes, few'⟩ | ⟨at_, strikes⟩
        · rw [at_, strikes]
          exact ⟨few', early', now', most'⟩
        · rw [at_, strikes]
          have unstarted : (r.after lives).at_ + 1 ≤ i →
              count i (r.after lives).nextStart + count i (r.startsBefore lives) = 0 :=
            early'
          refine ⟨by decide, fun less => unstarted (Nat.le_of_lt less), fun same => ?_, most'⟩
          exact Nat.le_of_eq (unstarted (Nat.le_of_eq same))

/-- The start that comes next included, there are at most three. -/
theorem count_startsAfter {r : Rescue} {i : ℕ} (fresh : r.strikes = 0) {lives : List ℕ}
    (short : r.allShort i lives) (more : ∀ a ∈ r.accountsOf lives, a.isLast = false) :
    count i (r.startsAfter lives) ≤ STRIKES_BEFORE_MOVING_ON := by
  obtain ⟨few, early, now, most⟩ := count_startsBefore fresh short more
  rw [startsAfter, count_append]
  exact (count_next few early now most).2.2

/-- The account of a death is `survived` exactly if the recorded lifetime is not short. -/
theorem of_mem_accounts {r : Rescue} {ds : List Death} {d : Death} {a : Account}
    (member : (d, a) ∈ ds.zip (r.accountsOf (ds.map Death.recorded))) :
    a = .survived ↔ ¬ d.recorded < RESPAWN_IS_TOO_FAST := by
  induction ds with
  | nil => cases member
  | cons d' ds ih =>
      rw [List.map_cons, accountsOf, List.zip_cons_cons] at member
      rcases List.mem_cons.mp member with same | old
      · cases same
        unfold account
        split
        · rename_i long
          exact ⟨fun _ => Nat.not_lt.mpr long, fun _ => rfl⟩
        · rename_i short
          exact ⟨fun lives => Account.noConfusion lives, fun long => absurd (Nat.not_lt.mp long) short⟩
      · exact ih old

/-- If the deaths of a candidate are all recorded as short, so are the lifetimes of its shells. -/
theorem allShort_of_deaths {r : Rescue} {i : ℕ} {ds : List Death}
    (candidates : ds.map Death.candidate = r.tried (ds.map Death.recorded))
    (short : ∀ d ∈ ds, d.candidate = i → d.recorded < RESPAWN_IS_TOO_FAST) :
    r.allShort i (ds.map Death.recorded) := by
  induction ds with
  | nil => trivial
  | cons d ds ih =>
      rw [List.map_cons, List.map_cons, tried, List.cons.injEq] at candidates
      obtain ⟨now, before⟩ := candidates
      refine ⟨fun here => ?_, ?_⟩
      · rw [← now] at here
        exact short d List.mem_cons_self here
      · exact ih before fun d' member => short d' (List.mem_cons_of_mem _ member)

end Rescue

theorem judged_eq {h : List Event} {pending : Option Death} {done : List Death}
    (deaths_ : deaths h = pending.toList ++ done) (length : done.length = (accounts h).length) :
    ∀ x ∈ judged h, x ∈ done.zip (accounts h) := by
  intro x member
  have all : judged h = (done.zip (accounts h)).reverse := by
    have same : done.reverse.length = (accounts h).reverse.length := by
      rw [List.length_reverse, List.length_reverse, length]
    calc
      judged h = (done.reverse ++ pending.toList.reverse).zip ((accounts h).reverse ++ []) := by
        rw [judged, deaths_, List.reverse_append, List.append_nil]
      _ = done.reverse.zip (accounts h).reverse ++ pending.toList.reverse.zip [] :=
        List.zip_append same
      _ = (done.zip (accounts h)).reverse := by
        rw [List.zip_nil_right, List.append_nil]
        exact (List.reverse_zipWith length).symm
  rw [all, List.mem_reverse] at member
  exact member

/-- A death that was accounted for has the account `survived` exactly if a second of the clock began
in that life. -/
theorem judged_survived {pending : Option ℕ} {done : List ℕ} (books : Books p pending done w)
    (timed : Timed w) {d : Death} {a : Account} (member : (d, a) ∈ judged w.hist) :
    a = .survived ↔ ¬ d.sameSecond := by
  have recorded : (deaths w.hist).map Death.recorded = pending.toList ++ done := by
    rw [← timed.lives, books.lives]
  obtain ⟨newest, old, all, one, rest⟩ := List.map_eq_append_iff.mp recorded
  have length : old.length = (accounts w.hist).length := by
    have accounted : ∀ lives, ((firstRescue w.hist).accountsOf lives).length = lives.length := by
      intro lives
      induction lives with
      | nil => rfl
      | cons _ _ ih => exact congrArg (· + 1) ih
    rw [books.accounts, accounted, ← rest, List.length_map]
  have few : ∃ last : Option Death, newest = last.toList := by
    match newest with
    | [] => exact ⟨none, rfl⟩
    | [d] => exact ⟨some d, rfl⟩
    | _ :: _ :: _ => cases pending <;> cases one
  obtain ⟨last, rfl⟩ := few
  have there := judged_eq all length _ member
  have is : d ∈ deaths w.hist := by
    rw [all]
    exact List.mem_append_right _ (List.of_mem_zip there).1
  rw [books.accounts, ← rest] at there
  rw [Rescue.of_mem_accounts there, Death.recorded_short (timed.order d is)]

/-- A candidate whose shells are all recorded with short lives was started at most three times. -/
theorem few_starts {pending : Option ℕ} {done : List ℕ} {i : ℕ}
    (books : Books p pending done w) (short : (firstRescue w.hist).allShort i (lifetimes w.hist)) :
    Rescue.count i (starts w.hist) ≤ STRIKES_BEFORE_MOVING_ON := by
  have fresh := books.fresh.2
  have last := books.last
  rw [books.lives] at short
  rw [books.starts]
  cases begun : p.begun w.mem.table.shells pending with
  | true =>
      rw [begun, Bool.not_true, Bool.and_false, books.accounts] at last
      have before : (firstRescue w.hist).allShort i done := by
        cases pending with
        | none => exact short
        | some ranFor => exact short.2
      exact Rescue.count_startsAfter fresh before last
  | false =>
      cases pending with
      | some ranFor =>
          rw [Place.begun, Option.isSome_some, Bool.or_true] at begun
          cases begun
      | none =>
          cases done with
          | nil => exact Nat.zero_le _
          | cons ranFor lives =>
              refine Rescue.count_startsAfter fresh short.2 fun a member => ?_
              rw [books.accounts] at last
              split at last
              · exact last a member
              · exact last a (List.mem_cons_of_mem _ member)

/-- The deaths of candidate `i` that come less than a second after the start come in the same second
of the clock. -/
def NoTickInside (i : ℕ) (h : List Event) : Prop :=
  ∀ d ∈ deaths h, d.candidate = i → d.quick → d.sameSecond

instance (i : ℕ) (h : List Event) : Decidable (NoTickInside i h) :=
  inferInstanceAs (Decidable (∀ d ∈ deaths h, _))

/-- **A shell that dies at once is given up after three tries, unless the clock ticks in its
life.**  An exit is taken for a survival exactly if a second of the clock begins between
`started_at` and the exit, however short the life was; and a candidate whose shells all die
within a second, with no such tick, only has failures and is started three times at most. -/
theorem quick_deaths_are_failures
    (reach : Reaches clockKernel.semantics (boot candidates kern) conf)
    (unasked : Unasked conf.world.hist) :
    (∀ d a, (d, a) ∈ judged conf.world.hist → (a = .survived ↔ ¬ d.sameSecond)) ∧
      ∀ i, NoTickInside i conf.world.hist →
        (∀ d ∈ deaths conf.world.hist, d.candidate = i → d.quick) →
        (∀ d a, (d, a) ∈ judged conf.world.hist → d.candidate = i → a ≠ .survived) ∧
          Rescue.count i (starts conf.world.hist) ≤ STRIKES_BEFORE_MOVING_ON := by
  obtain ⟨p, path, -⟩ := exists_path reach
  obtain ⟨ledger, timed⟩ := timed_everywhere reach path
  obtain ⟨pending, done, books⟩ := ledger.books unasked
  refine ⟨fun d a => judged_survived books timed, fun i noTick quick => ⟨?_, ?_⟩⟩
  · intro d a member is survived
    have there : d ∈ deaths conf.world.hist := List.mem_reverse.mp (List.of_mem_zip member).1
    have tick := (judged_survived books timed member).mp survived
    exact tick (noTick d there is (quick d there is))
  · refine few_starts books ?_
    have candidates := timed.candidates unasked
    rw [timed.lives] at candidates ⊢
    refine Rescue.allShort_of_deaths candidates fun d there is => ?_
    exact (Death.recorded_short (timed.order d there)).mpr (noTick d there is (quick d there is))

/-! ## Shells that live for a tenth of a second -/

/-- The script in which every shell dies, and time passes as given. -/
def byTheClock (before : World ℕ → Call → ℕ) (passes : ∀ w c, w.kern ≤ before w c) :
    Script clockKernel where
  before
  answer w
    | .clockGettime => if w.kern / NANOS < 2 ^ 63 then some (w.kern / NANOS, w.kern) else none
    | s => (everyShellDies false w s).map fun r => (r, w.kern)
  clock now := now / NANOS
  others w c := .single (passes w c)
  answers {w s r kern} h := by
    by_cases clock : s = .clockGettime
    · subst clock
      obtain ⟨early, rfl, rfl⟩ := by simpa using h
      exact ⟨early, rfl, rfl⟩
    · have answered : (everyShellDies false w s).map (fun r => (r, w.kern)) = some (r, kern) := by
        cases s <;> first | exact h | exact absurd rfl clock
      obtain ⟨r', dies, same⟩ := Option.map_eq_some_iff.mp answered
      cases same
      refine ⟨(everyShellDies_promised dies).2, ?_, rfl⟩
      cases s <;> trivial
  reads := reads_second

/-- The times of such a run: every shell is tracked `phase` times 10 ms into a second and dies 100
ms later, and every wait without a shell takes a second. -/
def shortLived (phase : ℕ) (w : World ℕ) : Call → ℕ
  | .mem (.track _ _ _) => w.kern / NANOS * NANOS + NANOS + phase * 10 ^ 6
  | .mem (.recordExit _ _) => w.kern + 100 * 10 ^ 6
  | .sys (.poll _ _) => if w.mem.table.shells = [] then w.kern + NANOS else w.kern
  | _ => w.kern

theorem shortLived_passes (phase : ℕ) (w : World ℕ) (c : Call) : w.kern ≤ shortLived phase w c := by
  unfold shortLived
  split
  · have rest := Nat.mod_lt w.kern (show 0 < NANOS by decide)
    have whole := Nat.div_add_mod' w.kern NANOS
    omega
  · exact Nat.le_add_right _ _
  · split
    · exact Nat.le_add_right _ _
    · exact Nat.le_refl _
  · exact Nat.le_refl _

/-- Pid 1 when it has accounted for `n` deaths. -/
def afterDeaths (phase n : ℕ) : Config calls (World ℕ) Unit :=
  (byTheClock (shortLived phase) (shortLived_passes phase)).driver.run
    (fun c => decide ((judged c.world.hist).length = n)) 4000 (boot CANDIDATES 0)

theorem afterDeaths_reachable (phase n : ℕ) :
    Reaches clockKernel.semantics (boot CANDIDATES 0) (afterDeaths phase n) :=
  (byTheClock (shortLived phase) (shortLived_passes phase)).driver.reaches _ _ _

/-- Four shells die after 100 ms, in each of whose lives a second begins: all four deaths count as
survivals, and the first candidate is started a fourth time. -/
theorem quick_deaths_survive :
    ¬ ∀ conf, Reaches clockKernel.semantics (boot CANDIDATES 0) conf → Unasked conf.world.hist →
      (∀ d ∈ deaths conf.world.hist, d.candidate = 0 → d.quick) →
      (∀ d a, (d, a) ∈ judged conf.world.hist → d.candidate = 0 → a ≠ .survived) ∧
        Rescue.count 0 (starts conf.world.hist) ≤ STRIKES_BEFORE_MOVING_ON := by
  intro always
  have quiet : Unasked (afterDeaths 950 4).world.hist := by
    decide +kernel
  have quick : ∀ d ∈ deaths (afterDeaths 950 4).world.hist, d.candidate = 0 → d.quick := by
    decide +kernel
  have four : Rescue.count 0 (starts (afterDeaths 950 4).world.hist) = 4 := by
    decide +kernel
  have three := (always _ (afterDeaths_reachable 950 4) quiet quick).2
  rw [four] at three
  exact absurd three (by decide)

theorem quick_deaths_are_failures_in_one_second :
    ((judged (afterDeaths 500 6).world.hist).map fun x => (x.1.candidate, x.2.isLast)) =
        [(0, false), (0, false), (0, false), (1, false), (1, false), (1, true)] ∧
      Rescue.count 0 (starts (afterDeaths 500 6).world.hist) ≤ STRIKES_BEFORE_MOVING_ON := by
  have quiet : Unasked (afterDeaths 500 6).world.hist := by
    decide +kernel
  have noTick : NoTickInside 0 (afterDeaths 500 6).world.hist := by
    decide +kernel
  have quick : ∀ d ∈ deaths (afterDeaths 500 6).world.hist, d.candidate = 0 → d.quick := by
    decide +kernel
  have holds := (quick_deaths_are_failures (afterDeaths_reachable 500 6) quiet).2 0 noTick quick
  exact ⟨by decide +kernel, holds.2⟩

end Zevory
