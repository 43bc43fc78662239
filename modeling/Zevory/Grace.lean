import Zevory.Brief
import Zevory.Clock
import Zevory.Interaction.Record

/-!
# The grace that is given

How long `wait_for_silence` waits, in true time.  Its deadline is made from whole seconds
and compared with whole seconds, so that a wait may end up to a second too early, depending
on the fractions of the second at which it begins and ends.  The message "still busy after
5s" is logged then as well.
-/

namespace Zevory

open Interaction Signal Power

/-! ## What is added to the history -/

/-- Records the events of the history, oldest first. -/
def Kernel.recorder {K : Type} (k : Kernel K) : Recorder k.semantics Event Unit where
  trace w := w.hist.reverse
  view _ := ()
  still others := by
    obtain ⟨kern, -, rfl⟩ := others
    exact ⟨rfl, rfl⟩

/-- A reading of the clock: the seconds it returned, and the true time. -/
def Event.check : Event → Option (ℕ × ℕ)
  | ⟨.sys .clockGettime, now, t⟩ => some (now, t)
  | _ => none

/-- The readings of the clock among some events. -/
def checks (made : List Event) : List (ℕ × ℕ) := made.filterMap Event.check

/-- The calls that are neither a reading of the clock nor a `waitpid`. -/
def Call.isIdle : Call → Bool
  | .sys .clockGettime => false
  | .sys .waitpid => false
  | _ => true

section Adds

variable {K α : Type} {k : Kernel K}

/-- `p` adds events to the history that meet `C`, whatever the history was. -/
abbrev Adds (k : Kernel K) (p : Pid1 α) (C : α → List Event → Prop) : Prop :=
  Makes k.recorder p () fun a made _ => C a made

theorem Kernel.Answers.adds {w w' : World K} {c : Call} {r : c.Res} (answer : k.Answers w c r w') :
    k.recorder.trace w' = k.recorder.trace w ++ [⟨c, r, k.time w.kern⟩] := by
  show w'.hist.reverse = _
  rw [answer.hist, List.reverse_cons]
  rfl

theorem adds_call (c : Call) :
    Adds k (Prog.perform (S := calls) c) fun r made => ∃ t, made = [⟨c, r, t⟩] :=
  Makes.perform fun _ _ _ _ answer => ⟨_, Kernel.Answers.adds answer, _, rfl⟩

/-- `p` neither looks at the clock nor waits for children, and its result meets `Q`. -/
abbrev Idle (p : Pid1 α) (Q : α → Prop) : Prop :=
  Only (S := calls) (fun c => c.isIdle) (fun _ _ => True) p Q

theorem Idle.adds {p : Pid1 α} {Q : α → Prop} (idle : Idle p Q) :
    Adds k p fun a made => Q a ∧ ∀ e ∈ made, e.call.isIdle := by
  have answered : ∀ (o : calls.Op) r (w w' : World K), Call.isIdle o → k.semantics.answer w o r w' →
      True ∧ ∃ made, k.recorder.trace w' = k.recorder.trace w ++ made ∧
        ∀ e ∈ made, e.call.isIdle := by
    intro o r w w' is answer
    refine ⟨trivial, _, Kernel.Answers.adds answer, fun e member => ?_⟩
    rw [List.mem_singleton.mp member]
    exact is
  exact Makes.only answered idle

theorem OnlyLogs.idle {p : Pid1 α} (logs : OnlyLogs (fun _ _ => True) p) :
    Idle p fun _ => True := by
  refine Only.subset ?_ logs.only
  intro c log
  cases c with
  | sys s => cases s <;> first | rfl | cases log
  | mem => rfl

theorem wait_idle {signals : Signals} {millis : Int} :
    Idle (signals.wait millis) fun _ => True :=
  (wait_halts (fun _ _ => rfl) fun _ => rfl).only

end Adds

section Lists

variable {made more : List Event}

theorem checks_append : checks (made ++ more) = checks made ++ checks more :=
  List.filterMap_append

theorem checks_idle (idle : ∀ e ∈ made, e.call.isIdle) : checks made = [] := by
  apply List.filterMap_eq_nil_iff.mpr
  rintro ⟨c, r, t⟩ member
  have is := idle _ member
  cases c with
  | sys s => cases s <;> first | rfl | cases is
  | mem => rfl

theorem lastReap_more : lastReap (made ++ more).reverse =
    (lastReap more.reverse).or (lastReap made.reverse) := by
  rw [List.reverse_append, lastReap, List.findSome?_append]
  rfl

end Lists

/-! ## `wait_for_silence` -/

/-- What `wait_for_silence` adds after its first reading of the clock: either the last `waitpid` has
reported that no children are left, or it has reported that some are still running and a reading
after it is at or past the deadline; all readings before that are early. -/
inductive Waited (deadline : ℕ) : Bool → List Event → Prop
  | silent {made : List Event} : (∀ l ∈ checks made, l.1 < deadline) →
      lastReap made.reverse = some .noChildrenLeft → Waited deadline true made
  | busy {before : List Event} {now t : ℕ} : (∀ l ∈ checks before, l.1 < deadline) →
      lastReap before.reverse = some .stillRunning → deadline ≤ now →
      Waited deadline false (before ++ [⟨.sys .clockGettime, now, t⟩])

theorem early_append {deadline : ℕ} {made more : List Event}
    (early : ∀ l ∈ checks made, l.1 < deadline) (early' : ∀ l ∈ checks more, l.1 < deadline) :
    ∀ l ∈ checks (made ++ more), l.1 < deadline := by
  intro l member
  rw [checks_append] at member
  rcases List.mem_append.mp member with old | new
  · exact early l old
  · exact early' l new

/-- Events with early readings only, before such a wait, make such a wait. -/
theorem Waited.later {deadline : ℕ} {b : Bool} {made more : List Event}
    (early : ∀ l ∈ checks made, l.1 < deadline) (waited : Waited deadline b more) :
    Waited deadline b (made ++ more) := by
  cases waited with
  | silent early' last =>
      apply Waited.silent (early_append early early')
      rw [lastReap_more, last]
      rfl
  | @busy before now t early' last late =>
      rw [← List.append_assoc]
      apply Waited.busy (early_append early early') ?_ late
      rw [lastReap_more, last]
      rfl

section Waits

variable {K : Type} {k : Kernel K} {deadline : ℕ}

theorem reapRound_adds (shortestLife : Option ℕ) :
    Adds k (reapRound shortestLife) fun next made => checks made = [] ∧
      ∀ h, next = .inr h → lastReap made.reverse = some (reported h.childrenLeft) := by
  simp only [reapRound, Sys.reapOne, Prog.bind_eq, Prog.bind_assoc, Prog.pure_eq, Prog.ret_bind]
  refine Makes.bind (adds_call (.sys .waitpid)) ?_
  rintro r _ ⟨⟩ ⟨t, rfl⟩
  cases reaped : Sys.reapedOf r with
  | stillRunning =>
      refine Makes.ret ⟨rfl, fun h left => ?_⟩
      cases left
      exact congrArg some reaped
  | noChildrenLeft =>
      refine Makes.ret ⟨rfl, fun h left => ?_⟩
      cases left
      exact congrArg some reaped
  | child pid status =>
      -- the rest of the round logs, and goes round
      refine (Idle.adds (Q := fun next => ∀ h, next ≠ .inr h) ?_).post ?_
      · refine Only.bind (T := fun _ => True) (Only.perform rfl fun _ _ => trivial) fun gone? _ => ?_
        split
        · exact Only.bind emit_logs.idle fun _ _ => Only.ret fun h right => by cases right
        · exact Only.bind logDeparted_logs.idle fun _ _ => Only.ret fun h right => by cases right
      · rintro next made - ⟨round, idle⟩
        refine ⟨?_, fun h right => absurd right (round h)⟩
        rw [checks_append, checks_idle idle]
        rfl

/-- `reap_all` does not read the clock, and returns what its last `waitpid` has reported. -/
theorem reapAll_adds :
    Adds k reapAll fun h made => checks made = [] ∧
      lastReap made.reverse = some (reported h.childrenLeft) := by
  simp only [reapAll, Prog.bind_eq, Prog.pure_eq]
  refine Makes.bind (C := fun h made _ => checks made = [] ∧
    lastReap made.reverse = some (reported h.childrenLeft)) ?_ ?_
  · refine Makes.iterate (fun _ made _ => checks made = []) rfl ?_
    rintro shortestLife made ⟨⟩ unlooked
    refine (reapRound_adds shortestLife).post ?_
    rintro (shortestLife' | h) more - ⟨unlooked', last⟩
    · exact (checks_append).trans (by rw [unlooked, unlooked']; rfl)
    · refine ⟨(checks_append).trans (by rw [unlooked, unlooked']; rfl), ?_⟩
      rw [lastReap_more, last h rfl]
      rfl
  · rintro h made ⟨⟩ ⟨unlooked, last⟩
    refine Makes.bind (adds_call (.mem .forgetFinished)) ?_
    rintro - _ ⟨⟩ ⟨t, rfl⟩
    refine Makes.ret ⟨?_, ?_⟩
    · rw [checks_append, unlooked]
      rfl
    · rw [List.append_nil, lastReap_more, last]
      rfl

/-- What one round of `wait_for_silence` adds: early readings if it goes on, and the end of a wait
if it does not. -/
theorem silenceRound_adds (signals : Signals) :
    Adds k (silenceRound signals deadline) fun next made => Sum.elim
      (fun _ => ∀ l ∈ checks made, l.1 < deadline) (fun b => Waited deadline b made) next := by
  simp only [silenceRound, Prog.bind_eq, Prog.pure_eq]
  refine Makes.bind reapAll_adds ?_
  rintro h made ⟨⟩ ⟨unlooked, last⟩
  cases left : h.childrenLeft with
  | false =>
      rw [left] at last
      refine Makes.ret ?_
      rw [List.append_nil]
      refine .silent ?_ last
      rw [unlooked]
      intro l member
      cases member
  | true =>
      rw [left] at last
      simp only [Bool.not_true, Bool.false_eq_true, if_false]
      refine Makes.bind (adds_call (.sys .clockGettime)) ?_
      rintro (now : ℕ) _ ⟨⟩ ⟨t, rfl⟩
      by_cases late : now ≥ deadline
      · rw [if_pos late]
        refine Makes.ret ?_
        rw [List.append_nil]
        refine .busy ?_ last late
        rw [unlooked]
        intro l member
        cases member
      · rw [if_neg late]
        refine (Idle.adds (Q := fun next => next = .inl ()) ?_).post ?_
        · refine Only.bind wait_idle fun arrived? _ => ?_
          split
          · split
            · exact Only.bind emit_logs.idle fun _ _ => Only.ret rfl
            · exact Only.ret rfl
          · exact Only.ret rfl
        · rintro _ more - ⟨rfl, idle⟩
          intro l member
          rw [checks_append, checks_append, unlooked, checks_idle idle] at member
          obtain rfl := List.mem_singleton.mp member
          exact Nat.lt_of_not_le late

/-- `wait_for_silence` reads the clock first, and then waits for the deadline that follows from it.
-/
theorem waitForSilence_adds (signals : Signals) (secs : ℕ) :
    Adds k (waitForSilence signals secs) fun b made => ∃ (now t : ℕ) (rest : List Event),
      made = ⟨.sys .clockGettime, now, t⟩ :: rest ∧ Waited ((now + secs) % 2 ^ 64) b rest := by
  simp only [waitForSilence, Sys.addU64, Prog.bind_eq, Prog.pure_eq, Prog.ret_bind]
  refine Makes.bind (adds_call (.sys .clockGettime)) ?_
  rintro (now : ℕ) _ ⟨⟩ ⟨t, rfl⟩
  refine Makes.post (C := fun b made _ => Waited ((now + secs) % 2 ^ 64) b made) ?_ ?_
  · refine Makes.iterate (fun _ made _ => ∀ l ∈ checks made, l.1 < (now + secs) % 2 ^ 64) ?_ ?_
    · intro l member
      cases member
    · rintro ⟨⟩ made ⟨⟩ early
      refine (silenceRound_adds signals).post ?_
      rintro (_ | b) more - after
      · exact early_append early after
      · exact Waited.later early after
  · intro b rest _ waited
    exact ⟨now, t, rest, rfl, waited⟩

end Waits

/-! ## True time -/

/-- The events, oldest first, have times in order between `start` and `stop`, and each reading of
the clock returned the whole seconds of its time. -/
structure OnTime (start : ℕ) (made : List Event) (stop : ℕ) : Prop where
  order : start ≤ stop
  between : ∀ e ∈ made, start ≤ e.time ∧ e.time ≤ stop
  sorted : made.Pairwise fun earlier later => earlier.time ≤ later.time
  seconds : ∀ l ∈ checks made, l.1 = l.2 / NANOS ∧ l.1 < 2 ^ 63

section OnTime

variable {α : Type} {c c' : Config calls (World ℕ) α} {w w' : World ℕ}
  {start stop later : ℕ} {made : List Event} {e : Event}

theorem OnTime.passes (onTime : OnTime start made stop) (passes : stop ≤ later) :
    OnTime start made later :=
  ⟨Nat.le_trans onTime.order passes,
    fun e member => ⟨(onTime.between e member).1, Nat.le_trans (onTime.between e member).2 passes⟩,
    onTime.sorted, onTime.seconds⟩

/-- One more event at the end of the time span. -/
theorem OnTime.concat (onTime : OnTime start made stop) (now : e.time = stop)
    (second : ∀ l ∈ e.check, l.1 = l.2 / NANOS ∧ l.1 < 2 ^ 63) :
    OnTime start (made ++ [e]) stop := by
  refine ⟨onTime.order, fun e' member => ?_, ?_, fun l member => ?_⟩
  · rcases List.mem_append.mp member with old | new
    · exact onTime.between e' old
    · rw [List.mem_singleton.mp new, now]
      exact ⟨onTime.order, Nat.le_refl _⟩
  · refine List.pairwise_append.mpr ⟨onTime.sorted, List.pairwise_singleton _ _, ?_⟩
    intro e' old e'' new
    rw [List.mem_singleton.mp new, now]
    exact (onTime.between e' old).2
  · rw [checks_append] at member
    rcases List.mem_append.mp member with old | new
    · exact onTime.seconds l old
    · obtain ⟨e', there, is⟩ := List.mem_filterMap.mp new
      rw [List.mem_singleton.mp there] at is
      exact second l is

theorem second_of_answer {call : Call} {r : call.Res} (answer : clockKernel.Answers w call r w') :
    ∀ l ∈ Event.check ⟨call, r, w.kern⟩, l.1 = l.2 / NANOS ∧ l.1 < 2 ^ 63 := by
  intro l is
  cases answer with
  | mem => cases is
  | @sys s _ _ answer =>
      cases s with
      | clockGettime =>
          cases is
          exact ⟨answer.2.1, answer.1⟩
      | _ => cases is

/-- Whatever the program, the events that it adds are on time. -/
theorem onTime_everywhere (reach : Reaches clockKernel.semantics c c') :
    ∃ made, c'.world.hist.reverse = c.world.hist.reverse ++ made ∧
      OnTime c.world.kern made c'.world.kern := by
  induction reach with
  | refl =>
      refine ⟨[], (List.append_nil _).symm, Nat.le_refl _, fun e member => ?_, .nil,
        fun l member => ?_⟩
      · cases member
      · cases member
  | tail _ step ih =>
      obtain ⟨made, hist, onTime⟩ := ih
      cases step with
      | interfere others =>
          obtain ⟨kern, passes, rfl⟩ := others
          exact ⟨made, hist, onTime.passes passes⟩
      | unroll => exact ⟨made, hist, onTime⟩
      | @answer call k r w w' answer =>
          refine ⟨made ++ [⟨call, r, w.kern⟩], ?_, ?_⟩
          · show w'.hist.reverse = _
            rw [Kernel.Answers.hist answer, List.reverse_cons, hist, List.append_assoc]
            rfl
          · rw [clock_stands answer]
            exact onTime.concat rfl (second_of_answer answer)

end OnTime

/-! ## How long it takes -/

/-- The time between the first and the last of some events. -/
def elapsed : List Event → ℕ
  | [] => 0
  | first :: rest => (rest.getLastD first).time - first.time

/-- What `wait_for_silence` should do: when it returns true, its last `waitpid` has reported that no
children are left, and when it returns false, that some are still running, and `secs` seconds have
passed. -/
structure FullWait (secs : ℕ) (silent : Bool) (made : List Event) : Prop where
  alone : silent = true → lastReap made.reverse = some .noChildrenLeft
  busy : silent = false → lastReap made.reverse = some .stillRunning
  full : silent = false → secs * NANOS ≤ elapsed made

/-- A reading at `t` that ends a wait too early: in the second that the deadline names, but at an
earlier fraction of it than the first reading at `start`; or the deadline does not fit into 64 bits.
-/
def EarlyLook (secs start t : ℕ) : Prop :=
  2 ^ 64 ≤ start / NANOS + secs ∨
    t / NANOS = start / NANOS + secs ∧ t % NANOS < start % NANOS

instance (secs start t : ℕ) : Decidable (EarlyLook secs start t) :=
  inferInstanceAs (Decidable (_ ∨ _))

/-- No reading after the first one is too early. -/
def LooksInTime (secs : ℕ) : List Event → Prop
  | [] => True
  | first :: rest => ∀ l ∈ checks rest, ¬ EarlyLook secs first.time l.2

instance (secs : ℕ) : (made : List Event) → Decidable (LooksInTime secs made)
  | [] => inferInstanceAs (Decidable True)
  | first :: rest => inferInstanceAs (Decidable (∀ l ∈ checks rest, ¬ EarlyLook secs first.time l.2))

/-- If the whole seconds are `secs` apart, then the times are, unless they are in the very second
and the fraction is the smaller one. -/
theorem full_of_seconds {secs start t : ℕ} (order : start ≤ t)
    (late : start / NANOS + secs ≤ t / NANOS) :
    secs * NANOS ≤ t - start ↔
      ¬ (t / NANOS = start / NANOS + secs ∧ t % NANOS < start % NANOS) := by
  have begins := Nat.div_add_mod start NANOS
  have ends := Nat.div_add_mod t NANOS
  have fraction : start % NANOS < NANOS := Nat.mod_lt _ (by decide)
  have fraction' : t % NANOS < NANOS := Nat.mod_lt _ (by decide)
  unfold NANOS at *
  omega

section Full

variable {start stop secs now t : ℕ} {silent : Bool} {rest : List Event}

/-- A reading that is before the deadline is not too early. -/
theorem not_early {l : ℕ × ℕ} (u64 : secs < 2 ^ 64) (before : l.1 < (t / NANOS + secs) % 2 ^ 64)
    (order : t ≤ l.2) (second : l.1 = l.2 / NANOS) : ¬ EarlyLook secs t l.2 := by
  have seconds : t / NANOS ≤ l.2 / NANOS := Nat.div_le_div_right order
  rintro (overflow | ⟨deadline, -⟩)
  · rw [second] at before
    omega
  · rw [second] at before
    omega

/-- Between the first reading and one that has reached the deadline, `secs` seconds have passed
exactly if that one is not too early. -/
theorem full_of_last {t' : ℕ} (order : t ≤ t') (read : t' / NANOS < 2 ^ 63)
    (late : (t / NANOS + secs) % 2 ^ 64 ≤ t' / NANOS) :
    secs * NANOS ≤ t' - t ↔ ¬ EarlyLook secs t t' := by
  by_cases overflow : 2 ^ 64 ≤ t / NANOS + secs
  · refine ⟨fun full => ?_, fun notEarly => absurd (.inl overflow) notEarly⟩
    have ends := Nat.div_add_mod t' NANOS
    have fraction : t' % NANOS < NANOS := Nat.mod_lt _ (by decide)
    unfold NANOS at *
    omega
  · rw [Nat.mod_eq_of_lt (Nat.lt_of_not_le overflow)] at late
    rw [full_of_seconds order late, EarlyLook, or_iff_right overflow]

/-- The readings after a first one are no earlier, and return the whole seconds of their times. -/
theorem OnTime.looks_after (onTime : OnTime start (⟨.sys .clockGettime, now, t⟩ :: rest) stop) :
    ∀ l ∈ checks rest, t ≤ l.2 ∧ l.1 = l.2 / NANOS ∧ l.1 < 2 ^ 63 := by
  intro l member
  obtain ⟨after, -⟩ := List.pairwise_cons.mp onTime.sorted
  obtain ⟨⟨c, r, t'⟩, there, is⟩ := List.mem_filterMap.mp member
  refine ⟨?_, onTime.seconds l (List.mem_cons_of_mem _ member)⟩
  have order : t ≤ t' := after _ there
  cases c with
  | mem => cases is
  | sys s =>
      cases s with
      | clockGettime =>
          cases is
          exact order
      | _ => cases is

theorem lastReap_look :
    lastReap (⟨.sys .clockGettime, now, t⟩ :: rest).reverse = lastReap rest.reverse := by
  rw [List.reverse_cons, lastReap, List.findSome?_append]
  exact Option.or_none

theorem full_iff (u64 : secs < 2 ^ 64)
    (onTime : OnTime start (⟨.sys .clockGettime, now, t⟩ :: rest) stop)
    (waited : Waited ((now + secs) % 2 ^ 64) silent rest) :
    FullWait secs silent (⟨.sys .clockGettime, now, t⟩ :: rest) ↔
      LooksInTime secs (⟨.sys .clockGettime, now, t⟩ :: rest) := by
  obtain ⟨read, small⟩ := onTime.seconds (now, t) List.mem_cons_self
  dsimp only at read small
  subst read
  have looks := onTime.looks_after
  cases waited with
  | silent early last =>
      refine ⟨fun _ l member => ?_, fun _ => ⟨fun _ => ?_, fun left => ?_, fun left => ?_⟩⟩
      · obtain ⟨order, second, -⟩ := looks l member
        exact not_early u64 (early l member) order second
      · exact lastReap_look.trans last
      · cases left
      · cases left
  | @busy before now' t' early last late =>
      have atEnd : (now', t') ∈ checks (before ++ [⟨.sys .clockGettime, now', t'⟩]) := by
        rw [checks_append]
        exact List.mem_append_right _ List.mem_cons_self
      obtain ⟨order, second, small'⟩ := looks _ atEnd
      dsimp only at order second small'
      rw [second] at late small'
      have exact_ := full_of_last order small' late
      have last' : lastReap (before ++ [(⟨.sys .clockGettime, now', t'⟩ : Event)]).reverse =
          some .stillRunning := by
        rw [lastReap_more, last]
        rfl
      constructor
      · intro full l member
        rw [checks_append] at member
        rcases List.mem_append.mp member with old | new
        · obtain ⟨order', second', -⟩ := looks l (by
            rw [checks_append]
            exact List.mem_append_left _ old)
          exact not_early u64 (early l old) order' second'
        · obtain rfl := List.mem_singleton.mp new
          have time := full.full rfl
          rw [elapsed, List.getLastD_concat] at time
          exact exact_.mp time
      · intro inTime
        refine ⟨fun alone => ?_, fun _ => lastReap_look.trans last', fun _ => ?_⟩
        · cases alone
        · rw [elapsed, List.getLastD_concat]
          exact exact_.mpr (inTime _ atEnd)

end Full

/-! ## In a shutdown -/

section Shutdown

variable {start stop secs : ℕ}

theorem OnTime.sublist {made made' : List Event} (onTime : OnTime start made stop)
    (sub : made'.Sublist made) : OnTime start made' stop :=
  ⟨onTime.order, fun e member => onTime.between e (sub.subset member), onTime.sorted.sublist sub,
    fun l member => onTime.seconds l ((sub.filterMap _).subset member)⟩

/-- An event before a wait that has timed out lies `secs` seconds back, if no reading of the wait
was too early. -/
theorem passed_since {wait rest : List Event} {e : Event}
    (onTime : OnTime start (wait ++ rest).reverse stop) (timedOut : TimedOut secs wait)
    (inTime : LooksInTime secs wait.reverse) (before : e ∈ rest) :
    e.time + secs * NANOS ≤ stop := by
  obtain ⟨first, now, t, t', between, rfl, late, -, -⟩ := timedOut
  rw [List.reverse_append] at onTime
  have turned : (⟨.sys .clockGettime, now, t'⟩ :: between ++ [⟨.sys .clockGettime, first, t⟩] :
      List Event).reverse = ⟨.sys .clockGettime, first, t⟩ ::
        (between.reverse ++ [⟨.sys .clockGettime, now, t'⟩]) := by
    simp
  rw [turned] at onTime inTime
  have last : (⟨.sys .clockGettime, now, t'⟩ : Event) ∈
      between.reverse ++ [⟨.sys .clockGettime, now, t'⟩] :=
    List.mem_append_right _ List.mem_cons_self
  have look : (now, t') ∈ checks (between.reverse ++ [⟨.sys .clockGettime, now, t'⟩]) := by
    rw [checks_append]
    exact List.mem_append_right _ List.mem_cons_self
  obtain ⟨-, sorted, apart⟩ := List.pairwise_append.mp onTime.sorted
  have waits : e.time ≤ t := apart e (List.mem_reverse.mpr before) _ List.mem_cons_self
  have order : t ≤ t' := (List.pairwise_cons.mp sorted).1 _ last
  have ends : t' ≤ stop :=
    (onTime.between _ (List.mem_append_right _ (List.mem_cons_of_mem _ last))).2
  have reads : first = t / NANOS := by
    refine (onTime.seconds (first, t) ?_).1
    rw [checks_append]
    exact List.mem_append_right _ List.mem_cons_self
  obtain ⟨reads', small⟩ := onTime.seconds (now, t') (by
    rw [checks_append]
    exact List.mem_append_right _ (List.mem_cons_of_mem _ look))
  dsimp only at reads' small
  rw [reads, reads'] at late
  rw [reads'] at small
  have full := (full_of_last order small (Nat.le_trans (Nat.mod_le _ _) late)).mpr (inTime _ look)
  omega

/-- If the last thing in `d` is a wait for `secs` seconds that has timed out, preceded by `signal`
being sent to everyone and a SIGCONT, then `signal` was sent that long before `now`, unless a
reading was too early. -/
def Spared (signal : Int) (secs now : ℕ) (d : List Event) : Prop :=
  ∃ (wait between earlier : List Event) (r : Ret) (t : ℕ),
    d = wait ++ (between ++ ⟨.sys (.kill (-1) signal), r, t⟩ :: earlier) ∧ TimedOut secs wait ∧
      (∀ e ∈ between, e.call = .sys (.kill (-1) SIGCONT)) ∧
      (LooksInTime secs wait.reverse → t + secs * NANOS ≤ now)

theorem spared_of_killing {wait base : List Event}
    (onTime : OnTime start (wait ++ base).reverse stop) (waited : TimedOut GRACE_SECS wait)
    {leaders : List Int} (warned : Warned leaders base) :
    Spared SIGTERM GRACE_SECS stop (wait ++ base) := by
  cases warned with
  | @intro first hups r r' t t' t'' reaps left hangsUp =>
      refine ⟨wait, [⟨.sys (.kill (-1) SIGCONT), r', t''⟩], _, r, t', rfl, waited, ?_, ?_⟩
      · intro e member
        rw [List.mem_singleton.mp member]
      · intro inTime
        exact passed_since onTime waited inTime (List.mem_cons_of_mem _ List.mem_cons_self)

theorem spared_of_exhausted {d : List Event} (onTime : OnTime start d.reverse stop)
    {leaders : List Int} (exhausted : Exhausted leaders d) :
    Spared SIGKILL AFTER_KILL_SECS stop d := by
  cases exhausted with
  | @intro base wait killed waited =>
      cases killed with
      | @intro base' wait' r t warned waited' =>
          refine ⟨wait, [], wait' ++ base', r, t, rfl, waited, fun e member => ?_, fun inTime => ?_⟩
          · cases member
          · exact passed_since onTime waited inTime List.mem_cons_self

variable {candidates : List Spec} {kern : ℕ} {conf : Config calls (World ℕ) Unit}
  {action : Action} {d : List Event}

/-- The events since the request of a shutdown are on time. -/
theorem Since.onTime (since : Since action d conf.world.hist)
    (reach : Reaches clockKernel.semantics (boot candidates kern) conf) :
    OnTime kern d.reverse conf.world.kern := by
  obtain ⟨made, hist, onTime⟩ := onTime_everywhere reach
  obtain ⟨after, before, request, split, -, -, -, rfl⟩ := since.split
  refine onTime.sublist ?_
  have all : made = conf.world.hist.reverse := hist.symm
  rw [all, split]
  exact (List.filter_sublist.trans (List.sublist_append_left _ _)).reverse

end Shutdown

/-- **`wait_for_silence` by the clock.**  What it returns is what its last `waitpid` reported;
with a child left it has waited for all of `secs` seconds exactly if no look at the clock was
too early.  So there are `GRACE_SECS` seconds between SIGTERM and SIGKILL, and
`AFTER_KILL_SECS` seconds after SIGKILL, in every shutdown whose looks were not. -/
theorem full_wait_by_the_clock (signals : Signals) (secs : ℕ) (u64 : secs < 2 ^ 64)
    (w w' : World ℕ) (silent : Bool)
    (reach : Reaches clockKernel.semantics ⟨waitForSilence signals secs, w⟩ ⟨.ret silent, w'⟩) :
    (∃ made, w'.hist.reverse = w.hist.reverse ++ made ∧
      (FullWait secs silent made ↔ LooksInTime secs made) ∧
      (LooksInTime secs made → silent = false → w.kern + secs * NANOS ≤ w'.kern)) ∧
    ∀ candidates kern conf, Reaches clockKernel.semantics (boot candidates kern) conf →
      (∀ target, conf.prog.next = some (Call.sys (.kill target SIGKILL)) →
        ∃ action d, Since action d conf.world.hist ∧
          Spared SIGTERM GRACE_SECS conf.world.kern d) ∧
      ∀ command, conf.prog.next = some (Call.sys (.reboot command)) →
        command ≠ RB_ENABLE_CAD → command ≠ RB_DISABLE_CAD →
          ∃ action d r t, Since action (⟨.sys .sync, r, t⟩ :: d) conf.world.hist ∧
            (lastReap d = some .noChildrenLeft ∨
              Spared SIGKILL AFTER_KILL_SECS conf.world.kern d) := by
  constructor
  · have adds : Adds clockKernel _ _ := waitForSilence_adds signals secs
    obtain ⟨made, hist, now, t, rest, rfl, waited⟩ := adds.returned reach
    obtain ⟨made', hist', onTime⟩ := onTime_everywhere reach
    obtain rfl := List.append_cancel_left (hist'.symm.trans hist)
    have exact_ := full_iff u64 onTime waited
    refine ⟨_, hist, exact_, fun inTime left => ?_⟩
    have full := (exact_.mpr inTime).full left
    cases waited with
    | silent => cases left
    | @busy before now' t' early last late =>
        rw [elapsed, List.getLastD_concat] at full
        have last : (⟨.sys .clockGettime, now', t'⟩ : Event) ∈
            before ++ [⟨.sys .clockGettime, now', t'⟩] :=
          List.mem_append_right before List.mem_cons_self
        have begins : w.kern ≤ t := (onTime.between _ List.mem_cons_self).1
        have order : t ≤ t' := (List.pairwise_cons.mp onTime.sorted).1 _ last
        have ends : t' ≤ w'.kern := (onTime.between _ (List.mem_cons_of_mem _ last)).2
        dsimp only at full
        omega
  · intro candidates kern conf reach
    refine ⟨fun target next => ?_, fun command next notEnable notDisable => ?_⟩
    · obtain ⟨action, d, since, -, leaders, wait, base, rfl, waited, warned⟩ :=
        story_of_kill reach next
      exact ⟨action, _, since, spared_of_killing (since.onTime reach) waited warned⟩
    · obtain ⟨action, -, d, r, t, since, -, silent⟩ :=
        story_of_handOver reach next notEnable notDisable
      refine ⟨action, d, r, t, since, silent.imp_right fun exhausted => ?_⟩
      obtain ⟨leaders, exhausted⟩ := exhausted
      exact spared_of_exhausted
        ((since.onTime reach).sublist (List.sublist_cons_self _ _).reverse) exhausted

/-! ## A wait that ends too early -/

/-- The script in which a child never goes away and every poll takes its 100 ms. -/
def stuck : Script clockKernel where
  before w
    | .sys (.poll _ millis) => w.kern + millis.toNat * 10 ^ 6
    | _ => w.kern
  answer w
    | .waitpid => some ((⟨0, ⟨0, ""⟩⟩, 0), w.kern)
    | .poll _ _ => some (⟨0, ⟨0, ""⟩⟩, w.kern)
    | .clockGettime => if w.kern / NANOS < 2 ^ 63 then some (w.kern / NANOS, w.kern) else none
    | s => s.smooth.map fun r => (r, w.kern)
  clock now := now / NANOS
  others w c := by
    refine .single ?_
    show w.kern ≤ _
    split
    · exact Nat.le_add_right _ _
    · exact Nat.le_refl _
  answers {w s r kern} h := by
    cases s with
    | waitpid | poll =>
        cases h
        exact ⟨trivial, trivial, rfl⟩
    | clockGettime =>
        obtain ⟨early, rfl, rfl⟩ := by simpa using h
        exact ⟨early, rfl, rfl⟩
    | _ =>
        obtain ⟨promised, same⟩ := Syscall.smoothly h
        exact ⟨promised, trivial, same⟩
  reads := reads_second

/-- `wait_for_silence` at its beginning, `phase` nanoseconds into a second. -/
def waitsFrom (phase : ℕ) : Config calls (World ℕ) Bool :=
  ⟨waitForSilence ⟨4⟩ GRACE_SECS, ⟨phase, Mem.boot, []⟩⟩

/-- The end of that wait. -/
def givesUp (phase : ℕ) : Config calls (World ℕ) Bool :=
  stuck.driver.run (fun _ => false) 400 (waitsFrom phase)

theorem givesUp_reachable (phase : ℕ) :
    Reaches clockKernel.semantics (waitsFrom phase) (givesUp phase) :=
  stuck.driver.reaches _ _ _

/-- A wait that begins at 0.95 s ends with its look at 5.05 s, because the deadline is 5 in whole
seconds: from the call to the return, and from the first look to the last, it lasts 4.1 s. -/
theorem gives_up_too_early :
    (¬ ∀ (signals : Signals) (secs : ℕ) (w w' : World ℕ) (silent : Bool), secs < 2 ^ 64 →
      Reaches clockKernel.semantics ⟨waitForSilence signals secs, w⟩ ⟨.ret silent, w'⟩ →
        silent = false → w.kern + secs * NANOS ≤ w'.kern) ∧
    ¬ ∀ (signals : Signals) (secs : ℕ) (w w' : World ℕ) (silent : Bool), secs < 2 ^ 64 →
      Reaches clockKernel.semantics ⟨waitForSilence signals secs, w⟩ ⟨.ret silent, w'⟩ →
        ∃ made, w'.hist.reverse = w.hist.reverse ++ made ∧ FullWait secs silent made := by
  have returned : (givesUp 950000000).prog.result = some false := by decide +kernel
  have soon : ¬ 950000000 + GRACE_SECS * NANOS ≤ (givesUp 950000000).world.kern := by
    decide +kernel
  have short : ¬ GRACE_SECS * NANOS ≤ elapsed (givesUp 950000000).world.hist.reverse := by
    decide +kernel
  have reach := givesUp_reachable 950000000
  generalize givesUp 950000000 = c at returned soon short reach
  obtain ⟨prog, w'⟩ := c
  obtain rfl := Prog.result_eq returned
  constructor
  · intro always
    exact soon (always _ _ _ w' false (by decide) reach rfl)
  · intro always
    obtain ⟨made, hist, full⟩ := always _ _ _ w' false (by decide) reach
    have all : w'.hist.reverse = made := hist
    rw [all] at short
    exact short (full.full rfl)

/-- A wait that begins at the start of a second has its full time. -/
theorem full_wait_by_the_clock_on_the_second :
    ∃ w', Reaches clockKernel.semantics (waitsFrom 0) ⟨.ret false, w'⟩ ∧
      FullWait GRACE_SECS false w'.hist.reverse ∧ GRACE_SECS * NANOS ≤ w'.kern := by
  have returned : (givesUp 0).prog.result = some false := by decide +kernel
  have inTime : decide (LooksInTime GRACE_SECS (givesUp 0).world.hist.reverse) = true := by
    decide +kernel
  have reach := givesUp_reachable 0
  generalize givesUp 0 = c at returned inTime reach
  obtain ⟨prog, w'⟩ := c
  obtain rfl := Prog.result_eq returned
  obtain ⟨⟨made, hist, exact_, passed⟩, -⟩ :=
    full_wait_by_the_clock ⟨4⟩ GRACE_SECS (by decide) _ w' false reach
  have all : w'.hist.reverse = made := hist
  rw [all] at inTime
  have inTime := of_decide_eq_true inTime
  have full := passed inTime rfl
  refine ⟨w', reach, ?_, ?_⟩
  · rw [all]
    exact exact_.mpr inTime
  · exact Nat.le_trans (Nat.le_add_left _ _) full

end Zevory
