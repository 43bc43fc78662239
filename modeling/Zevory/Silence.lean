import Zevory.Brief
import Zevory.Clock

/-!
# Waiting for silence

Whether a shutdown comes to its end.  `wait_for_silence` looks at the clock between two
calls of `reap_all` only, and `reap_all` goes on for as long as there is a child to
reap.  In an execution along which the clock passes the deadline, it returns exactly if
children do not keep coming.  The README promises that pid 1 "waits up to five seconds".
-/

namespace Zevory

open Interaction Signal Power

/-! ## An execution, followed -/

/-- If the call is a `waitpid`, it hands over a child. -/
def Handed : (c : Call) → c.Res → Prop
  | .sys .waitpid, r => ∃ pid status, Sys.reapedOf r = .child pid status
  | _, _ => True

theorem handed_of_prompt {c : Call} (prompt : c.isPrompt) (r : c.Res) : Handed c r := by
  cases c with
  | sys s =>
      cases s with
      | waitpid => cases prompt
      | _ => trivial
  | mem => trivial

section Followed

variable {α : Type} {c₀ : Config calls (World ℕ) α}

/-- From some turn on every `waitpid` hands over a child, and there is always another `waitpid`. -/
def ChildrenKeepComing (e : Execution clockKernel.semantics c₀) : Prop :=
  (∃ n, ∀ m, n ≤ m → ∀ c r, e.did m = some ⟨c, r⟩ → Handed c r) ∧
    ∀ n, ∃ m r, n ≤ m ∧ e.did m = some ⟨.sys .waitpid, r⟩

/-- Some `waitpid` has reported that no child is left. -/
def FoundAlone (e : Execution clockKernel.semantics c₀) : Prop :=
  ∃ n r, e.did n = some ⟨.sys .waitpid, r⟩ ∧ Sys.reapedOf r = .noChildrenLeft

variable {e : Execution clockKernel.semantics c₀} {n m : ℕ} {w : World ℕ}

/-- What happens at a turn at which pid 1 reads the clock. -/
theorem turn_clock {f : ℕ → Pid1 α} (here : e.conf n = ⟨Sys.monotonicSecs.bind f, w⟩) :
    ∃ (now : ℕ) (w' : World ℕ), e.did n = some ⟨.sys .clockGettime, now⟩ ∧ now < 2 ^ 63 ∧
      e.conf (n + 1) = ⟨f now, w'⟩ := by
  obtain ⟨now, w', read, there⟩ := turn_sys (s := .clockGettime) rfl here
  exact ⟨now, w', read, did_promised read, there⟩

/-- One round of `reap_all`: the function returns, or a child was handed over and there is another
round. -/
theorem reapRound_goes {s : Option ℕ} {f : Harvest → Pid1 α}
    (here : e.conf n = ⟨.loop reapRound s f, w⟩) :
    (∃ m h w', n ≤ m ∧ e.conf m = ⟨f h, w'⟩ ∧ (h.childrenLeft = false → FoundAlone e)) ∨
      (∃ r, e.did (n + 1) = some ⟨.sys .waitpid, r⟩) ∧
        e.Leads Handed n fun m => n < m ∧ ∃ s' w', e.conf m = ⟨.loop reapRound s' f, w'⟩ := by
  obtain ⟨silent, w', asks⟩ := Execution.turn_loop here
  simp only [reapRound, Sys.reapOne, Prog.bind_eq, Prog.bind_assoc, Prog.pure_eq,
    Prog.ret_bind] at asks
  obtain ⟨r, w'', did, next⟩ := Execution.turn_call (S := calls) (o := Call.sys .waitpid)
    ⟨(⟨0, ⟨0, ""⟩⟩, 0)⟩ asks
  rw [Prog.ret_bind] at next
  cases reaped : Sys.reapedOf r with
  | stillRunning =>
      rw [reaped] at next
      exact .inl ⟨n + 2, ⟨s, true⟩, w'', by omega, next, fun left => Bool.noConfusion left⟩
  | noChildrenLeft =>
      rw [reaped] at next
      exact .inl ⟨n + 2, ⟨s, false⟩, w'', by omega, next, fun _ => ⟨n + 1, r, did, reaped⟩⟩
  | child pid status =>
      rw [reaped] at next
      refine .inr ⟨⟨r, did⟩, .next ?_ (.next ?_ ?_)⟩
      · intro c r' made
        cases silent.symm.trans made
      · intro c r' made
        cases did.symm.trans made
        exact ⟨pid, status, reaped⟩
      refine (Brief.leads (Q := fun next => ∃ s', next = .inl s') ?_ next).mono
        (fun c r prompt => handed_of_prompt prompt r) fun m later arrived => ?_
      · refine Halts.bind (brief_mem _) fun gone? _ => ?_
        split
        · exact Halts.bind emit_brief fun _ _ => Halts.ret ⟨_, rfl⟩
        · exact Halts.bind logDeparted_brief fun _ _ => Halts.ret ⟨_, rfl⟩
      · obtain ⟨_, w', ⟨s', rfl⟩, there⟩ := arrived
        exact ⟨by omega, s', w', there⟩

/-- Unless children keep coming, the loop of `reap_all` returns. -/
theorem reaping_over (calm : ¬ ChildrenKeepComing e) {s : Option ℕ} {f : Harvest → Pid1 α}
    (here : e.conf n = ⟨.loop reapRound s f, w⟩) :
    ∃ m h w', n ≤ m ∧ e.conf m = ⟨f h, w'⟩ ∧ (h.childrenLeft = false → FoundAlone e) := by
  by_contra never
  -- what is never over comes round again and again, each time with one more child
  have again : ∀ m, n ≤ m → (∃ s' w', e.conf m = ⟨.loop reapRound s' f, w'⟩) →
      e.Leads Handed m fun m' => m < m' ∧ ∃ s' w', e.conf m' = ⟨.loop reapRound s' f, w'⟩ := by
    rintro m later ⟨s', w', round⟩
    rcases reapRound_goes round with ⟨m', h, w'', later', ended, alone⟩ | ⟨-, goes⟩
    · exact absurd ⟨m', h, w'', Nat.le_trans later later', ended, alone⟩ never
    · exact goes
  refine calm ⟨⟨n, fun m later c r did => ?_⟩, fun k => ?_⟩
  · exact Execution.Leads.all ⟨s, w, here⟩ again later did
  · obtain ⟨m, later, ⟨late, s', w', round⟩, -⟩ :=
      Execution.Leads.again_and_again ⟨s, w, here⟩ again k
    rcases reapRound_goes round with ⟨m', h, w'', later', ended, alone⟩ | ⟨⟨r, did⟩, -⟩
    · exact absurd ⟨m', h, w'', Nat.le_trans later later', ended, alone⟩ never
    · exact ⟨m + 1, r, by omega, did⟩

/-- Unless children keep coming, `reap_all` returns; and if it reports that no children are left, a
`waitpid` has reported so. -/
theorem reapAll_over (calm : ¬ ChildrenKeepComing e) {f : Harvest → Pid1 α}
    (here : e.conf n = ⟨reapAll.bind f, w⟩) :
    ∃ m h w', n ≤ m ∧ e.conf m = ⟨f h, w'⟩ ∧ (h.childrenLeft = false → FoundAlone e) := by
  simp only [reapAll, Prog.bind_eq, Prog.pure_eq, Prog.iterate_bind, Prog.loop_bind,
    Prog.bind_assoc] at here
  obtain ⟨m, h, w', later, harvested, alone⟩ := reaping_over calm here
  obtain ⟨m', later', ⟨-, w'', -, there⟩, -⟩ := (brief_mem _).leads harvested
  exact ⟨m', h, w'', Nat.le_trans later later', there, alone⟩

/-! ## The deadline -/

theorem kern_interferes {w w' : World ℕ}
    (star : Relation.ReflTransGen clockKernel.semantics.interfere w w') : w.kern ≤ w'.kern := by
  induction star with
  | refl => exact Nat.le_refl _
  | tail _ step ih =>
      obtain ⟨kern, passes, rfl⟩ := step
      exact Nat.le_trans ih passes

theorem TakesTurn.kern {c c' : Config calls (World ℕ) α} {did : Option (Did calls)}
    (turn : TakesTurn clockKernel.semantics c did c') : c.world.kern ≤ c'.world.kern := by
  cases turn with
  | answer star answer =>
      refine Nat.le_trans (kern_interferes star) (Nat.le_of_eq ?_)
      exact (clock_stands answer).symm
  | unroll star => exact kern_interferes star
  | returned star => exact kern_interferes star
  | gone _ star => exact kern_interferes star

theorem kern_mono (later : n ≤ m) : (e.conf n).world.kern ≤ (e.conf m).world.kern := by
  induction m, later using Nat.le_induction with
  | base => exact Nat.le_refl _
  | succ m _ ih => exact Nat.le_trans ih (TakesTurn.kern (e.goes m))

/-- The clock reaches `deadline`, in seconds. -/
def Passes (e : Execution clockKernel.semantics c₀) (deadline : ℕ) : Prop :=
  ∃ n, deadline ≤ (e.conf n).world.kern / NANOS

/-- From some turn on every reading of a clock that reaches `deadline` is at least that. -/
theorem Passes.readings {deadline : ℕ} (passes : Passes e deadline) :
    ∃ n, ∀ m, n ≤ m → ∀ now : ℕ, e.did m = some ⟨.sys .clockGettime, now⟩ → deadline ≤ now := by
  obtain ⟨n, past⟩ := passes
  refine ⟨n, fun m later now did => Nat.le_trans past ?_⟩
  obtain ⟨v, star, answer⟩ := Execution.answered did
  have reads : now = v.kern / NANOS := by
    generalize (e.conf (m + 1)).world = w at answer
    cases answer with
    | sys answer => exact answer.2.1
  rw [reads]
  exact Nat.div_le_div_right (Nat.le_trans (kern_mono later) (kern_interferes star))

/-- One round of `wait_for_silence`: it returns, or the clock is read before the deadline and there
is another round. -/
theorem silenceRound_goes (calm : ¬ ChildrenKeepComing e) {signals : Signals} {deadline : ℕ}
    {f : Bool → Pid1 α}
    (here : e.conf n = ⟨.loop (fun () => silenceRound signals deadline) () f, w⟩) :
    (∃ m b w', n ≤ m ∧ e.conf m = ⟨f b, w'⟩ ∧ (b = true → FoundAlone e)) ∨
      ∃ m w', n < m ∧ e.conf m = ⟨.loop (fun () => silenceRound signals deadline) () f, w'⟩ ∧
        ∃ i now : ℕ, n ≤ i ∧ e.did i = some ⟨.sys .clockGettime, now⟩ ∧ now < deadline := by
  obtain ⟨-, w', start⟩ := Execution.turn_loop here
  generalize next : Prog.again (fun _ => silenceRound signals deadline) f = g at start
  simp only [silenceRound, Prog.bind_eq, Prog.bind_assoc, Prog.pure_eq] at start
  obtain ⟨m, h, w₁, later, harvested, alone⟩ := reapAll_over calm start
  subst next
  cases left : h.childrenLeft with
  | false =>
      simp only [left] at harvested
      exact .inl ⟨m, true, w₁, by omega, harvested, fun _ => alone left⟩
  | true =>
      simp only [left, Bool.not_true, Bool.false_eq_true, if_false, Prog.bind_assoc] at harvested
      obtain ⟨now, w₂, read, -, checks⟩ := turn_clock harvested
      by_cases late : now ≥ deadline
      · rw [if_pos late] at checks
        exact .inl ⟨m + 1, false, w₂, by omega, checks, fun left => Bool.noConfusion left⟩
      · rw [if_neg late] at checks
        have goes : e.Leads (fun c _ => c.isPrompt) (m + 1) fun m' => ∃ next w', next = .inl () ∧
            e.conf m' = ⟨Prog.again (fun () => silenceRound signals deadline) f next, w'⟩ := by
          refine Brief.leads ?_ checks
          refine Halts.bind wait_brief fun arrived _ => ?_
          split
          · split
            · exact Halts.bind emit_brief fun _ _ => Halts.ret rfl
            · exact Halts.ret rfl
          · exact Halts.ret rfl
        obtain ⟨m', later', ⟨_, w₃, rfl, round⟩, -⟩ := goes
        exact .inr ⟨m', w₃, by omega, round, m, now, by omega, read, by omega⟩

/-- Unless children keep coming, the loop of `wait_for_silence` returns when the clock reaches the
deadline. -/
theorem silence_over (calm : ¬ ChildrenKeepComing e) {signals : Signals} {deadline : ℕ}
    (passes : Passes e deadline) {f : Bool → Pid1 α}
    (here : e.conf n = ⟨.loop (fun () => silenceRound signals deadline) () f, w⟩) :
    ∃ m b w', n ≤ m ∧ e.conf m = ⟨f b, w'⟩ ∧ (b = true → FoundAlone e) := by
  obtain ⟨past, readings⟩ := passes.readings
  -- by induction on what is left until every reading shows the deadline
  induction left : past - n using Nat.strong_induction_on generalizing n w with
  | _ x ih =>
      rcases silenceRound_goes calm here with
        ended | ⟨m, w', later, round, i, now, after, read, early⟩
      · exact ended
      · have before : n < past := by
          by_contra reached
          have shown := readings i (by omega) now read
          omega
        obtain ⟨m', b, w'', later', ended⟩ := ih (past - m) (by omega) round rfl
        exact ⟨m', b, w'', by omega, ended⟩

/-- Unless children keep coming, `wait_for_silence` returns when the clock reaches the deadline that
follows from its first reading. -/
theorem waitForSilence_over (calm : ¬ ChildrenKeepComing e) {signals : Signals} {secs : ℕ}
    (small : secs ≤ 2 ^ 63)
    (passes : ∀ now : ℕ, e.did n = some ⟨.sys .clockGettime, now⟩ → Passes e (now + secs))
    {f : Bool → Pid1 α} (here : e.conf n = ⟨(waitForSilence signals secs).bind f, w⟩) :
    ∃ m b w', n ≤ m ∧ e.conf m = ⟨f b, w'⟩ ∧ (b = true → FoundAlone e) := by
  simp only [waitForSilence, Prog.bind_eq, Prog.bind_assoc] at here
  obtain ⟨now, w', read, early, waits⟩ := turn_clock here
  simp only [Prog.ret_bind, Sys.addU64, Nat.mod_eq_of_lt (show now + secs < 2 ^ 64 by omega),
    Prog.pure_eq, Prog.iterate_bind] at waits
  obtain ⟨m, b, w'', later, ended⟩ := silence_over calm (passes now read) waits
  exact ⟨m, b, w'', by omega, ended⟩

/-! ## The shutdown -/

/-- SIGKILL is sent to everyone at some turn. -/
def SentKill (e : Execution clockKernel.semantics c₀) : Prop :=
  ∃ n r, e.did n = some ⟨.sys (.kill (-1) SIGKILL), r⟩

/-- After every reading, the clock reaches a time `GRACE_SECS` seconds later. -/
def ClockGoesOn (e : Execution clockKernel.semantics c₀) : Prop :=
  ∀ n (now : ℕ), e.did n = some ⟨.sys .clockGettime, now⟩ → Passes e (now + GRACE_SECS)

theorem Passes.sooner {deadline deadline' : ℕ} (passes : Passes e deadline)
    (sooner : deadline' ≤ deadline) : Passes e deadline' := by
  obtain ⟨n, past⟩ := passes
  exact ⟨n, Nat.le_trans sooner past⟩

theorem stopEverything_over (calm : ¬ ChildrenKeepComing e) (goesOn : ClockGoesOn e)
    {signals : Signals} {f : Unit → Pid1 α}
    (here : e.conf n = ⟨(stopEverything signals).bind f, w⟩) :
    ∃ m w', n ≤ m ∧ e.conf m = ⟨f (), w'⟩ ∧ (FoundAlone e ∨ SentKill e) := by
  simp only [stopEverything, Prog.bind_eq, Prog.bind_assoc, Prog.pure_eq] at here
  obtain ⟨m₁, h, w₁, later₁, reaped, alone⟩ := reapAll_over calm here
  cases left : h.childrenLeft with
  | false =>
      simp only [left] at reaped
      exact ⟨m₁, w₁, later₁, reaped, .inl (alone left)⟩
  | true =>
      simp only [left, Bool.not_true, Bool.false_eq_true, if_false, Prog.bind_assoc] at reaped
      obtain ⟨m₂, later₂, ⟨-, w₂, -, told⟩, -⟩ := toConsole_brief.leads reaped
      obtain ⟨m₃, later₃, ⟨leaders, w₃, -, listed⟩, -⟩ := (brief_mem _).leads told
      obtain ⟨m₄, later₄, ⟨-, w₄, -, hungUp⟩, -⟩ := hangUp_brief.leads listed
      obtain ⟨m₅, later₅, ⟨-, w₅, -, terminated⟩, -⟩ := signalEveryone_brief.leads hungUp
      obtain ⟨m₆, later₆, ⟨-, w₆, -, waits⟩, -⟩ := signalEveryone_brief.leads terminated
      obtain ⟨m₇, silence, w₇, later₇, waited, alone⟩ := waitForSilence_over calm (by decide)
        (fun now read => goesOn _ now read) waits
      cases silence with
      | true =>
          exact ⟨m₇, w₇, by omega, waited, .inl (alone rfl)⟩
      | false =>
          simp only [Bool.false_eq_true, if_false, Prog.bind_assoc] at waited
          obtain ⟨m₈, later₈, ⟨-, w₈, -, warned⟩, -⟩ := emit_brief.leads waited
          obtain ⟨m₉, later₉, ⟨-, w₉, -, kills⟩, -⟩ := toConsole_brief.leads warned
          simp only [Sys.signalEveryone, Prog.bind_eq, Prog.pure_eq, Prog.bind_assoc,
            Prog.ret_bind] at kills
          obtain ⟨r, w₁₀, killed, waits⟩ := turn_sys rfl kills
          obtain ⟨m₁₁, silence, w₁₁, later₁₁, waited, -⟩ := waitForSilence_over calm (by decide)
            (fun now read => (goesOn _ now read).sooner (Nat.add_le_add_left (by decide) now)) waits
          cases silence with
          | true => exact ⟨m₁₁, w₁₁, by omega, waited, .inr ⟨m₉, r, killed⟩⟩
          | false =>
              obtain ⟨m₁₂, later₁₂, ⟨⟨⟩, w₁₂, -, regardless⟩, -⟩ := emit_brief.leads waited
              exact ⟨m₁₂, w₁₂, by omega, regardless, .inr ⟨m₉, r, killed⟩⟩

end Followed

/-- The shutdown comes to its end: there is a `sync` and then the hand-over for `action`, and
SIGKILL was sent unless a `waitpid` has reported that no child is left. -/
structure GoesDown (action : Action) {c₀ : Config calls (World ℕ) IoError}
    (e : Execution clockKernel.semantics c₀) : Prop where
  returns : e.Returns
  handedOver : ∃ i j r r', i < j ∧ e.did i = some ⟨.sys .sync, r⟩ ∧
    e.did j = some ⟨.sys (.reboot action.kernelCommand), r'⟩
  killed : FoundAlone e ∨ SentKill e

theorem execute_over {action : Action} {signals : Signals} {w : World ℕ}
    {e : Execution clockKernel.semantics ⟨execute action signals, w⟩}
    (calm : ¬ ChildrenKeepComing e) (goesOn : ClockGoesOn e) : GoesDown action e := by
  have here := e.start
  simp only [execute, Prog.bind_eq] at here
  obtain ⟨m₁, later₁, ⟨-, w₁, -, told⟩, -⟩ := toConsole_brief.leads here
  obtain ⟨m₂, later₂, ⟨-, w₂, -, logged⟩, -⟩ := emit_brief.leads told
  obtain ⟨m₃, w₃, later₃, stopped, killed⟩ := stopEverything_over calm goesOn logged
  simp only [Sys.flushFilesystems, Sys.handOverToKernel, Prog.bind_eq, Prog.pure_eq,
    Prog.bind_assoc, Prog.ret_bind] at stopped
  obtain ⟨r, w₄, flushed, asks⟩ := turn_sys rfl stopped
  obtain ⟨m₅, later₅, ⟨-, w₅, -, reboots⟩, -⟩ := emit_brief.leads asks
  obtain ⟨r', w₆, handedOver, ended⟩ := turn_sys rfl reboots
  exact ⟨⟨_, _, _, ended⟩, ⟨m₃, m₅, r, r', by omega, flushed, handedOver⟩, killed⟩

/-- A function that returns is not handed children for ever. -/
theorem calm_of_returns {α : Type} {c₀ : Config calls (World ℕ) α}
    {e : Execution clockKernel.semantics c₀} (returns : e.Returns) : ¬ ChildrenKeepComing e := by
  obtain ⟨n, a, w, ended⟩ := returns
  rintro ⟨-, more⟩
  obtain ⟨m, r, later, did⟩ := more n
  rw [Execution.did_returned ended later] at did
  cases did

/-- **A shutdown comes to its end, unless children keep coming.**  Along every execution of
`wait_for_silence` in which the clock comes to the deadline, it returns exactly if it is not
the case that, from some point on, every `waitpid` hands over a child and there is always one
more; and so for `execute`, which then flushes the file systems and hands the machine over,
after SIGKILL if children are left. -/
theorem shutdown_ends_unless_children_keep_coming (signals : Signals) (w : World ℕ) :
    (∀ (secs : ℕ) (e : Execution clockKernel.semantics ⟨waitForSilence signals secs, w⟩),
      secs ≤ 2 ^ 63 →
      (∀ now : ℕ, e.did 0 = some ⟨.sys .clockGettime, now⟩ → Passes e (now + secs)) →
      (e.Returns ↔ ¬ ChildrenKeepComing e)) ∧
    ∀ (action : Action) (e : Execution clockKernel.semantics ⟨execute action signals, w⟩),
      ClockGoesOn e → (GoesDown action e ↔ ¬ ChildrenKeepComing e) := by
  constructor
  · intro secs e small passes
    refine ⟨calm_of_returns, fun calm => ?_⟩
    have here : e.conf 0 = ⟨(waitForSilence signals secs).bind .ret, w⟩ := by
      rw [Prog.bind_ret]
      exact e.start
    obtain ⟨m, silence, w', -, ended, -⟩ := waitForSilence_over calm small passes here
    exact ⟨m, silence, w', ended⟩
  · intro action e goesOn
    exact ⟨fun down => calm_of_returns down.returns, fun calm => execute_over calm goesOn⟩

/-! ## Orphans without end -/

/-- The script in which every `waitpid` gives `r` and takes the given time. -/
def everyWaitpid (r : Ret × Status) (passes : ℕ) : Script clockKernel where
  before w
    | .sys .waitpid => w.kern + passes
    | _ => w.kern
  answer w
    | .waitpid => some (r, w.kern)
    | .clockGettime => if w.kern / NANOS < 2 ^ 63 then some (w.kern / NANOS, w.kern) else none
    | s => s.smooth.map fun r => (r, w.kern)
  clock now := now / NANOS
  others w c := by
    refine .single ?_
    show w.kern ≤ _
    split
    · exact Nat.le_add_right _ _
    · exact Nat.le_refl _
  answers {w s r kern} h := by
    cases s with
    | waitpid =>
        cases h
        exact ⟨trivial, trivial, rfl⟩
    | clockGettime =>
        obtain ⟨early, rfl, rfl⟩ := by simpa using h
        exact ⟨early, rfl, rfl⟩
    | _ =>
        obtain ⟨promised, same⟩ := Syscall.smoothly h
        exact ⟨promised, trivial, same⟩
  reads := reads_second

/-- The memory of a pid 1 that has logged before and has no shell. -/
def Mem.idle : Mem := { Mem.boot with kmsg := 3 }

/-- The script in which every `waitpid` hands over an orphan after a second. -/
def orphans : Script clockKernel := everyWaitpid (⟨7, ⟨0, ""⟩⟩, 0) NANOS

/-- Pid 1 is in `reap_all` at time `t`. -/
def ReapingAt (t : ℕ) (c : Config calls (World ℕ) Bool) : Prop :=
  ∃ s f h, c = ⟨.loop reapRound s f, ⟨t, Mem.idle, h⟩⟩

theorem orphan_round {t : ℕ} {c : Config calls (World ℕ) Bool} (reaping : ReapingAt t c) :
    ∃ did d, TakesTurn clockKernel.semantics c did d ∧
      ∃ c', Turns clockKernel.semantics d c' ∧ ReapingAt (t + NANOS) c' := by
  obtain ⟨s, f, h, rfl⟩ := reaping
  refine ⟨none, _, .unroll .refl, _, orphans.driver.turns (fun _ => false) 6 _, s, f, ?_⟩
  exact ⟨_, rfl⟩

theorem orphans_reach {t : ℕ} {c : Config calls (World ℕ) Bool} (reaping : ReapingAt t c) (k : ℕ) :
    ∃ c', Turns clockKernel.semantics c c' ∧ ReapingAt (t + k * NANOS) c' := by
  induction k with
  | zero => exact ⟨c, .refl, by rw [Nat.zero_mul, Nat.add_zero]; exact reaping⟩
  | succ k ih =>
      obtain ⟨c', turns, there⟩ := ih
      obtain ⟨did, d, turn, c'', more, later⟩ := orphan_round there
      refine ⟨c'', (turns.tail ⟨did, turn⟩).trans more, ?_⟩
      rw [Nat.succ_mul, ← Nat.add_assoc]
      exact later

/-- Pid 1 at the beginning of `wait_for_silence`. -/
def aboutToWait : Config calls (World ℕ) Bool :=
  ⟨waitForSilence ⟨4⟩ GRACE_SECS, ⟨0, Mem.idle, []⟩⟩

/-- Pid 1 after the first reading of the clock. -/
def waiting : Config calls (World ℕ) Bool :=
  ⟨Prog.iterate (fun () => silenceRound ⟨4⟩ GRACE_SECS) (),
    ⟨0, Mem.idle, [⟨.sys .clockGettime, (0 : ℕ), 0⟩]⟩⟩

theorem aboutToWait_reads :
    TakesTurn clockKernel.semantics aboutToWait (some ⟨.sys .clockGettime, (0 : ℕ)⟩) waiting :=
  .answer .refl (Kernel.Answers.sys ⟨show (0 : ℕ) < 2 ^ 63 by decide, rfl, rfl⟩)

/-- In an execution that goes on from `waiting` the clock reaches the deadline, if it has the right
time at some turn. -/
theorem passes_cons {e : Execution clockKernel.semantics waiting} {n : ℕ}
    (late : (e.conf n).world.kern = GRACE_SECS * NANOS) (now : ℕ)
    (read : (e.cons aboutToWait_reads).did 0 = some ⟨.sys .clockGettime, now⟩) :
    Passes (e.cons aboutToWait_reads) (now + GRACE_SECS) := by
  cases read
  refine ⟨n + 1, ?_⟩
  show 0 + GRACE_SECS ≤ (e.conf n).world.kern / NANOS
  rw [late]
  decide

/-- If an orphan dies every second, `wait_for_silence` never returns, although the clock reaches the
deadline. -/
theorem held_up_by_orphans :
    ∃ e : Execution clockKernel.semantics aboutToWait,
      (∀ now : ℕ, e.did 0 = some ⟨.sys .clockGettime, now⟩ → Passes e (now + GRACE_SECS)) ∧
        ¬ e.Returns := by
  have start : ∃ d, TakesTurn clockKernel.semantics waiting none d ∧ ReapingAt 0 d :=
    ⟨_, .unroll .refl, none, _, _, rfl⟩
  obtain ⟨d, turn, reaping⟩ := start
  obtain ⟨c', turns, late⟩ := orphans_reach reaping GRACE_SECS
  have round : ∀ c, (∃ t, ReapingAt t c) → ∃ did d, TakesTurn clockKernel.semantics c did d ∧
      ∃ c', Turns clockKernel.semantics d c' ∧ ∃ t, ReapingAt t c' := by
    rintro c ⟨t, reaping⟩
    obtain ⟨did, d, turn, c', turns, reaping'⟩ := orphan_round reaping
    exact ⟨did, d, turn, c', turns, _, reaping'⟩
  have notOver : ∀ (c : Config calls (World ℕ) Bool) a w,
      (∃ t, ReapingAt t c) → c ≠ ⟨.ret a, w⟩ := by
    rintro c a w ⟨t, s, f, h, rfl⟩ ended
    cases ended
  obtain ⟨e, ⟨n, there⟩, endless⟩ :=
    Execution.exists_endless round notOver (.head ⟨_, turn⟩ turns) ⟨_, late⟩
  refine ⟨e.cons aboutToWait_reads, passes_cons (n := n) ?_, fun returns => ?_⟩
  · obtain ⟨s, f, h, rfl⟩ := late
    rw [there]
    exact Nat.zero_add _
  · exact endless (Execution.returns_of_cons returns)

theorem shutdown_held_up :
    ¬ ∀ e : Execution clockKernel.semantics aboutToWait,
      (∀ now : ℕ, e.did 0 = some ⟨.sys .clockGettime, now⟩ → Passes e (now + GRACE_SECS)) →
        e.Returns := by
  intro always
  obtain ⟨e, passes, endless⟩ := held_up_by_orphans
  exact endless (always e passes)

/-- The script in which every `waitpid` reports that no child is left. -/
def alone (passes : ℕ) : Script clockKernel :=
  everyWaitpid (⟨-1, ⟨ECHILD, "No child process"⟩⟩, 0) passes

/-- If no child is left, `wait_for_silence` returns, and the clock reaches the deadline. -/
theorem silent_at_once :
    ∃ e : Execution clockKernel.semantics aboutToWait,
      (∀ now : ℕ, e.did 0 = some ⟨.sys .clockGettime, now⟩ → Passes e (now + GRACE_SECS)) ∧
        e.Returns := by
  have ended : ∃ h, (alone (GRACE_SECS * NANOS)).driver.run (fun _ => false) 4 waiting =
      ⟨.ret true, ⟨GRACE_SECS * NANOS, Mem.idle, h⟩⟩ := ⟨_, rfl⟩
  obtain ⟨h, ended⟩ := ended
  have turns := (alone (GRACE_SECS * NANOS)).driver.turns (fun _ => false) 4 waiting
  rw [ended] at turns
  obtain ⟨e, n, same⟩ := Execution.exists_after turns (Execution.rest _ _)
  have rests : e.conf (n + 0) = ⟨.ret true, ⟨GRACE_SECS * NANOS, Mem.idle, h⟩⟩ := same 0
  refine ⟨e.cons aboutToWait_reads, passes_cons (n := n) ?_, n + 1, true, _, rests⟩
  rw [← Nat.add_zero n, rests]

/-- Pid 1 at the beginning of `execute`, asked to switch the machine off. -/
def aboutToGoDown : Config calls (World ℕ) IoError :=
  ⟨execute .powerOff ⟨4⟩, ⟨0, Mem.idle, []⟩⟩

/-- If no child is left, `execute` hands the machine over, and the clock goes on. -/
theorem down_at_once :
    ∃ e : Execution clockKernel.semantics aboutToGoDown, ClockGoesOn e ∧ e.Returns := by
  have ended : ∃ a h, (alone ((2 ^ 63 + GRACE_SECS) * NANOS)).driver.run (fun _ => false) 16
      aboutToGoDown = ⟨.ret a, ⟨(2 ^ 63 + GRACE_SECS) * NANOS, Mem.idle, h⟩⟩ := ⟨_, _, rfl⟩
  obtain ⟨a, h, ended⟩ := ended
  have turns := (alone ((2 ^ 63 + GRACE_SECS) * NANOS)).driver.turns (fun _ => false) 16
    aboutToGoDown
  rw [ended] at turns
  obtain ⟨e, n, same⟩ := Execution.exists_after turns (Execution.rest _ _)
  have rests : e.conf (n + 0) = ⟨.ret a, ⟨(2 ^ 63 + GRACE_SECS) * NANOS, Mem.idle, h⟩⟩ := same 0
  refine ⟨e, fun m now read => ?_, n, a, _, rests⟩
  have early : now < 2 ^ 63 := did_promised read
  have late : Passes e (2 ^ 63 + GRACE_SECS) := by
    refine ⟨n + 0, ?_⟩
    rw [rests]
    show 2 ^ 63 + GRACE_SECS ≤ (2 ^ 63 + GRACE_SECS) * NANOS / NANOS
    decide
  exact late.sooner (by omega)

theorem shutdown_ends_when_alone :
    (∃ e : Execution clockKernel.semantics aboutToWait, e.Returns ∧ ¬ ChildrenKeepComing e) ∧
      (∃ e : Execution clockKernel.semantics aboutToWait, ¬ e.Returns ∧ ChildrenKeepComing e) ∧
      ∃ e : Execution clockKernel.semantics aboutToGoDown,
        GoesDown .powerOff e ∧ ¬ ChildrenKeepComing e := by
  have holds := shutdown_ends_unless_children_keep_coming ⟨4⟩ ⟨0, Mem.idle, []⟩
  refine ⟨?_, ?_, ?_⟩
  · obtain ⟨e, passes, returns⟩ := silent_at_once
    exact ⟨e, returns, (holds.1 _ e (by decide) passes).mp returns⟩
  · obtain ⟨e, passes, endless⟩ := held_up_by_orphans
    refine ⟨e, endless, ?_⟩
    by_contra calm
    exact endless ((holds.1 _ e (by decide) passes).mpr calm)
  · obtain ⟨e, goesOn, returns⟩ := down_at_once
    have calm := calm_of_returns returns
    exact ⟨e, (holds.2 _ e goesOn).mpr calm, calm⟩

end Zevory
