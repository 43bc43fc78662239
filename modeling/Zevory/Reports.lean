import Zevory.Course
import Zevory.Delivery
import Zevory.Harvest
import Zevory.Interaction.Sequel
import Zevory.Script

/-!
# What is logged about the end of a child

Whenever `waitpid` hands over a child, wherever in its life pid 1 is, it records the exit and
logs one line about it before it does anything else.  That is a `Sequel`, and all of `main`
heeds it.  What becomes of the line is known from the log alone (`Delivered`), for a world
that keeps no more than the calls; every other kernel is mapped to that one.
-/

namespace Zevory

open Interaction Signal Power Log

/-! ## How a child ends -/

/-- How a process ends: with an exit code, or by a signal. -/
inductive Ending
  | exited (code : BitVec 8)
  | killed (signal : ℕ) (core : Bool) (real : 0 < signal ∧ signal < 127)

namespace Ending

/-- The wait status in which the kernel encodes this. -/
def status : Ending → Status
  | .exited code => code.setWidth 32 <<< 8
  | .killed signal core _ => BitVec.ofNat 32 signal ||| if core then 0x80#32 else 0#32

def state : Ending → State
  | .exited code => .exited code.toNat
  | .killed signal _ _ => .killed signal

theorem stateFrom_exited :
    ∀ code : BitVec 8, stateFrom (code.setWidth 32 <<< 8) = .exited code.toNat := by
  decide +kernel

theorem stateFrom_killed : ∀ signal < 127, 0 < signal → ∀ core : Bool,
    stateFrom (BitVec.ofNat 32 signal ||| if core then 0x80#32 else 0#32) = .killed signal := by
  decide +kernel

/-- What `state_from` decodes from the status is how the process ended. -/
theorem stateFrom_status (ending : Ending) : stateFrom ending.status = ending.state := by
  cases ending with
  | exited code => exact stateFrom_exited code
  | killed signal core real => exact stateFrom_killed signal real.2 real.1 core

end Ending

/-- The line that is logged about a child: the level and the text, by what the table knows of it. -/
def Table.report (t : Table) (pid : Int) (ending : Ending) (now : ℕ) : Level × String :=
  match Keyed.first? Entry.pid pid t.live with
  | none => (.info, s!"reaped orphan [{pid}]")
  | some shell =>
      let ranFor := now - shell.startedAt
      match ending with
      | .exited code =>
          (.info, s!"{shell.name} [{pid}] exited with {code.toNat} after {ranFor}s")
      | .killed signal _ _ =>
          (.warn, s!"{shell.name} [{pid}] killed by signal {signal} after {ranFor}s")

/-! ## The line in the program -/

/-- What `reap_all` logs about a child, by what `record_exit` has returned. -/
def tell (pid : Int) : Option Departed → Pid1 Unit
  | none => Log.info s!"reaped orphan [{pid}]"
  | some gone => logDeparted gone

/-- What `reap_all` does with a child: it records the exit and logs a line. -/
def announce (pid : Int) (status : Status) : Pid1 (Option Departed) :=
  (mem (.recordExit pid status)).bind fun gone? => (tell pid gone?).bind fun _ => .ret gone?

/-- The log line about a child is the one that `Table.report` gives for its table entry and its end.
-/
theorem tell_report (t : Table) (pid : Int) (ending : Ending) (now : ℕ) :
    tell pid (t.recordExit pid ending.status now).1 =
      Log.emit (t.report pid ending now).1 (t.report pid ending now).2 := by
  rw [(t.recordExit_live pid ending.status now).1, Table.report]
  cases found : Keyed.first? Entry.pid pid t.live with
  | none => rfl
  | some shell =>
      have ofPid : shell.pid = pid := Keyed.key_of_first? found
      simp only [Option.map_some, tell, logDeparted, Entry.departed, ending.stateFrom_status, ofPid]
      cases ending <;> rfl

/-- When `waitpid` hands over a child, the program goes on with `announce`. -/
def announces : Sequel calls
  | .sys .waitpid, r, α, p => ∀ pid status, Sys.reapedOf r = .child pid status →
      ∃ f : Option Departed → Pid1 α, p = (announce pid status).bind f
  | _, _, _, _ => True

theorem announces_open : announces.Open := by
  intro o r α β p f allowed
  cases o with
  | mem => trivial
  | sys s =>
      cases s with
      | waitpid =>
          intro pid status reaped
          obtain ⟨g, rfl⟩ := allowed pid status reaped
          exact ⟨fun gone? => (g gone?).bind f, Prog.bind_assoc _ _ _⟩
      | _ => trivial

/-- `p` announces every child that is handed over to it. -/
abbrev Reports {α : Type} (p : Pid1 α) (Q : α → Prop) : Prop := Heeds announces Promised p Q

theorem Reports.bind {α β : Type} {p : Pid1 α} {f : α → Pid1 β} {T : α → Prop} {Q : β → Prop}
    (first : Reports p T) (rest : ∀ a, T a → Reports (f a) Q) : Reports (p.bind f) Q :=
  Heeds.bind announces_open first rest

theorem announces_other {c : Call} (other : c ≠ .sys .waitpid) {r : c.Res} {α : Type} {p : Pid1 α} :
    announces c r α p := by
  cases c with
  | mem => trivial
  | sys s =>
      cases s with
      | waitpid => exact absurd rfl other
      | _ => trivial

theorem Brief.reports {α : Type} {p : Pid1 α} {Q : α → Prop} (brief : Brief p Q) : Reports p Q := by
  refine Halts.heeds (fun c prompt r α p => announces_other ?_) brief
  rintro rfl
  cases prompt

/-- `reap_all` announces every child that is handed over to it. -/
theorem reapAll_reports : Reports reapAll fun _ => True := by
  simp only [reapAll, Prog.bind_eq, Prog.pure_eq]
  refine Reports.bind (T := fun _ => True) (Heeds.iterate fun shortestLife => ?_)
    fun h _ => Reports.bind (brief_mem _).reports fun _ _ => trivial
  simp only [reapRound, Sys.reapOne, Prog.bind_eq, Prog.bind_assoc, Prog.pure_eq, Prog.ret_bind]
  refine fun r _ => ⟨fun pid status reaped => ?_, ?_⟩
  · refine ⟨fun gone? => .ret (.inl (credited shortestLife gone?)), ?_⟩
    simp only [Prog.ret_bind, reaped, announce, Prog.bind_assoc]
    congr 1
    funext gone?
    cases gone? <;> rfl
  · simp only [Prog.ret_bind]
    split
    · exact trivial
    · exact trivial
    · refine Reports.bind (brief_mem _).reports fun gone? _ => ?_
      split
      · exact Reports.bind emit_brief.reports fun _ _ => trivial
      · exact Reports.bind logDeparted_brief.reports fun _ _ => trivial

/-! ## The whole of `main` -/

theorem pauseForever_reports {α : Type} {Q : α → Prop} : Reports (pauseForever : Pid1 α) Q :=
  fun _ _ _ => ⟨trivial, trivial⟩

theorem park_reports {α : Type} {why : String} {Q : α → Prop} : Reports (park why : Pid1 α) Q := by
  simp only [park, Sys.enableCtrlAltDel, Prog.bind_eq, Prog.bind_assoc, Prog.pure_eq, Prog.ret_bind]
  refine Reports.bind (brief_sys rfl).reports fun _ _ => ?_
  refine Reports.bind emit_brief.reports fun _ _ => ?_
  exact Reports.bind toConsole_brief.reports fun _ _ => pauseForever_reports

/-- After a system call that never returns nothing is left to show. -/
theorem reports_never {α : Type} {s : Syscall} (never : IsEmpty s.Res) {f : s.Res → Pid1 α}
    {Q : α → Prop} : Reports ((sys s).bind f) Q :=
  fun r _ => never.elim r

theorem rescueShell_reports : Reports rescueShell fun _ => True := by
  simp only [rescueShell, Prog.bind_eq, Prog.pure_eq]
  refine Reports.bind (brief_mem _).reports fun spec? _ => ?_
  split
  · exact trivial
  · exact reports_never (s := .panic _) inferInstance

theorem childMain_reports {α : Type} {spec : Spec} {Q : α → Prop} :
    Reports (Proc.childMain spec : Pid1 α) Q := by
  simp only [Proc.childMain, Sys.unblockAllSignals, Sys.newSession, Sys.setCtty, Prog.bind_eq,
    Prog.bind_assoc, Prog.pure_eq, Prog.ret_bind]
  refine Reports.bind (brief_sys rfl).reports fun _ _ => ?_
  have execs : Reports (α := α) ((Sys.exec spec.path spec.argv).bind fun failure =>
      (Log.error s!"could not exec {spec.path}: {failure}").bind fun _ => Sys.exitChild 127) Q := by
    refine Reports.bind exec_brief.reports fun failure _ => ?_
    exact Reports.bind emit_brief.reports fun _ _ =>
      reports_never (s := .exitChild 127) inferInstance
  split
  · exact Reports.bind (brief_sys rfl).reports fun _ _ =>
      Reports.bind (brief_sys rfl).reports fun _ _ => execs
  · exact execs

theorem startShell_reports : Reports startShell fun _ => True := by
  simp only [startShell, Table.spawn, Proc.spawn, Prog.bind_eq, Prog.pure_eq]
  refine Reports.bind rescueShell_reports fun spec _ => ?_
  refine Reports.bind (T := fun _ => True) ?_ fun spawned _ => ?_
  · refine Reports.bind (T := fun _ => True) ?_ fun spawned _ => ?_
    · refine Reports.bind fork_brief.reports fun forked _ => ?_
      split
      · exact trivial
      · exact trivial
      · exact childMain_reports
    · split
      · exact trivial
      · exact Reports.bind (brief_mem _).reports fun _ _ => trivial
  · split
    · exact trivial
    · exact Reports.bind rescueShell_reports fun _ _ => park_reports

theorem giveUpOrFallBack_reports : Reports giveUpOrFallBack fun _ => True := by
  simp only [giveUpOrFallBack, rescueFailed, Prog.bind_eq, Prog.pure_eq]
  refine Reports.bind rescueShell_reports fun dying _ => ?_
  refine Reports.bind (T := fun _ => True) ?_ fun verdict _ => ?_
  · refine Reports.bind (brief_mem _).reports fun verdict? _ => ?_
    split
    · exact trivial
    · exact reports_never (s := .panic _) inferInstance
  · split
    · exact trivial
    · exact emit_brief.reports
    · exact park_reports

theorem heed_reports {signal : Int} : Reports (heed signal) fun _ => True := by
  unfold heed
  cases classify signal with
  | childChanged =>
      simp only [Prog.bind_eq, Prog.pure_eq]
      refine Reports.bind reapAll_reports fun h _ => ?_
      refine Reports.bind (T := fun _ => True) ?_ fun _ _ => trivial
      cases h.shortestLife with
      | none => exact trivial
      | some ranFor =>
          simp only [account, Prog.bind_eq]
          split
          · exact (brief_mem _).reports
          · refine Reports.bind monotonicSecs_brief.reports fun now _ => ?_
            refine Reports.bind (T := fun _ => True) trivial fun respawnAt _ => ?_
            exact Reports.bind (brief_mem _).reports fun _ _ => giveUpOrFallBack_reports
  | shutdown => exact trivial
  | reload | unknown =>
      simp only [Prog.bind_eq, Prog.pure_eq]
      exact Reports.bind emit_brief.reports fun _ _ => trivial

theorem supervise_reports {signals : Signals} : Reports (supervise signals) fun _ => True := by
  simp only [supervise, Prog.bind_eq]
  refine Reports.bind (brief_mem _).reports fun _ _ => Heeds.iterate fun _ => ?_
  simp only [superviseRound, startIfDue, Prog.bind_eq, Prog.pure_eq]
  refine Reports.bind (brief_mem _).reports fun running _ => ?_
  refine Reports.bind (T := fun _ => True) ?_ fun _ _ => ?_
  · split
    · refine Reports.bind monotonicSecs_brief.reports fun now _ => ?_
      refine Reports.bind (brief_mem _).reports fun respawnAt _ => ?_
      split
      · exact startShell_reports
      · exact trivial
    · exact trivial
  · refine Reports.bind wait_brief.reports fun arrived _ => ?_
    split
    · refine heed_reports.mono fun next _ => ?_
      cases next <;> trivial
    · exact trivial
    · split
      · exact trivial
      · exact park_reports

theorem waitForSilence_reports {signals : Signals} {secs : ℕ} :
    Reports (waitForSilence signals secs) fun _ => True := by
  simp only [waitForSilence, Prog.bind_eq]
  refine Reports.bind monotonicSecs_brief.reports fun now _ => ?_
  refine Reports.bind (T := fun _ => True) trivial fun deadline _ =>
    Heeds.iterate fun _ => ?_
  simp only [silenceRound, Prog.bind_eq, Prog.pure_eq]
  refine Reports.bind reapAll_reports fun h _ => ?_
  split
  · exact trivial
  · refine Reports.bind monotonicSecs_brief.reports fun now _ => ?_
    split
    · exact trivial
    · refine Reports.bind wait_brief.reports fun arrived _ => ?_
      split
      · split
        · exact Reports.bind emit_brief.reports fun _ _ => trivial
        · exact trivial
      · exact trivial

theorem stopEverything_reports {signals : Signals} :
    Reports (stopEverything signals) fun _ => True := by
  simp only [stopEverything, Prog.bind_eq, Prog.pure_eq]
  refine Reports.bind reapAll_reports fun h _ => ?_
  split
  · exact trivial
  · refine Reports.bind toConsole_brief.reports fun _ _ => ?_
    refine Reports.bind (brief_mem _).reports fun leaders _ => ?_
    refine Reports.bind hangUp_brief.reports fun _ _ => ?_
    refine Reports.bind signalEveryone_brief.reports fun _ _ => ?_
    refine Reports.bind signalEveryone_brief.reports fun _ _ => ?_
    refine Reports.bind waitForSilence_reports fun silence _ => ?_
    split
    · exact trivial
    · refine Reports.bind emit_brief.reports fun _ _ => ?_
      refine Reports.bind toConsole_brief.reports fun _ _ => ?_
      refine Reports.bind signalEveryone_brief.reports fun _ _ => ?_
      refine Reports.bind waitForSilence_reports fun silence _ => ?_
      split
      · exact trivial
      · exact emit_brief.reports

theorem run_reports {candidates : List Spec} {signals : Signals} {Q : Unit → Prop} :
    Reports (run candidates signals) Q := by
  simp only [run, newRescue, execute, Sys.flushFilesystems, Sys.handOverToKernel, Prog.bind_eq,
    Prog.bind_assoc, Prog.pure_eq, Prog.ret_bind]
  refine Reports.bind (available_comesUp candidates).brief.reports fun usable _ => ?_
  refine Reports.bind (T := fun _ => True) ?_ fun _ _ => ?_
  · split
    · exact (brief_mem _).reports
    · exact park_reports
  · refine Reports.bind (brief_mem _).reports fun _ _ => ?_
    refine Reports.bind startShell_reports fun _ _ => ?_
    refine Reports.bind emit_brief.reports fun _ _ => ?_
    refine Reports.bind supervise_reports fun action _ => ?_
    refine Reports.bind toConsole_brief.reports fun _ _ => ?_
    refine Reports.bind emit_brief.reports fun _ _ => ?_
    refine Reports.bind stopEverything_reports fun _ _ => ?_
    refine Reports.bind (brief_sys rfl).reports fun _ _ => ?_
    refine Reports.bind emit_brief.reports fun _ _ => ?_
    exact Reports.bind (brief_sys rfl).reports fun _ _ => park_reports

theorem bringUp_reports : Reports bringUp fun _ => True := by
  simp only [bringUp, Mount.mountAll, Console.ensureNodes, watchSignals, Prog.bind_eq, Prog.pure_eq]
  refine Reports.bind (mountEach_comesUp _ _).brief.reports fun failed _ => ?_
  refine Reports.bind keepEveryMessage_comesUp.brief.reports fun _ _ => ?_
  refine Reports.bind (ensureEach_comesUp _).brief.reports fun _ _ => ?_
  refine Reports.bind openConsole_comesUp.brief.reports fun _ _ => ?_
  refine Reports.bind (T := fun _ => True) ?_ fun signals _ => ?_
  · refine Reports.bind install_brief.reports fun installed _ => ?_
    split
    · exact trivial
    · exact park_reports
  · refine Reports.bind takeCtrlAltDel_comesUp.brief.reports fun _ _ => ?_
    exact Reports.bind banner_comesUp.brief.reports fun _ _ => trivial

/-- All of `main` announces every child that is handed over to it. -/
theorem main_reports {candidates : List Spec} {Q : Unit → Prop} :
    Reports (mainWith candidates) Q := by
  simp only [mainWith, Prog.bind_eq]
  refine Reports.bind (brief_sys rfl).reports fun pid _ => ?_
  split
  · simp only [refuseToRun, Prog.bind_eq]
    refine Reports.bind (brief_sys rfl).reports fun _ _ => ?_
    exact Reports.bind (brief_sys rfl).reports fun _ _ =>
      reports_never (s := .processExit 1) inferInstance
  · exact Reports.bind bringUp_reports fun signals _ => run_reports

/-! ## The calls alone -/

/-- The calls that pid 1 has made, oldest first. -/
def World.made {K : Type} (w : World K) : List (Did calls) :=
  (w.hist.map fun event => ⟨event.call, event.res⟩).reverse

/-- The part of a world that the sinks of `Delivery` keep: the memory and the calls. -/
def World.saying {K : Type} (w : World K) : Saying := ⟨w.mem, w.made⟩

section Made

variable {K : Type} {k : Kernel K} {w w' : World K} {c : Call} {r : c.Res}

theorem Kernel.Answers.made (answer : k.Answers w c r w') : w'.made = w.made ++ [⟨c, r⟩] := by
  rw [World.made, answer.hist, List.map_cons, List.reverse_cons]
  rfl

theorem made_star (others : Relation.ReflTransGen k.semantics.interfere w w') :
    w'.made = w.made := by
  rw [World.made, (star_private others).2]
  rfl

theorem takesPart_of_promised {s : Syscall} {r : s.Res} (promised : Promised (.sys s) r) :
    TakesPart s r := by
  cases s with
  | write => exact promised
  | _ => trivial

/-- A run on any kernel is a run on the sinks. -/
theorem maps_saying (k : Kernel K) : Maps k.semantics sinks World.saying where
  still others := by
    obtain ⟨kern, -, rfl⟩ := others
    rfl
  answers {w c r w'} answer := by
    have made := Kernel.Answers.made answer
    cases answer with
    | sys answer =>
        show Saying.Answers w.saying _ _ ⟨w.mem, _⟩
        rw [made]
        exact .sys (takesPart_of_promised (k.promised answer))
    | mem reads =>
        show Saying.Answers w.saying _ _ ⟨_, _⟩
        rw [made]
        exact .mem _

end Made

section Followed

variable {K α : Type} {k : Kernel K} {c₀ : Config calls (World K) α} {e : Execution k.semantics c₀}
  {n : ℕ} {w : World K}

/-- A log line is delivered in every execution. -/
theorem emits {level : Level} {msg : String} {f : Unit → Pid1 α}
    (here : e.conf n = ⟨(Log.emit level msg).bind f, w⟩) :
    ∃ m message, n ≤ m ∧ (e.conf m).prog = f () ∧
      (e.conf m).world.made = w.made ++ message.made ∧
      Delivered w.mem.kmsg level msg message (e.conf m).world.mem.kmsg := by
  have makes : Makes said (Log.emit level msg) w.saying.mem.kmsg _ := emit_makes
  have safe := Safe.along (maps_saying k) (makes w.saying rfl)
  obtain ⟨m, later, ⟨⟨⟩, w', -, ⟨made, more, message, rfl, delivered⟩, there⟩, -⟩ :=
    Halts.comes_to (fun _ _ _ did => did_promised did)
      (fun _ log => Call.comes_back (prompt_of_log log)) emit_logs safe here
  refine ⟨m, message, later, ?_, ?_, ?_⟩
  · rw [there]
  · rw [there]
    exact more
  · rw [there]
    exact delivered

/-- In every execution, `announce` records the exit and delivers the line about the child. -/
theorem announced {pid : Int} {ending : Ending} {f : Option Departed → Pid1 α}
    (here : e.conf n = ⟨(announce pid ending.status).bind f, w⟩) :
    ∃ v now m message, Relation.ReflTransGen k.semantics.interfere w v ∧ k.reads v.kern now ∧
      n < m ∧ (e.conf m).world.made = w.made ++
        ⟨.mem (.recordExit pid ending.status), (w.mem.table.recordExit pid ending.status now).1⟩ ::
          message.made ∧
      Delivered w.mem.kmsg (w.mem.table.report pid ending now).1 (w.mem.table.report pid ending now).2
        message (e.conf m).world.mem.kmsg := by
  rw [announce, Prog.bind_assoc] at here
  obtain ⟨gone?, w', did, there⟩ := turn_mem here
  obtain ⟨v, others, answer⟩ := Execution.answered did
  rw [here] at others
  rw [there] at answer
  obtain ⟨memory, -⟩ := star_private others
  have made := Kernel.Answers.made answer
  rw [made_star others] at made
  cases answer with
  | @mem _ now reads =>
      rw [Prog.bind_assoc] at there
      rw [show ((MemOp.recordExit pid ending.status).run now v.mem).1 =
        (v.mem.table.recordExit pid ending.status now).1 from rfl, memory] at there made
      rw [tell_report] at there
      obtain ⟨m, message, later, -, more, delivered⟩ := emits there
      refine ⟨v, now, m, message, others, reads, later, ?_, ?_⟩
      · rw [more, made, List.append_assoc]
        rfl
      · exact delivered

end Followed

/-! ## The promise -/

/-- At the `n`-th turn the child `pid`, which has ended with `ending`, is handed over with the
result `r`; up to the `m`-th turn pid 1 records the exit, at the reading `now` of the clock,
delivers the line about it, and does nothing else. -/
structure Announced {K : Type} {k : Kernel K} {c₀ : Config calls (World K) Unit}
    (e : Execution k.semantics c₀) (n m : ℕ) (r : Ret × Status) (pid : Int) (ending : Ending)
    (now : ℕ) (message : Message) : Prop where
  later : n < m
  clock : ∃ w, Relation.ReflTransGen k.semantics.interfere (e.conf (n + 1)).world w ∧
    k.reads w.kern now
  calls : (e.conf m).world.made = (e.conf n).world.made ++
    ⟨.sys .waitpid, r⟩ :: ⟨.mem (.recordExit pid ending.status),
      ((e.conf n).world.mem.table.recordExit pid ending.status now).1⟩ :: message.made
  delivered : Delivered (e.conf n).world.mem.kmsg
    ((e.conf n).world.mem.table.report pid ending now).1
    ((e.conf n).world.mem.table.report pid ending now).2 message (e.conf m).world.mem.kmsg

/-- **Every death is logged.**  In every execution of pid 1 on any kernel, whenever `waitpid`
hands over a child, pid 1 records its exit and logs one line about it before it does anything
else.  The line names the child and says how it ended, if it is one of the shells in the table,
and is on `/dev/kmsg` or falls back. -/
theorem every_death_is_logged {K : Type} {k : Kernel K} {candidates : List Spec} {kern : K}
    (e : Execution k.semantics (boot candidates kern)) {n : ℕ} {r : Ret × Status}
    (did : e.did n = some ⟨.sys .waitpid, r⟩) {pid : Int} {ending : Ending}
    (handed : Sys.reapedOf r = .child pid ending.status) :
    ∃ m now message, Announced e n m r pid ending now message := by
  have next := Heeds.follows announces_open (fun _ _ _ did => did_promised did)
    (main_reports (Q := fun _ => True)) did
  obtain ⟨f, left⟩ := next pid ending.status handed
  have here : e.conf (n + 1) = ⟨(announce pid ending.status).bind f, (e.conf (n + 1)).world⟩ :=
    congrArg (Config.mk · _) left
  obtain ⟨v, now, m, message, others, reads, later, calls, delivered⟩ := announced here
  -- the world of the call
  obtain ⟨v', others', answer⟩ := Execution.answered did
  obtain ⟨memory, -⟩ := star_private others'
  have made := Kernel.Answers.made answer
  have same : (e.conf (n + 1)).world.mem = (e.conf n).world.mem := by
    generalize (e.conf (n + 1)).world = after at answer
    cases answer with
    | sys => exact memory
  rw [same] at calls delivered
  rw [made, made_star others', List.append_assoc] at calls
  exact ⟨m, now, message, by omega, ⟨v, others, reads⟩, calls, delivered⟩

/-- The script in which the first shell has a segmentation fault at once. -/
def shellFaults : Script Kernel.anything where
  before w _ := w.kern
  answer w
    | .fork => some (⟨100, ⟨0, ""⟩⟩, ())
    | .poll _ _ => some (⟨1, ⟨0, ""⟩⟩, ())
    | .read _ => some ((⟨128, ⟨0, ""⟩⟩, SIGCHLD), ())
    | .waitpid => some ((⟨100, ⟨0, ""⟩⟩, (Ending.killed 11 true (by decide)).status), ())
    | s => s.smooth.map fun r => (r, w.kern)
  clock _ := 0
  others := Script.still
  answers {w s r kern} h := by
    cases s with
    | fork =>
        cases h
        exact .inr (by decide)
    | poll | read | waitpid =>
        cases h
        trivial
    | _ =>
        obtain ⟨promised, -⟩ := Syscall.smoothly h
        exact promised
  reads _ := trivial

/-- Pid 1 at the `waitpid` that hands over its first shell. -/
def aboutToReap : Config calls (World Unit) Unit :=
  shellFaults.driver.run (fun c => c.prog.next == some (Call.sys .waitpid)) 400 (boot CANDIDATES ())

theorem aboutToReap_turns :
    Turns Kernel.anything.semantics (boot CANDIDATES ()) aboutToReap :=
  shellFaults.driver.turns _ _ _

/-- This kernel has an answer to every call whose result type has an element. -/
theorem anything_answers (w : World Unit) (c : Call) (comesBack : Nonempty c.Res) :
    ∃ r w', Kernel.anything.Answers w c r w' := by
  obtain ⟨r⟩ := comesBack
  cases c with
  | mem o => exact ⟨_, _, .mem (show Kernel.anything.reads w.kern 0 from trivial)⟩
  | sys s =>
      obtain ⟨r', promised⟩ := promised_result r
      exact ⟨r', w.called 0 s r' (), .sys promised⟩

theorem every_death_is_logged_with_its_signal :
    ∃ (e : Execution Kernel.anything.semantics (boot CANDIDATES ())) (n m now : ℕ)
      (message : Message), n < m ∧
        Delivered 3 .warn s!"shell [100] killed by signal 11 after {now}s" message
          (e.conf m).world.mem.kmsg := by
  obtain ⟨k, left⟩ := Prog.next_eq (show aboutToReap.prog.next = some (Call.sys .waitpid) by
    decide +kernel)
  let ending : Ending := .killed 11 true (by decide)
  let r : Ret × Status := (⟨100, ⟨0, ""⟩⟩, ending.status)
  have here : aboutToReap = ⟨.call (Call.sys .waitpid) k, aboutToReap.world⟩ :=
    congrArg (Config.mk · _) left
  have turn : TakesTurn Kernel.anything.semantics aboutToReap (some ⟨Call.sys .waitpid, r⟩)
      ⟨k r, aboutToReap.world.called 0 .waitpid r ()⟩ := by
    rw [here]
    exact .answer .refl (.sys trivial)
  obtain ⟨rest⟩ := Execution.exists_of_answers (M := Kernel.anything.semantics) anything_answers
    ⟨k r, aboutToReap.world.called 0 .waitpid r ()⟩
  obtain ⟨e, n, there, did, -⟩ := Execution.exists_through aboutToReap_turns turn rest
  obtain ⟨m, now, message, announced⟩ := every_death_is_logged e did
    (show Sys.reapedOf r = .child 100 ending.status from rfl)
  have delivered := announced.delivered
  rw [there] at delivered
  have entry : Keyed.first? Entry.pid 100 aboutToReap.world.mem.table.live =
      some ⟨"shell", 100, .running, 0, true⟩ := by
    decide +kernel
  rw [Table.report, entry] at delivered
  have kmsg : aboutToReap.world.mem.kmsg = 3 := by
    decide +kernel
  rw [kmsg] at delivered
  exact ⟨e, n, m, now, message, announced.later, delivered⟩

end Zevory
