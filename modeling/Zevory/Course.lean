import Zevory.Brief
import Zevory.Interaction.Lively
import Zevory.Refinement

/-!
# The course of an execution

An execution of `main`, seen as a walk through the protocol.  The history leads to one
place only (`Path.unique`), so that pid 1 is at one place at every turn; and `main` is
lively, which is to say that it never goes on for ever with calls of `log.rs` alone,
whatever its writes return.  So from every turn on the next move of the protocol comes
(`next_move`), and an execution of `main` is an endless walk.
-/

namespace Zevory

open Interaction Signal Power

/-! ## One place at a time -/

section Unique

variable {p q : Place}

theorem Moves.unique {c : Call} {f g : c.Res → Place} (move : Moves p c f)
    (other : Moves p c g) : f = g := by
  cases move with
  | log log =>
      cases other with
      | log | bringUp => rfl
      | _ => cases log
  | bringUp early =>
      cases other with
      | log | bringUp => rfl
      | _ => cases early
  | giveUpEarly | tableNew =>
      cases other with
      | log log => cases log
      | bringUp early => cases early
      | _ => rfl
  | _ =>
      cases other with
      | log log => cases log
      | _ => rfl

theorem Path.unique {h : List Event} (path : Path h p) (other : Path h q) : p = q := by
  induction path generalizing q with
  | boot =>
      cases other with
      | boot => rfl
  | move _ move ih =>
      cases other with
      | move before move' =>
          cases ih before
          rw [move.unique move']

end Unique

/-! ## Pid 1 goes on -/

/-- Runs of `p` do not go on for ever with calls of the log alone, and a result of `p` meets `Q`. -/
abbrev GoesOn {α : Type} (p : Pid1 α) (Q : α → Prop) : Prop :=
  Lively (S := calls) (fun c => c.isLog) Promised p Q

theorem Brief.goesOn {α : Type} {p : Pid1 α} {Q : α → Prop} (brief : Brief p Q) : GoesOn p Q :=
  brief.lively.subset fun _ log => prompt_of_log log

/-- After a system call that never returns nothing is left to show. -/
theorem goesOn_never {α : Type} {s : Syscall} (never : IsEmpty s.Res) {f : s.Res → Pid1 α}
    {Q : α → Prop} : GoesOn ((sys s).bind f) Q :=
  fun r _ => never.elim r

theorem pauseForever_goesOn {α : Type} {Q : α → Prop} : GoesOn (pauseForever : Pid1 α) Q := by
  refine Lively.iterate (fun _ => 0) (fun _ => ?_) fun _ => ?_
  · exact fun log => Bool.noConfusion log
  · exact fun _ _ => trivial

theorem park_goesOn {α : Type} {why : String} {Q : α → Prop} :
    GoesOn (park why : Pid1 α) Q := by
  simp only [park, Sys.enableCtrlAltDel, Prog.bind_eq, Prog.bind_assoc, Prog.pure_eq,
    Prog.ret_bind]
  refine Lively.bind (brief_sys rfl).goesOn fun _ _ => ?_
  refine Lively.bind emit_brief.goesOn fun _ _ => ?_
  exact Lively.bind toConsole_brief.goesOn fun _ _ => pauseForever_goesOn

theorem panic_goesOn {α : Type} {what : String} {Q : α → Prop} :
    GoesOn (Sys.panic what : Pid1 α) Q :=
  goesOn_never (s := .panic what) inferInstance

theorem rescueShell_goesOn : GoesOn rescueShell fun _ => True := by
  simp only [rescueShell, Prog.bind_eq, Prog.pure_eq]
  refine Lively.bind (brief_mem _).goesOn fun spec? _ => ?_
  split
  · exact trivial
  · exact panic_goesOn

theorem rescueFailed_goesOn : GoesOn rescueFailed fun _ => True := by
  simp only [rescueFailed, Prog.bind_eq, Prog.pure_eq]
  refine Lively.bind (brief_mem _).goesOn fun verdict? _ => ?_
  split
  · exact trivial
  · exact panic_goesOn

theorem exec_brief {path : String} {argv : List String} :
    Brief (Sys.exec path argv) fun _ => True := by
  simp only [Sys.exec, Prog.bind_eq, Prog.pure_eq]
  split
  · exact Halts.ret trivial
  · split
    · exact Halts.ret trivial
    · exact Halts.bind (brief_sys rfl) fun _ _ => Halts.ret trivial

theorem childMain_goesOn {α : Type} {spec : Spec} {Q : α → Prop} :
    GoesOn (Proc.childMain spec : Pid1 α) Q := by
  simp only [Proc.childMain, Sys.unblockAllSignals, Sys.newSession, Sys.setCtty, Prog.bind_eq,
    Prog.bind_assoc, Prog.pure_eq, Prog.ret_bind]
  refine Lively.bind (brief_sys rfl).goesOn fun _ _ => ?_
  have execs : GoesOn (α := α) ((Sys.exec spec.path spec.argv).bind fun failure =>
      (Log.error s!"could not exec {spec.path}: {failure}").bind fun _ => Sys.exitChild 127) Q := by
    refine Lively.bind exec_brief.goesOn fun failure _ => ?_
    exact Lively.bind emit_brief.goesOn fun _ _ =>
      goesOn_never (s := .exitChild 127) inferInstance
  split
  · exact Lively.bind (brief_sys rfl).goesOn fun _ _ =>
      Lively.bind (brief_sys rfl).goesOn fun _ _ => execs
  · exact execs

theorem fork_brief : Brief Sys.fork fun _ => True := by
  simp only [Sys.fork, Prog.bind_eq, Prog.pure_eq]
  refine Halts.bind (brief_sys rfl) fun r _ => ?_
  split
  · exact Halts.ret trivial
  · split <;> exact Halts.ret trivial

theorem spawn_goesOn {spec : Spec} : GoesOn (Table.spawn spec) fun _ => True := by
  simp only [Table.spawn, Proc.spawn, Prog.bind_eq, Prog.pure_eq]
  refine Lively.bind (T := fun _ => True) (Lively.bind fork_brief.goesOn fun forked _ => ?_)
    fun spawned _ => ?_
  · split
    · exact trivial
    · exact trivial
    · exact childMain_goesOn
  · split
    · exact trivial
    · exact Lively.bind (brief_mem _).goesOn fun _ _ => trivial

theorem startShell_goesOn : GoesOn startShell fun _ => True := by
  simp only [startShell, Prog.bind_eq, Prog.pure_eq]
  refine Lively.bind rescueShell_goesOn fun spec _ => Lively.bind spawn_goesOn fun spawned _ => ?_
  split
  · exact trivial
  · exact Lively.bind rescueShell_goesOn fun _ _ => park_goesOn

/-- Every round of `reap_all` calls `waitpid`, so that it does not go on with the log alone. -/
theorem reapAll_goesOn : GoesOn reapAll fun _ => True := by
  simp only [reapAll, Prog.bind_eq, Prog.pure_eq]
  refine Lively.bind (T := fun _ => True) ?_ fun h _ =>
    Lively.bind (brief_mem _).goesOn fun _ _ => trivial
  refine Lively.iterate (fun _ => 0) (fun _ => ?_) fun shortestLife => ?_
  · exact fun log => Bool.noConfusion log
  · simp only [reapRound, Sys.reapOne, Prog.bind_eq, Prog.bind_assoc, Prog.pure_eq, Prog.ret_bind]
    refine Lively.bind (T := fun _ => True) (fun _ _ => trivial) fun r _ => ?_
    split
    · exact trivial
    · exact trivial
    · refine Lively.bind (brief_mem _).goesOn fun gone? _ => ?_
      split
      · exact Lively.bind emit_brief.goesOn fun _ _ => trivial
      · exact Lively.bind logDeparted_brief.goesOn fun _ _ => trivial

theorem giveUpOrFallBack_goesOn : GoesOn giveUpOrFallBack fun _ => True := by
  simp only [giveUpOrFallBack, Prog.bind_eq, Prog.pure_eq]
  refine Lively.bind rescueShell_goesOn fun dying _ => ?_
  refine Lively.bind rescueFailed_goesOn fun verdict _ => ?_
  split
  · exact trivial
  · exact emit_brief.goesOn
  · exact park_goesOn

theorem monotonicSecs_brief : Brief Sys.monotonicSecs fun _ => True :=
  brief_sys rfl

theorem account_goesOn {shortestLife : Option ℕ} : GoesOn (account shortestLife) fun _ => True := by
  cases shortestLife with
  | none => exact trivial
  | some ranFor =>
      simp only [account, Prog.bind_eq]
      split
      · exact (brief_mem _).goesOn
      · refine Lively.bind monotonicSecs_brief.goesOn fun now _ => ?_
        refine Lively.bind (T := fun _ => True) trivial fun respawnAt _ => ?_
        exact Lively.bind (brief_mem _).goesOn fun _ _ => giveUpOrFallBack_goesOn

theorem heed_goesOn {signal : Int} : GoesOn (heed signal) fun _ => True := by
  unfold heed
  cases classify signal with
  | childChanged =>
      simp only [Prog.bind_eq, Prog.pure_eq]
      exact Lively.bind reapAll_goesOn fun _ _ => Lively.bind account_goesOn fun _ _ => trivial
  | shutdown => exact trivial
  | reload | unknown =>
      simp only [Prog.bind_eq, Prog.pure_eq]
      exact Lively.bind emit_brief.goesOn fun _ _ => trivial

theorem startIfDue_goesOn {idle : Bool} : GoesOn (startIfDue idle) fun _ => True := by
  simp only [startIfDue, Prog.bind_eq, Prog.pure_eq]
  split
  · refine Lively.bind monotonicSecs_brief.goesOn fun now _ => ?_
    refine Lively.bind (brief_mem _).goesOn fun respawnAt _ => ?_
    split
    · exact startShell_goesOn
    · exact trivial
  · exact trivial

/-- Every round of `supervise` asks the table how many shells are running. -/
theorem supervise_goesOn {signals : Signals} : GoesOn (supervise signals) fun _ => True := by
  simp only [supervise, Prog.bind_eq]
  refine Lively.bind (brief_mem _).goesOn fun _ _ => Lively.iterate (fun _ => 0) (fun _ => ?_)
    fun _ => ?_
  · exact fun log => Bool.noConfusion log
  · simp only [superviseRound, Prog.bind_eq, Prog.pure_eq]
    refine Lively.bind (brief_mem _).goesOn fun running _ => ?_
    refine Lively.bind startIfDue_goesOn fun _ _ => ?_
    refine Lively.bind wait_brief.goesOn fun arrived _ => ?_
    split
    · refine heed_goesOn.mono fun next _ => ?_
      cases next <;> trivial
    · exact trivial
    · split
      · exact trivial
      · exact park_goesOn

/-- Every round of `wait_for_silence` calls `waitpid`. -/
theorem waitForSilence_goesOn {signals : Signals} {secs : ℕ} :
    GoesOn (waitForSilence signals secs) fun _ => True := by
  simp only [waitForSilence, Prog.bind_eq]
  refine Lively.bind monotonicSecs_brief.goesOn fun now _ => ?_
  refine Lively.bind (T := fun _ => True) trivial fun deadline _ =>
    Lively.iterate (fun _ => 0) (fun _ => ?_) fun _ => ?_
  · simp only [silenceRound, reapAll, Prog.bind_eq, Prog.iterate_bind, Prog.loop_bind]
    exact ⟨fun _ => 0, fun _ log => Bool.noConfusion log⟩
  · simp only [silenceRound, Prog.bind_eq, Prog.pure_eq]
    refine Lively.bind reapAll_goesOn fun h _ => ?_
    split
    · exact trivial
    · refine Lively.bind monotonicSecs_brief.goesOn fun now _ => ?_
      split
      · exact trivial
      · refine Lively.bind wait_brief.goesOn fun arrived _ => ?_
        split
        · split
          · exact Lively.bind emit_brief.goesOn fun _ _ => trivial
          · exact trivial
        · exact trivial

theorem stopEverything_goesOn {signals : Signals} :
    GoesOn (stopEverything signals) fun _ => True := by
  simp only [stopEverything, Prog.bind_eq, Prog.pure_eq]
  refine Lively.bind reapAll_goesOn fun h _ => ?_
  split
  · exact trivial
  · refine Lively.bind toConsole_brief.goesOn fun _ _ => ?_
    refine Lively.bind (brief_mem _).goesOn fun leaders _ => ?_
    refine Lively.bind hangUp_brief.goesOn fun _ _ => ?_
    refine Lively.bind signalEveryone_brief.goesOn fun _ _ => ?_
    refine Lively.bind signalEveryone_brief.goesOn fun _ _ => ?_
    refine Lively.bind waitForSilence_goesOn fun silence _ => ?_
    split
    · exact trivial
    · refine Lively.bind emit_brief.goesOn fun _ _ => ?_
      refine Lively.bind toConsole_brief.goesOn fun _ _ => ?_
      refine Lively.bind signalEveryone_brief.goesOn fun _ _ => ?_
      refine Lively.bind waitForSilence_goesOn fun silence _ => ?_
      split
      · exact trivial
      · exact emit_brief.goesOn

theorem execute_goesOn {action : Action} {signals : Signals} :
    GoesOn (execute action signals) fun _ => True := by
  simp only [execute, Sys.flushFilesystems, Sys.handOverToKernel, Prog.bind_eq, Prog.bind_assoc,
    Prog.pure_eq, Prog.ret_bind]
  refine Lively.bind toConsole_brief.goesOn fun _ _ => Lively.bind emit_brief.goesOn fun _ _ => ?_
  refine Lively.bind stopEverything_goesOn fun _ _ => ?_
  refine Lively.bind (brief_sys rfl).goesOn fun _ _ => Lively.bind emit_brief.goesOn fun _ _ => ?_
  exact Lively.bind (brief_sys rfl).goesOn fun _ _ => trivial

theorem watchSignals_goesOn : GoesOn watchSignals fun _ => True := by
  simp only [watchSignals, Prog.bind_eq, Prog.pure_eq]
  refine Lively.bind install_brief.goesOn fun installed _ => ?_
  split
  · exact trivial
  · exact park_goesOn

theorem bringUp_goesOn : GoesOn bringUp fun _ => True := by
  simp only [bringUp, Mount.mountAll, Console.ensureNodes, Prog.bind_eq, Prog.pure_eq]
  refine Lively.bind (mountEach_comesUp _ _).brief.goesOn fun failed _ => ?_
  refine Lively.bind keepEveryMessage_comesUp.brief.goesOn fun _ _ => ?_
  refine Lively.bind (ensureEach_comesUp _).brief.goesOn fun _ _ => ?_
  refine Lively.bind openConsole_comesUp.brief.goesOn fun _ _ => ?_
  refine Lively.bind watchSignals_goesOn fun signals _ => ?_
  refine Lively.bind takeCtrlAltDel_comesUp.brief.goesOn fun _ _ => ?_
  exact Lively.bind banner_comesUp.brief.goesOn fun _ _ => trivial

theorem newRescue_goesOn {candidates : List Spec} : GoesOn (newRescue candidates) fun _ => True := by
  simp only [newRescue, Prog.bind_eq]
  refine Lively.bind (available_comesUp candidates).brief.goesOn fun usable _ => ?_
  split
  · exact (brief_mem _).goesOn
  · exact park_goesOn

theorem run_goesOn {candidates : List Spec} {signals : Signals} {Q : Unit → Prop} :
    GoesOn (run candidates signals) Q := by
  simp only [run, Prog.bind_eq]
  refine Lively.bind newRescue_goesOn fun _ _ => Lively.bind (brief_mem _).goesOn fun _ _ => ?_
  refine Lively.bind startShell_goesOn fun _ _ => Lively.bind emit_brief.goesOn fun _ _ => ?_
  refine Lively.bind supervise_goesOn fun action _ => ?_
  exact Lively.bind execute_goesOn fun failure _ => park_goesOn

/-- `main` never goes on for ever with calls of the log alone. -/
theorem main_goesOn {candidates : List Spec} {Q : Unit → Prop} :
    GoesOn (mainWith candidates) Q := by
  simp only [mainWith, Prog.bind_eq]
  refine Lively.bind (brief_sys rfl).goesOn fun pid _ => ?_
  split
  · simp only [refuseToRun, Prog.bind_eq]
    refine Lively.bind (brief_sys rfl).goesOn fun _ _ => ?_
    exact Lively.bind (brief_sys rfl).goesOn fun _ _ =>
      goesOn_never (s := .processExit 1) inferInstance
  · exact Lively.bind bringUp_goesOn fun signals _ => run_goesOn

/-! ## The walk -/

/-- What others do changes neither the memory nor the history of pid 1. -/
theorem star_private {K : Type} {k : Kernel K} {w v : World K}
    (star : Relation.ReflTransGen k.semantics.interfere w v) : v.mem = w.mem ∧ v.hist = w.hist :=
  Stable.star (P := fun v => v.mem = w.mem ∧ v.hist = w.hist)
    (Kernel.stable_private (P := fun mem hist => mem = w.mem ∧ hist = w.hist)) ⟨rfl, rfl⟩ star

/-- Every call that is a move of the protocol has a result type with an element. -/
theorem Moves.comes_back {p : Place} {c : Call} {f : c.Res → Place} (move : Moves p c f) :
    Nonempty c.Res := by
  cases move with
  | log log => exact Call.comes_back (prompt_of_log log)
  | bringUp early => exact Call.comes_back (Call.prompt_of_bringUp early)
  | waitpid => exact ⟨(⟨0, ⟨0, ""⟩⟩, 0)⟩
  | _ => exact Call.comes_back rfl

/-- A call of the log leaves the place as it is. -/
theorem Moves.stays {p : Place} {c : Call} {f : c.Res → Place} (move : Moves p c f)
    (log : c.isLog) (r : c.Res) : f r = p := by
  cases move with
  | log | bringUp => rfl
  | _ => cases log

/-! ## The map -/

/-- The constructors of `Place`, without their arguments. -/
inductive Kind
  | bringUp | asking | chosen | noFork | forked | up | loopHead | idle | due | waiting | readable
  | reaping | crediting | harvested | surviving | failing | backingOff | dying | striking
  | listing | hangingUp | continuing | timing | checking | watching | watched | killing
  | silent | synced | parking | parked | lost
  deriving DecidableEq

def Place.kind : Place → Kind
  | .bringUp => .bringUp
  | .asking _ => .asking
  | .chosen _ _ => .chosen
  | .noFork => .noFork
  | .forked _ _ _ => .forked
  | .up => .up
  | .loopHead => .loopHead
  | .idle => .idle
  | .due _ => .due
  | .waiting _ => .waiting
  | .readable => .readable
  | .reaping _ _ => .reaping
  | .crediting _ _ _ _ => .crediting
  | .harvested _ _ _ => .harvested
  | .surviving => .surviving
  | .failing => .failing
  | .backingOff _ => .backingOff
  | .dying => .dying
  | .striking => .striking
  | .listing _ => .listing
  | .hangingUp _ _ => .hangingUp
  | .continuing _ => .continuing
  | .timing _ _ => .timing
  | .checking _ _ _ => .checking
  | .watching _ _ _ => .watching
  | .watched _ _ _ => .watched
  | .killing _ => .killing
  | .silent _ => .silent
  | .synced _ => .synced
  | .parking => .parking
  | .parked _ => .parked
  | .lost => .lost

/-- The kinds of places that one move may lead to, other than the kind itself. -/
def Kind.next : Kind → List Kind
  | .bringUp => [.parked, .asking]
  | .asking => [.chosen, .lost]
  | .chosen => [.noFork, .lost, .forked]
  | .noFork => [.parking, .lost]
  | .forked => [.up, .waiting]
  | .up => [.loopHead]
  | .loopHead => [.idle, .waiting]
  | .idle => [.due]
  | .due => [.asking, .waiting]
  | .waiting => [.loopHead, .parking, .readable]
  | .readable => [.loopHead, .parking, .reaping]
  | .reaping => [.crediting, .harvested]
  | .crediting => [.reaping]
  | .harvested => [.loopHead, .surviving, .failing, .listing, .silent, .checking]
  | .surviving => [.loopHead]
  | .failing => [.backingOff]
  | .backingOff => [.dying]
  | .dying => [.striking, .lost]
  | .striking => [.loopHead, .parking, .lost]
  | .listing => [.hangingUp]
  | .hangingUp => [.hangingUp, .continuing]
  | .continuing => [.timing]
  | .timing => [.reaping]
  | .checking => [.silent, .killing, .watching]
  | .watching => [.reaping, .watched]
  | .watched => [.reaping]
  | .killing => [.timing]
  | .silent => [.synced]
  | .synced => [.parking]
  | .parking => [.parked]
  | .parked => []
  | .lost => []

/-- A move either stays at its place or leads to one of the kinds that `Kind.next` lists. -/
theorem Moves.mapped {p : Place} {c : Call} {f : c.Res → Place} (move : Moves p c f) (r : c.Res) :
    f r = p ∨ p.kind.next.contains (f r).kind := by
  cases move with
  | log | bringUp | pause => exact .inl rfl
  | ask | noFork | dying | recordExit => cases r <;> exact .inr rfl
  | fork =>
      dsimp only
      split
      · exact .inr rfl
      · split <;> exact .inr rfl
  | track | running | due | watch =>
      dsimp only
      split <;> exact .inr rfl
  | poll =>
      unfold Place.afterPoll
      split
      · split <;> exact .inr rfl
      · split <;> exact .inr rfl
  | read =>
      unfold Place.afterRead Place.afterSignal
      split
      · split <;> exact .inr rfl
      · split
        · exact .inr rfl
        · split <;> exact .inr rfl
  | waitpid =>
      unfold Place.afterWaitpid
      split <;> exact .inr rfl
  | forgetFinished =>
      unfold Place.afterHarvest
      split
      · exact .inr rfl
      · split <;> exact .inr rfl
      · split <;> exact .inr rfl
      · split <;> exact .inr rfl
  | check =>
      unfold Place.afterCheck
      split
      · split <;> exact .inr rfl
      · exact .inr rfl
  | failed =>
      unfold Place.afterVerdict
      split <;> exact .inr rfl
  | _ => exact .inr rfl

/-- No move leads back to the bring-up. -/
theorem Moves.come_up {p : Place} {c : Call} {f : c.Res → Place} (move : Moves p c f)
    (up : p ≠ .bringUp) (r : c.Res) : f r ≠ .bringUp := by
  intro back
  rcases move.mapped r with stays | goes
  · exact up (stays.symm.trans back)
  · rw [back] at goes
    cases p <;> cases goes

section Walk

variable {K : Type} {k : Kernel K} {candidates : List Spec} {kern : K}
  {e : Execution k.semantics (boot candidates kern)} {n m : ℕ} {p q : Place}

/-- Pid 1 is at `p` at the `n`-th turn. -/
def Here (e : Execution k.semantics (boot candidates kern)) (n : ℕ) (p : Place) : Prop :=
  Path (e.conf n).world.hist p

theorem exists_here (e : Execution k.semantics (boot candidates kern)) (n : ℕ) :
    ∃ p, Here e n p ∧ p ≠ .lost :=
  exists_path (e.reaches n)

theorem Here.unique (here : Here e n p) (other : Here e n q) : p = q :=
  Path.unique here other

/-- A turn with a call: the world the others have left, and the world after it. -/
theorem turn_answered {c : Call} {r : c.Res} (did : e.did n = some ⟨c, r⟩) :
    ∃ v, v.mem = (e.conf n).world.mem ∧ v.hist = (e.conf n).world.hist ∧
      Relation.ReflTransGen k.semantics.interfere (e.conf n).world v ∧
        k.Answers v c r (e.conf (n + 1)).world := by
  obtain ⟨v, star, answer⟩ := Execution.answered did
  obtain ⟨mem, hist⟩ := star_private star
  exact ⟨v, mem, hist, star, answer⟩

theorem next_of_did {c : Call} {r : c.Res} (did : e.did n = some ⟨c, r⟩) :
    (e.conf n).prog.next = some c := by
  have turn := e.goes n
  rw [did] at turn
  generalize e.conf n = conf at turn
  generalize e.conf (n + 1) = conf' at turn
  cases turn with
  | answer => rfl

/-- A turn with a call is a move from the place of pid 1, and leads to the place after it. -/
theorem Here.move {c : Call} {r : c.Res} (here : Here e n p) (did : e.did n = some ⟨c, r⟩) :
    ∃ f, Moves p c f ∧ Here e (n + 1) (f r) := by
  obtain ⟨q, f, path, -, move⟩ := expected_of_next (e.reaches n) (next_of_did did)
  cases here.unique path
  obtain ⟨v, -, hist, -, answer⟩ := turn_answered did
  refine ⟨f, move, ?_⟩
  have after : (e.conf (n + 1)).world.hist = ⟨c, r, k.time v.kern⟩ :: (e.conf n).world.hist := by
    rw [answer.hist, hist]
  rw [Here, after]
  exact Path.move here move

theorem hist_silent (silent : e.did n = none) :
    (e.conf (n + 1)).world.hist = (e.conf n).world.hist := by
  have turn := e.goes n
  rw [silent] at turn
  generalize e.conf n = conf at turn
  generalize e.conf (n + 1) = conf' at turn
  cases turn with
  | unroll star => exact (star_private star).2
  | returned star => exact (star_private star).2
  | gone _ star => exact (star_private star).2

/-- At a turn without a call pid 1 stays at its place. -/
theorem Here.silent (here : Here e n p) (silent : e.did n = none) : Here e (n + 1) p := by
  rw [Here, hist_silent silent]
  exact here

/-- At a turn with a call of the log pid 1 stays at its place. -/
theorem Here.log (here : Here e n p)
    (log : ∀ (c : Call) (r : c.Res), e.did n = some ⟨c, r⟩ → c.isLog) : Here e (n + 1) p := by
  cases did : e.did n with
  | none => exact here.silent did
  | some made =>
      obtain ⟨c, r⟩ := made
      obtain ⟨f, move, next⟩ := here.move did
      rwa [move.stays (log c r did) r] at next

/-- A call made at the `n`-th turn is in the history at all later turns. -/
theorem did_in_hist {c : Call} {r : c.Res} (did : e.did n = some ⟨c, r⟩) (later : n < m) :
    ∃ t, (⟨c, r, t⟩ : Event) ∈ (e.conf m).world.hist := by
  induction m, later using Nat.le_induction with
  | base =>
      obtain ⟨v, -, -, -, answer⟩ := turn_answered did
      exact ⟨k.time v.kern, by rw [answer.hist]; exact List.mem_cons_self⟩
  | succ m _ ih =>
      obtain ⟨t, member⟩ := ih
      refine ⟨t, ?_⟩
      cases made : e.did m with
      | none => rwa [hist_silent made]
      | some made' =>
          obtain ⟨c', r'⟩ := made'
          obtain ⟨v, -, same, -, answer⟩ := turn_answered made
          rw [answer.hist, same]
          exact List.mem_cons_of_mem _ member

/-- An invariant of places and worlds that others keep, and all moves between two turns, still holds
at the later one. -/
theorem Here.kept {I : Place → World K → Prop} (stable : ∀ p, Stable k.semantics (I p))
    (here : Here e n p) (inside : I p (e.conf n).world)
    (kept : ∀ i q c f (r : c.Res) w, n ≤ i → i < m → Here e i q → e.did i = some ⟨c, r⟩ →
      Moves q c f → w.mem = (e.conf i).world.mem → k.Answers w c r (e.conf (i + 1)).world →
        I q w → I (f r) (e.conf (i + 1)).world)
    (later : n ≤ m) : ∃ q, Here e m q ∧ I q (e.conf m).world := by
  suffices h : ∀ i, n ≤ i → i ≤ m → ∃ q, Here e i q ∧ I q (e.conf i).world from
    h m later (Nat.le_refl m)
  intro i from_
  induction i, from_ using Nat.le_induction with
  | base => exact fun _ => ⟨p, here, inside⟩
  | succ i from_ ih =>
      intro before
      obtain ⟨q, there, inside⟩ := ih (Nat.le_of_succ_le before)
      cases did : e.did i with
      | none =>
          refine ⟨q, there.silent did, ?_⟩
          have turn := e.goes i
          rw [did] at turn
          generalize e.conf i = c at turn inside
          generalize e.conf (i + 1) = c' at turn
          cases turn with
          | unroll others => exact (stable q).star inside others
          | returned others => exact (stable q).star inside others
          | gone _ others => exact (stable q).star inside others
      | some made =>
          obtain ⟨c, r⟩ := made
          obtain ⟨f, move, after⟩ := there.move did
          obtain ⟨v, same, -, others, answer⟩ := turn_answered did
          exact ⟨f r, after, kept i q c f r v from_ before there did move same answer
            ((stable q).star inside others)⟩

/-- The history only grows. -/
theorem hist_suffix (e : Execution k.semantics (boot candidates kern)) (later : n ≤ m) :
    (e.conf n).world.hist <:+ (e.conf m).world.hist := by
  induction m, later using Nat.le_induction with
  | base => exact List.suffix_refl _
  | succ m _ ih =>
      cases did : e.did m with
      | none => rwa [hist_silent did]
      | some made =>
          obtain ⟨c, r⟩ := made
          obtain ⟨v, -, same, -, answer⟩ := turn_answered did
          rw [answer.hist, same]
          exact ih.trans (List.suffix_cons _ _)

/-- From the `n`-th turn, at `p`, the next call other than those of the log is `c`, made at the
`m`-th turn, returns `r` and leads to `q`. -/
structure Goes (e : Execution k.semantics (boot candidates kern)) (n : ℕ) (p : Place) (m : ℕ)
    (c : Call) (r : c.Res) (q : Place) : Prop where
  later : n ≤ m
  did : e.did m = some ⟨c, r⟩
  matters : c.isLog = false
  move : ∃ f, Moves p c f ∧ q = f r
  from_ : Here e m p
  to_ : Here e (m + 1) q
  quiet : ∀ i, n ≤ i → i < m → ∀ (c : Call) (r : c.Res), e.did i = some ⟨c, r⟩ → c.isLog

/-- **The next move comes**: from every turn on, pid 1 makes a further call other than those of the
log. -/
theorem Here.next_move (here : Here e n p) : ∃ m c r q, Goes e n p m c r q := by
  have lead := Lively.leads (e := e) (fun _ _ _ did => did_promised did)
    (fun _ log => Call.comes_back (prompt_of_log log)) (main_goesOn (Q := fun _ => True)) n
  obtain ⟨m, later, comes, quiet⟩ := lead
  have still : ∀ i, n ≤ i → i ≤ m → Here e i p := by
    intro i from_
    induction i, from_ using Nat.le_induction with
    | base => exact fun _ => here
    | succ i from_ ih =>
        intro before
        exact (ih (Nat.le_of_succ_le before)).log fun c r did => quiet i from_ before c r did
  have there := still m later (Nat.le_refl m)
  rcases comes with ⟨c, f, w, matters, calls⟩ | ⟨a, w, -, ended⟩
  · have next : (e.conf m).prog.next = some c := by
      rw [calls]
      rfl
    obtain ⟨q, g, path, -, move⟩ := expected_of_next (e.reaches m) next
    obtain ⟨r, w', did, -⟩ := Execution.turn_call move.comes_back calls
    obtain ⟨g, move, after⟩ := there.move did
    exact ⟨m, c, r, g r, later, did, Bool.eq_false_iff.mpr matters, ⟨g, move, rfl⟩, there, after,
      quiet⟩
  · have reach := e.reaches m
    rw [ended] at reach
    exact absurd reach never_returns

/-- Once pid 1 is parked it stays parked. -/
theorem Here.parked {enabled : Bool} (here : Here e n (.parked enabled)) (later : n ≤ m) :
    Here e m (.parked enabled) := by
  induction m, later using Nat.le_induction with
  | base => exact here
  | succ m _ ih =>
      cases did : e.did m with
      | none => exact ih.silent did
      | some made =>
          obtain ⟨c, r⟩ := made
          obtain ⟨f, move, next⟩ := ih.move did
          cases move with
          | log | pause => exact next

/-- If pid 1 is at a place with `I`, and the bring-up has not `I`, then at some earlier turn a move
has led from a place without `I` to one with it. -/
theorem Here.entered {I : Place → Prop} (outside : ¬ I .bringUp) {n : ℕ} {p : Place}
    (here : Here e n p) (inside : I p) :
    ∃ (i : ℕ) (q : Place) (c : Call) (r : c.Res) (f : c.Res → Place), i < n ∧ Here e i q ∧ ¬ I q ∧
      e.did i = some ⟨c, r⟩ ∧ Moves q c f ∧ I (f r) := by
  induction n generalizing p with
  | zero =>
      have start : Here e 0 .bringUp := by
        rw [Here, e.start]
        exact .boot
      cases here.unique start
      exact absurd inside outside
  | succ n ih =>
      obtain ⟨q, before, -⟩ := exists_here e n
      by_cases already : I q
      · obtain ⟨i, q, c, r, f, earlier, rest⟩ := ih before already
        exact ⟨i, q, c, r, f, by omega, rest⟩
      · cases did : e.did n with
        | none =>
            cases here.unique (before.silent did)
            exact absurd inside already
        | some made =>
            obtain ⟨c, r⟩ := made
            obtain ⟨f, move, after⟩ := before.move did
            cases here.unique after
            exact ⟨n, q, c, r, f, Nat.lt_succ_self n, before, already, did, move, inside⟩

/-- After the bring-up pid 1 never gets back to it. -/
theorem Here.come_up {p : Place} (here : Here e n p) (up : p ≠ .bringUp) (later : n ≤ m) :
    ∃ q, Here e m q ∧ q ≠ .bringUp := by
  induction m, later using Nat.le_induction with
  | base => exact ⟨p, here, up⟩
  | succ m _ ih =>
      obtain ⟨q, there, up⟩ := ih
      cases did : e.did m with
      | none => exact ⟨q, there.silent did, up⟩
      | some made =>
          obtain ⟨c, r⟩ := made
          obtain ⟨f, move, next⟩ := there.move did
          exact ⟨f r, next, move.come_up up r⟩

end Walk

/-- **Pid 1 goes on.**  In every execution of `main`, on any kernel, from every turn on it
makes one more call other than those of the log, and that call is a move of the protocol. -/
theorem pid_one_goes_on {K : Type} {k : Kernel K} {candidates : List Spec} {kern : K}
    (e : Execution k.semantics (boot candidates kern)) (n : ℕ) :
    ∃ m c r p, n ≤ m ∧ e.did m = some ⟨c, r⟩ ∧ c.isLog = false ∧
      Path (e.conf m).world.hist p ∧ p.makes c := by
  obtain ⟨p, here, -⟩ := exists_here e n
  obtain ⟨m, c, r, q, goes⟩ := here.next_move
  obtain ⟨f, move, -⟩ := goes.move
  exact ⟨m, c, r, p, goes.later, goes.did, goes.matters, goes.from_, f, move⟩

end Zevory
