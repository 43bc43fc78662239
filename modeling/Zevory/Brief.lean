import Zevory.Interaction.Execution
import Zevory.Protocol

/-!
# What is over after finitely many calls

Every function of `log.rs` is over after finitely many of its calls, whatever they return;
so is everything else that pid 1 does between two calls of `waitpid`.
-/

namespace Zevory

open Interaction Signal Power

/-! ## `log.rs` -/

section Log

/-- `p` is over after finitely many calls, all of which are calls of the log. -/
abbrev OnlyLogs (R : (c : Call) → c.Res → Prop) {α : Type} (p : Pid1 α) : Prop :=
  Halts (S := calls) (fun c => c.isLog) R p fun _ => True

variable {R : (c : Call) → c.Res → Prop}

/-- `write_fd` is over after finitely many writes, because every round either writes a byte or more
or is the last. -/
theorem writeFd_logs {fd : Int} {bytes : List UInt8} : OnlyLogs R (Sys.writeFd fd bytes) := by
  refine Halts.iterate (fun done => bytes.length - done) fun done => ?_
  simp only [Sys.writeRound, Prog.bind_eq, Prog.pure_eq]
  split
  · rename_i left
    rw [if_pos (Nat.le_of_lt left)]
    refine Halts.bind (T := fun _ => True) (Halts.perform rfl fun _ _ => trivial) fun n _ => ?_
    split
    · exact Halts.ret trivial
    · refine Halts.ret (show bytes.length - (done + n.rc.toNat) < bytes.length - done from ?_)
      omega
  · exact Halts.ret trivial

theorem kmsg_logs : OnlyLogs R Log.kmsg := by
  simp only [Log.kmsg, Sys.openAppend, Prog.bind_eq, Prog.pure_eq]
  refine Halts.bind (T := fun _ => True) (Halts.perform rfl fun _ _ => trivial) fun known _ => ?_
  split
  · exact Halts.ret trivial
  · refine Halts.bind (T := fun _ => True) ?_ fun fd? _ => ?_
    · split
      · exact Halts.ret trivial
      · exact Halts.bind (T := fun _ => True) (Halts.perform rfl fun _ _ => trivial)
          fun _ _ => Halts.ret trivial
    · split
      · exact Halts.ret trivial
      · exact Halts.bind (T := fun _ => True) (Halts.perform rfl fun _ _ => trivial)
          fun _ _ => Halts.ret trivial

theorem emit_logs {level : Log.Level} {msg : String} : OnlyLogs R (Log.emit level msg) := by
  simp only [Log.emit, Log.writeToKmsg, Prog.bind_eq, Prog.pure_eq]
  refine Halts.bind (T := fun _ => True) (Halts.bind kmsg_logs fun fd _ => ?_) fun sent _ => ?_
  · split
    · exact Halts.ret trivial
    · exact writeFd_logs
  · split
    · exact Halts.ret trivial
    · exact Halts.bind writeFd_logs fun _ _ => Halts.ret trivial

theorem toConsole_logs {msg : String} : OnlyLogs R (Log.toConsole msg) := by
  simp only [Log.toConsole, Prog.bind_eq, Prog.pure_eq]
  exact Halts.bind writeFd_logs fun _ _ => Halts.ret trivial

theorem logDeparted_logs {gone : Departed} : OnlyLogs R (logDeparted gone) := by
  unfold logDeparted
  split
  · exact emit_logs
  · exact emit_logs
  · exact Halts.ret trivial

end Log

/-! ## Brief programs -/

/-- The calls that come back, `waitpid` left out. -/
def Call.isPrompt : Call → Bool
  | .sys .waitpid => false
  | .sys (.exitChild _) => false
  | .sys (.processExit _) => false
  | .sys (.panic _) => false
  | _ => true

theorem Call.comes_back {c : Call} (prompt : c.isPrompt) : Nonempty c.Res := by
  cases c with
  | sys s =>
      cases s with
      | exitChild | processExit | panic | waitpid => cases prompt
      | getpid => exact ⟨(1 : Int)⟩
      | clockGettime => exact ⟨(0 : ℕ)⟩
      | read => exact ⟨⟨0, ⟨0, ""⟩⟩, 0⟩
      | createDirAll | fsWrite => exact ⟨.ok ()⟩
      | pathExists => exact ⟨true⟩
      | eprintln => exact ⟨()⟩
      | _ => exact ⟨⟨0, ⟨0, ""⟩⟩⟩
  | mem o =>
      cases o with
      | kmsgLoad => exact ⟨(0 : Int)⟩
      | sessionLeaders => exact ⟨([] : List Int)⟩
      | running | respawnAt => exact ⟨(0 : ℕ)⟩
      | recordExit => exact ⟨(none : Option Departed)⟩
      | rescueShell => exact ⟨(none : Option Spec)⟩
      | failed => exact ⟨(none : Option Verdict)⟩
      | _ => exact ⟨()⟩

/-- `p` is over after finitely many calls that come back, none of which is a `waitpid`. -/
abbrev Brief {α : Type} (p : Pid1 α) (Q : α → Prop) : Prop :=
  Halts (S := calls) (fun c => c.isPrompt) Promised p Q

theorem brief_sys {s : Syscall} (prompt : (Call.sys s).isPrompt) :
    Brief (sys s) fun _ => True :=
  Halts.perform prompt fun _ _ => trivial

theorem brief_mem (o : MemOp) : Brief (mem o) fun _ => True :=
  Halts.perform rfl fun _ _ => trivial

theorem prompt_of_log {c : Call} (log : c.isLog) : c.isPrompt := by
  cases c with
  | sys s => cases s <;> first | rfl | cases log
  | mem => rfl

theorem OnlyLogs.brief {α : Type} {p : Pid1 α} (logs : OnlyLogs Promised p) : Brief p fun _ => True :=
  Halts.subset (fun _ log => prompt_of_log log) logs

theorem emit_brief {level : Log.Level} {msg : String} :
    Brief (Log.emit level msg) fun _ => True :=
  emit_logs.brief

theorem toConsole_brief {msg : String} : Brief (Log.toConsole msg) fun _ => True :=
  toConsole_logs.brief

theorem logDeparted_brief {gone : Departed} : Brief (logDeparted gone) fun _ => True :=
  logDeparted_logs.brief

/-- `Signals::wait` is one poll and at most one read. -/
theorem wait_halts {X : Call → Prop} (polls : ∀ fd millis, X (.sys (.poll fd millis)))
    (reads : ∀ fd, X (.sys (.read fd))) {R : (c : Call) → c.Res → Prop} {signals : Signals}
    {millis : Int} :
    Halts (S := calls) X R (signals.wait millis) fun _ => True := by
  have polled : ∀ fd millis, Halts (S := calls) X R (sys (.poll fd millis)) fun _ => True :=
    fun fd millis => Halts.perform (polls fd millis) fun _ _ => trivial
  have read : ∀ fd, Halts (S := calls) X R (sys (.read fd)) fun _ => True :=
    fun fd => Halts.perform (reads fd) fun _ _ => trivial
  simp only [Signals.wait, Sys.pollReadable, Sys.readSignal, Prog.bind_eq, Prog.pure_eq]
  refine Halts.bind (T := fun _ => True) (Halts.bind (polled _ _) fun r _ => ?_) fun ready _ => ?_
  · split
    · exact Halts.ret trivial
    · split <;> exact Halts.ret trivial
  · split
    · exact Halts.ret trivial
    · refine Halts.bind (T := fun _ => True) (Halts.bind (read _) fun r _ => ?_)
        fun _ _ => Halts.ret trivial
      split
      · exact Halts.ret trivial
      · split <;> exact Halts.ret trivial
    · exact Halts.ret trivial

theorem wait_brief {signals : Signals} {millis : Int} :
    Brief (signals.wait millis) fun _ => True :=
  wait_halts (fun _ _ => rfl) fun _ => rfl

theorem signalGroup_brief {leader signal : Int} :
    Brief (Sys.signalGroup leader signal) fun _ => True := by
  simp only [Sys.signalGroup, Prog.bind_eq, Prog.pure_eq]
  exact Halts.bind (brief_sys rfl) fun _ _ => Halts.ret trivial

theorem signalEveryone_brief {signal : Int} :
    Brief (Sys.signalEveryone signal) fun _ => True := by
  simp only [Sys.signalEveryone, Prog.bind_eq, Prog.pure_eq]
  exact Halts.bind (brief_sys rfl) fun _ _ => Halts.ret trivial

theorem hangUp_brief {leaders : List Int} : Brief (hangUp leaders) fun _ => True := by
  induction leaders with
  | nil => exact Halts.ret trivial
  | cons leader rest ih =>
      simp only [hangUp, Prog.bind_eq]
      exact Halts.bind signalGroup_brief fun _ _ => ih

/-! ## Coming up -/

section BringUp

/-- The two calls that block the watched signals and open the signalfd. -/
def Call.watches : Call → Bool
  | .sys (.sigprocmask _ _) => true
  | .sys (.signalfd _ _ _) => true
  | _ => false

/-- The calls `main` makes before there is a process table, those that watch the signals left out.
-/
def Call.isComingUp (c : Call) : Bool :=
  c.isLog || c.isBringUp && !c.watches

/-- `p` is over after finitely many such calls. -/
abbrev ComesUp {α : Type} (p : Pid1 α) (Q : α → Prop) : Prop :=
  Halts (S := calls) (fun c => c.isComingUp) Promised p Q

theorem comesUp_sys {s : Syscall} (early : (Call.sys s).isComingUp) :
    ComesUp (sys s) fun _ => True :=
  Halts.perform early fun _ _ => trivial

theorem comesUp_of_log {c : Call} (log : c.isLog) : c.isComingUp := by
  rw [Call.isComingUp, log, Bool.true_or]

theorem Call.prompt_of_bringUp {c : Call} (early : c.isBringUp) : c.isPrompt := by
  cases c with
  | sys s => cases s <;> first | rfl | cases early
  | mem => rfl

theorem prompt_of_comingUp {c : Call} (early : c.isComingUp) : c.isPrompt := by
  rw [Call.isComingUp, Bool.or_eq_true, Bool.and_eq_true] at early
  rcases early with log | ⟨early, -⟩
  · exact prompt_of_log log
  · exact Call.prompt_of_bringUp early

theorem ComesUp.brief {α : Type} {p : Pid1 α} {Q : α → Prop} (h : ComesUp p Q) : Brief p Q :=
  h.subset fun _ early => prompt_of_comingUp early

theorem emit_comesUp {level : Log.Level} {msg : String} :
    ComesUp (Log.emit level msg) fun _ => True :=
  emit_logs.subset fun _ log => comesUp_of_log log

theorem toConsole_comesUp {msg : String} : ComesUp (Log.toConsole msg) fun _ => True :=
  toConsole_logs.subset fun _ log => comesUp_of_log log

theorem sysMount_comesUp {o : MountOpts} : ComesUp (Sys.mount o) fun _ => True := by
  simp only [Sys.mount, Prog.bind_eq, Prog.pure_eq]
  split
  · exact Halts.ret trivial
  · exact Halts.bind (comesUp_sys rfl) fun _ _ => Halts.ret trivial

theorem mountOne_comesUp {v : Mount.Vfs} : ComesUp (Mount.mountOne v) fun _ => True := by
  simp only [Mount.mountOne, Prog.bind_eq, Prog.pure_eq]
  refine Halts.bind (comesUp_sys rfl) fun made _ => ?_
  split
  · exact Halts.ret trivial
  · refine Halts.bind sysMount_comesUp fun mounted _ => ?_
    split
    · exact Halts.ret trivial
    · split <;> exact Halts.ret trivial

theorem mountEach_comesUp (failed : ℕ) (vs : List Mount.Vfs) :
    ComesUp (Mount.mountEach failed vs) fun _ => True := by
  induction vs generalizing failed with
  | nil => exact Halts.ret trivial
  | cons v rest ih =>
      simp only [Mount.mountEach, Prog.bind_eq]
      refine Halts.bind mountOne_comesUp fun mounted _ => ?_
      split
      · exact ih failed
      · exact Halts.bind emit_comesUp fun _ _ => ih (failed + 1)

theorem keepEveryMessage_comesUp : ComesUp Log.keepEveryMessage fun _ => True := by
  simp only [Log.keepEveryMessage, Prog.bind_eq, Prog.pure_eq]
  refine Halts.bind (comesUp_sys rfl) fun written _ => ?_
  split
  · exact Halts.ret trivial
  · exact emit_comesUp

theorem mknodChar_comesUp {path : String} {mode : ℕ} {major minor : BitVec 32} :
    ComesUp (Sys.mknodChar path mode major minor) fun _ => True := by
  simp only [Sys.mknodChar, Prog.bind_eq, Prog.pure_eq]
  split
  · exact Halts.ret trivial
  · exact Halts.bind (comesUp_sys rfl) fun _ _ => Halts.ret trivial

theorem ensureEach_comesUp (nodes : List Console.Node) :
    ComesUp (Console.ensureEach nodes) fun _ => True := by
  induction nodes with
  | nil => exact Halts.ret trivial
  | cons node rest ih =>
      simp only [Console.ensureEach, Prog.bind_eq]
      refine Halts.bind (comesUp_sys rfl) fun found _ => ?_
      split
      · exact ih
      · refine Halts.bind mknodChar_comesUp fun made _ => ?_
        split
        · exact ih
        · exact Halts.bind emit_comesUp fun _ _ => ih

theorem dup2Over_comesUp (fd : Int) (targets : List Int) :
    ComesUp (Sys.dup2Over fd targets) fun _ => True := by
  induction targets with
  | nil => exact Halts.ret trivial
  | cons target rest ih =>
      simp only [Sys.dup2Over, Prog.bind_eq, Prog.pure_eq]
      refine Halts.bind (comesUp_sys rfl) fun r _ => ?_
      split
      · exact Halts.ret trivial
      · exact ih

theorem attachStdio_comesUp : ComesUp Console.attachStdio fun _ => True := by
  simp only [Console.attachStdio, Sys.openRw, Sys.dup2Stdio, Prog.bind_eq, Prog.pure_eq]
  refine Halts.bind (T := fun _ => True) ?_ fun opened _ => ?_
  · split
    · exact Halts.ret trivial
    · exact Halts.bind (comesUp_sys rfl) fun _ _ => Halts.ret trivial
  · split
    · exact Halts.ret trivial
    · refine Halts.bind (dup2Over_comesUp _ _) fun copied _ => ?_
      split
      · exact Halts.ret trivial
      · split
        · exact Halts.bind (comesUp_sys rfl) fun _ _ => Halts.ret trivial
        · exact Halts.ret trivial

theorem takeCtty_comesUp : ComesUp Console.takeCtty fun _ => True := by
  simp only [Console.takeCtty, Sys.takeCtty, Sys.newSession, Sys.setCtty, Prog.bind_eq,
    Prog.bind_assoc, Prog.pure_eq, Prog.ret_bind]
  refine Halts.bind (comesUp_sys rfl) fun _ _ => Halts.bind (comesUp_sys rfl) fun r _ => ?_
  split
  · exact Halts.ret trivial
  · exact emit_comesUp

theorem openConsole_comesUp : ComesUp openConsole fun _ => True := by
  simp only [openConsole, Prog.bind_eq]
  refine Halts.bind attachStdio_comesUp fun attached _ => ?_
  split
  · exact takeCtty_comesUp
  · exact emit_comesUp

theorem takeCtrlAltDel_comesUp : ComesUp takeCtrlAltDel fun _ => True := by
  simp only [takeCtrlAltDel, Sys.disableCtrlAltDel, Prog.bind_eq, Prog.bind_assoc, Prog.pure_eq,
    Prog.ret_bind]
  refine Halts.bind (comesUp_sys rfl) fun r _ => ?_
  split
  · exact Halts.ret trivial
  · exact emit_comesUp

theorem banner_comesUp {failed : ℕ} : ComesUp (banner failed) fun _ => True := by
  simp only [banner, Prog.bind_eq, Prog.pure_eq]
  refine Halts.bind toConsole_comesUp fun _ _ => ?_
  split
  · exact toConsole_comesUp
  · exact Halts.ret trivial

theorem available_comesUp (candidates : List Spec) : ComesUp (available candidates) fun _ => True := by
  induction candidates with
  | nil => exact Halts.ret trivial
  | cons spec rest ih =>
      simp only [available, Prog.bind_eq, Prog.pure_eq]
      refine Halts.bind (comesUp_sys rfl) fun found _ => Halts.bind ih fun usable _ => ?_
      exact Halts.ret trivial

theorem install_brief {signals : List Int} : Brief (install signals) fun _ => True := by
  simp only [install, Sys.blockSignals, Sys.signalFd, Prog.bind_eq, Prog.bind_assoc,
    Prog.pure_eq, Prog.ret_bind]
  refine Halts.bind (brief_sys rfl) fun r _ => ?_
  split
  · exact Halts.ret trivial
  · exact Halts.bind (brief_sys rfl) fun _ _ => Halts.ret trivial

end BringUp

/-! ## In an execution -/

section Followed

variable {K α : Type} {k : Kernel K} {c₀ : Config calls (World K) α} {e : Execution k.semantics c₀}
  {n : ℕ} {w : World K}

theorem did_promised {c : Call} {r : c.Res} (did : e.did n = some ⟨c, r⟩) : Promised c r := by
  obtain ⟨v, -, answer⟩ := Execution.answered did
  exact Kernel.Answers.promised answer

theorem Brief.leads {β : Type} {p : Pid1 β} {Q : β → Prop} (brief : Brief p Q)
    {f : β → Pid1 α} (here : e.conf n = ⟨p.bind f, w⟩) :
    e.Leads (fun c _ => c.isPrompt) n fun m => ∃ b w', Q b ∧ e.conf m = ⟨f b, w'⟩ :=
  Halts.leads (fun _ _ _ did => did_promised did) (fun _ prompt => Call.comes_back prompt)
    brief here

theorem turn_sys {s : Syscall} (prompt : (Call.sys s).isPrompt) {f : s.Res → Pid1 α}
    (here : e.conf n = ⟨(sys s).bind f, w⟩) :
    ∃ r w', e.did n = some ⟨.sys s, r⟩ ∧ e.conf (n + 1) = ⟨f r, w'⟩ :=
  Execution.turn_call (S := calls) (o := Call.sys s) (Call.comes_back prompt) here

theorem turn_mem {o : MemOp} {f : o.Res → Pid1 α} (here : e.conf n = ⟨(mem o).bind f, w⟩) :
    ∃ r w', e.did n = some ⟨.mem o, r⟩ ∧ e.conf (n + 1) = ⟨f r, w'⟩ :=
  Execution.turn_call (S := calls) (o := Call.mem o) (Call.comes_back (c := .mem o) rfl) here

/-- A program that only logs is over in every execution, by calls of the log. -/
theorem OnlyLogs.leads {β : Type} {p : Pid1 β} (logs : OnlyLogs Promised p) {f : β → Pid1 α}
    (here : e.conf n = ⟨p.bind f, w⟩) :
    e.Leads (fun c _ => c.isLog) n fun m => ∃ b w', e.conf m = ⟨f b, w'⟩ :=
  (Halts.leads (fun _ _ _ did => did_promised did)
    (fun _ log => Call.comes_back (prompt_of_log log)) logs here).mono (fun _ _ log => log)
    fun _ _ ⟨b, w', _, there⟩ => ⟨b, w', there⟩

/-- A call of the log changes neither the table nor the kernel, if the kernel's state does not
depend on the files that are written. -/
theorem log_keeps {c : Call} {r : c.Res} {w w' : World K} (log : c.isLog)
    (spares : ∀ {kern s r kern'}, (Call.sys s).isLog → k.answer kern s r kern' → kern' = kern)
    (answer : k.Answers w c r w') : w'.kern = w.kern ∧ w'.mem.table = w.mem.table := by
  cases answer with
  | sys answer => exact ⟨spares log answer, rfl⟩
  | @mem o =>
      refine ⟨rfl, ?_⟩
      cases o with
      | kmsgLoad | kmsgStore => rfl
      | _ => cases log

/-- Neither does a program that only logs, in an execution where nobody else does anything. -/
theorem OnlyLogs.passes {β : Type} {p : Pid1 β} (logs : OnlyLogs Promised p)
    (alone : ∀ w w', ¬ k.semantics.interfere w w')
    (spares : ∀ {kern s r kern'}, (Call.sys s).isLog → k.answer kern s r kern' → kern' = kern)
    {f : β → Pid1 α} (here : e.conf n = ⟨p.bind f, w⟩) :
    ∃ m b w', e.conf m = ⟨f b, w'⟩ ∧ w'.kern = w.kern ∧ w'.mem.table = w.mem.table := by
  have stable : Stable k.semantics fun w' => w'.kern = w.kern ∧ w'.mem.table = w.mem.table :=
    fun _ _ _ others => absurd others (alone _ _)
  have kept : ∀ (c : calls.Op) r (v v' : World K), c.isLog →
      v.kern = w.kern ∧ v.mem.table = w.mem.table → k.semantics.answer v c r v' →
      v'.kern = w.kern ∧ v'.mem.table = w.mem.table := by
    rintro c r v v' log ⟨kern, table⟩ answer
    obtain ⟨kern', table'⟩ := log_keeps log spares answer
    exact ⟨kern'.trans kern, table'.trans table⟩
  obtain ⟨m, -, ⟨⟨b, w', there⟩, same⟩, -⟩ :=
    (logs.leads here).keeps stable kept (by rw [here]; exact ⟨rfl, rfl⟩)
  rw [there] at same
  exact ⟨m, b, w', there, same⟩

end Followed

end Zevory
