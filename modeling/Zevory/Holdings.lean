import Zevory.Kernel

/-!
# The record of the descriptors

Which descriptors pid 1 has opened and not closed, as its calls and their results tell, and
at which stage of this record it makes the calls that open, move and close descriptors or
start a shell.  No kernel is looked at here: `main_keeps` says of every kernel that every call
of the program is one that the record allows.
-/

namespace Zevory

open Interaction Signal Power

/-! ## The record -/

/-- What the record says about the descriptor of `/dev/kmsg`: it is not open, open and about to be
stored, or stored. -/
inductive Cache
  | empty
  | opened (fd : Int)
  | stored (fd : Int)
  deriving DecidableEq, Repr

namespace Cache

def fd : Cache → Option Int
  | .empty => none
  | .opened fd => some fd
  | .stored fd => some fd

def settled : Cache → Bool
  | .opened _ => false
  | _ => true

/-- What `KMSG` holds when the record says this. -/
def known : Cache → Int
  | .stored fd => fd
  | _ => Log.NOT_OPEN_YET

end Cache

/-- What the record says about the other descriptors: the console until it is closed, the signalfd,
whether `attach_stdio` has returned, and whether a `dup2` has failed. -/
structure Stage where
  console : Option Int
  signals : Option Int
  attached : Bool
  failed : Bool
  deriving DecidableEq, Repr

def Stage.start : Stage := ⟨none, none, false, false⟩

structure Holdings where
  kmsg : Cache
  stage : Stage
  deriving DecidableEq, Repr

def Holdings.start : Holdings := ⟨.empty, .start⟩

/-- The record after a call with this result. -/
def Holdings.next (b : Holdings) : (c : Call) → c.Res → Holdings
  | .sys (.openPath path _), r =>
      if path = "/dev/console" then
        if r.rc < 0 then { b with stage.attached := true }
        else { b with stage.console := some r.rc }
      else if r.rc < 0 then b else { b with kmsg := .opened r.rc }
  | .sys (.dup2 _ _), r =>
      if r.rc < 0 then { b with stage.attached := true, stage.failed := true } else b
  | .sys (.close _), _ => { b with stage.attached := true, stage.console := none }
  | .sys (.signalfd _ _ _), r =>
      if r.rc < 0 then b else { b with stage.signals := some r.rc }
  | .mem (.kmsgStore fd), _ => { b with kmsg := .stored fd }
  | _, _ => b

def holdings : List Event → Holdings
  | [] => .start
  | e :: h => (holdings h).next e.call e.res

namespace Call

/-- The calls that leave the record as it is. -/
def isNeutral : Call → Bool
  | .sys (.openPath _ _) => false
  | .sys (.dup2 _ _) => false
  | .sys (.close _) => false
  | .sys (.signalfd _ _ _) => false
  | .mem (.kmsgStore _) => false
  | _ => true

/-- The calls that pass descriptors on to another program. -/
def passesOn : Call → Bool
  | .sys .fork => true
  | .sys (.execv _ _) => true
  | _ => false

end Call

/-- The calls that the record allows next. A descriptor is only opened where none of its kind is
held, and only passed on when nothing is about to be stored. -/
def Holdings.allows (b : Holdings) : Call → Prop
  | .mem (.kmsgStore fd) => b.kmsg = .opened fd
  | .sys (.openPath path flags) =>
      path = "/dev/kmsg" ∧ flags &&& O_CLOEXEC ≠ 0 ∧ b.kmsg = .empty ∨
        path = "/dev/console" ∧ flags &&& O_CLOEXEC = 0 ∧ b.kmsg.settled ∧ b.stage = .start
  | .sys (.dup2 fd target) =>
      b.kmsg.settled ∧ b.stage = ⟨some fd, none, false, false⟩ ∧ 0 ≤ target ∧ target ≤ STDERR_FILENO
  | .sys (.close fd) => b.kmsg.settled ∧ b.stage = ⟨some fd, none, false, false⟩
  | .sys (.signalfd fd _ flags) =>
      b.kmsg.settled ∧ fd = -1 ∧ flags &&& SFD_CLOEXEC ≠ 0 ∧ b.stage.signals = none ∧
        b.stage.attached
  | c => b.kmsg.settled ∧ (c.passesOn → b.stage.attached)

theorem Holdings.next_neutral {c : Call} (neutral : c.isNeutral) (b : Holdings) (r : c.Res) :
    b.next c r = b := by
  cases c with
  | sys s => cases s <;> first | rfl | cases neutral
  | mem o => cases o <;> first | rfl | cases neutral

theorem Holdings.allows_neutral {c : Call} (neutral : c.isNeutral) {b : Holdings}
    (settled : b.kmsg.settled)
    (late : c.passesOn → b.stage.attached) : b.allows c := by
  cases c with
  | sys s => cases s <;> first | exact ⟨settled, late⟩ | cases neutral
  | mem o => cases o <;> first | exact ⟨settled, late⟩ | cases neutral

/-! ## The program between two uses of the log -/

variable {K : Type} {k : Kernel K} {s : Stage}

/-- The call is one that the record of the calls before it allows. -/
def Allowed (c : Call) (w : World K) : Prop := (holdings w.hist).allows c

/-- The record is at the stage with nothing about to be stored, and the memory agrees with it. -/
structure Settled (s : Stage) (w : World K) : Prop where
  stage : (holdings w.hist).stage = s
  settled : (holdings w.hist).kmsg.settled
  known : w.mem.kmsg = (holdings w.hist).kmsg.known
  real : (holdings w.hist).kmsg ≠ .stored Log.NOT_OPEN_YET

/-- `p` makes only calls that the record allows, and leaves the record at the stage it was at. -/
abbrev Keeps (k : Kernel K) (s : Stage) {α : Type} (p : Pid1 α) : Prop :=
  Triple k.semantics Allowed (Settled s) p fun _ => Settled s

theorem settled_stable : Stable k.semantics (Settled s) := by
  rintro w w' ⟨stage, settled, known, real⟩ ⟨kern, -, rfl⟩
  exact ⟨stage, settled, known, real⟩

section Rules

variable {α β σ : Type}

theorem keeps_ret {a : α} : Keeps k s (.ret a) :=
  Triple.ret (Q := fun _ => Settled s) settled_stable

theorem keeps_bind {p : Pid1 α} {f : α → Pid1 β} (first : Keeps k s p)
    (rest : ∀ a, Keeps k s (f a)) : Keeps k s (p.bind f) :=
  Triple.bind first rest

theorem keeps_iterate {body : σ → Pid1 (σ ⊕ β)} {x : σ} (round : ∀ x, Keeps k s (body x)) :
    Keeps k s (Prog.iterate body x) := by
  refine Triple.iterate (fun _ => Settled s) (fun _ => settled_stable) (fun _ => settled_stable)
    fun x => (round x).post ?_
  intro next w settled
  cases next <;> exact settled

end Rules

/-- The cached descriptor is only changed by the operation that stores one. -/
theorem run_kmsg {o : MemOp} (neutral : (Call.mem o).isNeutral) (now : ℕ) (m : Mem) :
    (o.run now m).2.kmsg = m.kmsg := by
  cases o <;> first | rfl | cases neutral

theorem settled_answer {c : Call} (neutral : c.isNeutral) {w w' : World K} {r : c.Res}
    (settled : Settled s w) (answer : k.Answers w c r w') : Settled s w' := by
  have same : holdings w'.hist = holdings w.hist := by
    rw [answer.hist]
    exact Holdings.next_neutral neutral _ r
  have memory : w'.mem.kmsg = w.mem.kmsg := by
    cases answer with
    | sys => rfl
    | mem => exact run_kmsg neutral _ _
  obtain ⟨stage, settled, known, real⟩ := settled
  exact ⟨by rw [same, stage], by rw [same, settled], by rw [same, memory, known], by rwa [same]⟩

theorem keeps_call {c : Call} (neutral : c.isNeutral) (late : c.passesOn → s.attached) :
    Keeps k s (Prog.perform (S := calls) c) := by
  refine Triple.keep settled_stable (fun w settled => ?_) fun w r w' settled answer => ?_
  · refine Holdings.allows_neutral neutral settled.settled ?_
    rw [settled.stage]
    exact late
  · exact settled_answer neutral settled answer

/-- A system call that leaves the record as it is and passes nothing on. -/
theorem keeps_sys {s' : Syscall} (neutral : (Call.sys s').isNeutral)
    (plain : (Call.sys s').passesOn = false) : Keeps k s (sys s') := by
  refine keeps_call neutral fun passes => ?_
  rw [plain] at passes
  cases passes

theorem keeps_mem {o : MemOp} (neutral : (Call.mem o).isNeutral) : Keeps k s (mem o) :=
  keeps_call neutral fun passes => Bool.noConfusion passes

/-! ## `log.rs` -/

/-- `/dev/kmsg` was opened at `fd`, and this is not stored yet. -/
structure Opened (s : Stage) (fd : Int) (w : World K) : Prop where
  holdings : holdings w.hist = ⟨.opened fd, s⟩
  known : w.mem.kmsg = Log.NOT_OPEN_YET
  real : 0 ≤ fd

theorem opened_stable {fd : Int} : Stable k.semantics (Opened s fd) := by
  rintro w w' ⟨holdings, known, real⟩ ⟨kern, -, rfl⟩
  exact ⟨holdings, known, real⟩

/-- When `KMSG` holds no descriptor, the record says that none is open. -/
theorem empty_of_known {w : World K} (settled : Settled s w)
    (unknown : w.mem.kmsg = Log.NOT_OPEN_YET) : (holdings w.hist).kmsg = .empty := by
  have known := settled.known
  have real := settled.real
  have calm := settled.settled
  rw [unknown] at known
  cases cache : (holdings w.hist).kmsg with
  | empty => rfl
  | opened fd =>
      rw [cache] at calm
      cases calm
  | stored fd =>
      rw [cache] at known real
      exact absurd (congrArg Cache.stored known.symm) real

/-- The operation that stores the descriptor is allowed right after it was opened. -/
theorem store_keeps {fd : Int} :
    Triple k.semantics Allowed (Opened s fd) (mem (.kmsgStore fd)) fun _ => Settled s := by
  refine Triple.perform opened_stable (fun w opened => ?_) (fun w r w' opened answer => ?_)
    fun _ => settled_stable
  · show (holdings w.hist).kmsg = .opened fd
    rw [opened.holdings]
  · have after : holdings w'.hist = ⟨.stored fd, s⟩ := by
      rw [answer.hist, holdings, opened.holdings]
      rfl
    have known : w'.mem.kmsg = fd := by
      cases answer with
      | mem => rfl
    have real := opened.real
    refine ⟨by rw [after], by rw [after]; rfl, by rw [after, known]; rfl, ?_⟩
    rw [after]
    intro same
    cases same
    exact absurd real (by decide)

/-- What an attempt to open `/dev/kmsg` leaves behind: a descriptor to store, or the stage as it
was. -/
def OpenedOr (s : Stage) (fd? : Except IoError Int) (w : World K) : Prop :=
  match fd? with
  | .ok fd => Opened s fd w
  | .error _ => Settled s w

theorem openedOr_stable {fd? : Except IoError Int} : Stable k.semantics (OpenedOr s fd?) := by
  cases fd? with
  | ok fd => exact opened_stable
  | error e => exact settled_stable

theorem known_stable (known : Int) :
    Stable k.semantics fun w => Settled s w ∧ w.mem.kmsg = known :=
  settled_stable.and (Kernel.stable_private (P := fun m _ => m.kmsg = known))

/-- `/dev/kmsg` may be opened when no descriptor of it is stored. -/
theorem openKmsg_holdings :
    Triple k.semantics Allowed (fun w => Settled s w ∧ w.mem.kmsg = Log.NOT_OPEN_YET)
      (Sys.openAppend "/dev/kmsg") (OpenedOr s) := by
  have plain : Sys.cstr "/dev/kmsg" = .ok "/dev/kmsg" := by decide
  simp only [Sys.openAppend, plain, Prog.bind_eq, Prog.pure_eq]
  refine Triple.bind (R := fun r => OpenedOr s (Sys.checkFd r))
    (Triple.perform (known_stable _) ?_ ?_ fun _ => openedOr_stable)
    fun r => Triple.ret openedOr_stable
  · rintro w ⟨settled, unknown⟩
    exact .inl ⟨rfl, by decide, empty_of_known settled unknown⟩
  · rintro w r w' ⟨settled, unknown⟩ answer
    have empty := empty_of_known settled unknown
    have memory : w'.mem.kmsg = w.mem.kmsg := by
      cases answer with
      | sys => rfl
    have before : holdings w.hist = ⟨.empty, s⟩ := by
      rw [← settled.stage, ← empty]
    have after : holdings w'.hist = if r.rc < 0 then ⟨.empty, s⟩ else ⟨.opened r.rc, s⟩ := by
      rw [answer.hist, holdings, before]
      rfl
    unfold Sys.checkFd
    by_cases failed : r.rc < 0
    · rw [if_pos failed] at after ⊢
      refine ⟨by rw [after], by rw [after]; rfl, by rw [after, memory, unknown]; rfl, ?_⟩
      rw [after]
      exact Cache.noConfusion
    · rw [if_neg failed] at after ⊢
      exact ⟨after, memory.trans unknown, by omega⟩

theorem kmsg_keeps : Keeps k s Log.kmsg := by
  simp only [Log.kmsg, Prog.bind_eq, Prog.pure_eq]
  refine Triple.bind (R := fun known w => Settled s w ∧ w.mem.kmsg = known)
    (Triple.perform settled_stable ?_ ?_ known_stable) fun known => ?_
  · intro w settled
    exact Holdings.allows_neutral rfl settled.settled fun passes => Bool.noConfusion passes
  · intro w r w' settled answer
    refine ⟨settled_answer rfl settled answer, ?_⟩
    cases answer with
    | mem => rfl
  split
  · exact keeps_ret.pre fun w both => both.1
  · rename_i unknown
    rw [not_not] at unknown
    subst unknown
    refine Triple.bind openKmsg_holdings fun fd? => ?_
    cases fd? with
    | error e => exact keeps_ret
    | ok fd => exact Triple.bind store_keeps fun _ => keeps_ret

theorem writeFd_keeps {fd : Int} {bytes : List UInt8} : Keeps k s (Sys.writeFd fd bytes) := by
  refine keeps_iterate fun done => ?_
  simp only [Sys.writeRound, Prog.bind_eq, Prog.pure_eq]
  split
  · split
    · refine keeps_bind (keeps_sys rfl rfl) fun n => ?_
      split <;> exact keeps_ret
    · exact keeps_bind (keeps_sys rfl rfl) fun never => never.elim
  · exact keeps_ret

theorem emit_keeps {level : Log.Level} {msg : String} : Keeps k s (Log.emit level msg) := by
  simp only [Log.emit, Log.writeToKmsg, Prog.bind_eq, Prog.pure_eq]
  refine keeps_bind (keeps_bind kmsg_keeps fun fd => ?_) fun sent => ?_
  · split
    · exact keeps_ret
    · exact writeFd_keeps
  · split
    · exact keeps_ret
    · exact keeps_bind writeFd_keeps fun _ => keeps_ret

theorem toConsole_keeps {msg : String} : Keeps k s (Log.toConsole msg) := by
  simp only [Log.toConsole, Prog.bind_eq, Prog.pure_eq]
  exact keeps_bind writeFd_keeps fun _ => keeps_ret

theorem keepEveryMessage_keeps : Keeps k s Log.keepEveryMessage := by
  simp only [Log.keepEveryMessage, Prog.bind_eq, Prog.pure_eq]
  refine keeps_bind (keeps_sys rfl rfl) fun r => ?_
  split
  · exact keeps_ret
  · exact emit_keeps

/-! ## `mount.rs` and `console.rs` -/

theorem mountOne_keeps {v : Mount.Vfs} : Keeps k s (Mount.mountOne v) := by
  simp only [Mount.mountOne, Sys.mount, Prog.bind_eq, Prog.pure_eq]
  refine keeps_bind (keeps_sys rfl rfl) fun r => ?_
  split
  · exact keeps_ret
  · refine keeps_bind ?_ fun r => ?_
    · split
      · exact keeps_ret
      · exact keeps_bind (keeps_sys rfl rfl) fun _ => keeps_ret
    · split
      · exact keeps_ret
      · split <;> exact keeps_ret

theorem mountEach_keeps {table : List Mount.Vfs} {failed : ℕ} :
    Keeps k s (Mount.mountEach failed table) := by
  induction table generalizing failed with
  | nil => exact keeps_ret
  | cons v rest ih =>
      simp only [Mount.mountEach, Prog.bind_eq]
      refine keeps_bind mountOne_keeps fun r => ?_
      split
      · exact ih
      · exact keeps_bind emit_keeps fun _ => ih

theorem ensureEach_keeps {nodes : List Console.Node} : Keeps k s (Console.ensureEach nodes) := by
  induction nodes with
  | nil => exact keeps_ret
  | cons node rest ih =>
      simp only [Console.ensureEach, Sys.mknodChar, Prog.bind_eq, Prog.pure_eq]
      refine keeps_bind (keeps_sys rfl rfl) fun there => ?_
      split
      · exact ih
      · refine keeps_bind ?_ fun r => ?_
        · split
          · exact keeps_ret
          · exact keeps_bind (keeps_sys rfl rfl) fun _ => keeps_ret
        · split
          · exact ih
          · exact keeps_bind emit_keeps fun _ => ih

theorem takeCtty_keeps : Keeps k s Console.takeCtty := by
  simp only [Console.takeCtty, Sys.takeCtty, Sys.newSession, Sys.setCtty, Prog.bind_eq,
    Prog.pure_eq]
  refine keeps_bind (keeps_bind (keeps_bind (keeps_sys rfl rfl) fun _ => keeps_ret) fun _ => ?_)
    fun r => ?_
  · exact keeps_bind (keeps_sys rfl rfl) fun _ => keeps_ret
  · split
    · exact keeps_ret
    · exact emit_keeps

/-! ## `attach_stdio` -/

/-- The stage at which `dup2_stdio` copies the console. -/
def Stage.moving (fd : Int) : Stage := ⟨some fd, none, false, false⟩

/-- The stage after the attempt to open the console. -/
def Stage.opening (fd? : Except IoError Int) : Stage :=
  match fd? with
  | .ok fd => .moving fd
  | .error _ => ⟨none, none, true, false⟩

/-- The stage after the loop over the targets of `dup2_stdio`. -/
def Stage.moved (fd : Int) (r : Except IoError Unit) : Stage :=
  match r with
  | .ok () => .moving fd
  | .error _ => ⟨some fd, none, true, true⟩

/-- A system call after which the record is at another stage, whatever is cached. -/
theorem settled_sys {s' : Syscall} {r : s'.Res} {after : Stage} {w w' : World K}
    (settled : Settled s w) (answer : k.Answers w (.sys s') r w')
    (recorded : ∀ cache, Holdings.next ⟨cache, s⟩ (.sys s') r = ⟨cache, after⟩) :
    Settled after w' := by
  obtain ⟨stage, calm, known, real⟩ := settled
  have before : holdings w.hist = ⟨(holdings w.hist).kmsg, s⟩ := by rw [← stage]
  have same : holdings w'.hist = ⟨(holdings w.hist).kmsg, after⟩ := by
    rw [answer.hist, holdings, ← recorded, ← before]
  have memory : w'.mem.kmsg = w.mem.kmsg := by
    cases answer with
    | sys => rfl
  exact ⟨by rw [same], by rw [same, calm], by rw [same, memory, known], by rwa [same]⟩

theorem openConsole_holdings :
    Triple k.semantics Allowed (Settled .start) (Sys.openRw "/dev/console")
      fun fd? w => Settled (.opening fd?) w ∧ ∀ fd, fd? = .ok fd → STDERR_FILENO < fd := by
  have plain : Sys.cstr "/dev/console" = .ok "/dev/console" := by decide
  simp only [Sys.openRw, plain, Prog.bind_eq, Prog.pure_eq]
  have stable : ∀ fd? : Except IoError Int, Stable k.semantics fun w =>
      Settled (.opening fd?) w ∧ ∀ fd, fd? = .ok fd → STDERR_FILENO < fd :=
    fun fd? => settled_stable.and (Stable.const _)
  refine Triple.bind
    (R := fun r w => Settled (.opening (Sys.checkFd r)) w ∧
      ∀ fd, Sys.checkFd r = .ok fd → STDERR_FILENO < fd)
    (Triple.perform settled_stable ?_ ?_ fun r => stable (Sys.checkFd r))
    fun r w both w' others => (stable (Sys.checkFd r)).star both others
  · intro w settled
    exact .inr ⟨rfl, by decide, settled.settled, settled.stage⟩
  · intro w r w' settled answer
    have high : r.rc < 0 ∨ STDERR_FILENO < r.rc := answer.promised
    constructor
    · refine settled_sys settled answer fun cache => ?_
      rw [Holdings.next, if_pos rfl, Sys.checkFd]
      split <;> rfl
    · intro fd opened
      rw [Sys.checkFd] at opened
      split at opened
      · cases opened
      · cases opened
        rcases high with failed | high
        · contradiction
        · exact high

/-- The loop of `dup2_stdio` copies to standard descriptors only, and makes no call after the first
failure. -/
theorem dup2Over_holdings {fd : Int} {targets : List Int}
    (standard : ∀ t ∈ targets, 0 ≤ t ∧ t ≤ STDERR_FILENO) :
    Triple k.semantics Allowed (Settled (.moving fd)) (Sys.dup2Over fd targets)
      fun r => Settled (.moved fd r) := by
  induction targets with
  | nil => exact fun w settled w' others => settled_stable.star settled others
  | cons target rest ih =>
      simp only [Sys.dup2Over, Prog.bind_eq, Prog.pure_eq]
      refine Triple.bind
        (R := fun r => Settled (.moved fd (if r.rc < 0 then .error (Sys.lastOsError r) else .ok ())))
        (Triple.perform settled_stable ?_ ?_ fun _ => settled_stable) fun r => ?_
      · intro w settled
        exact ⟨settled.settled, settled.stage, standard target List.mem_cons_self⟩
      · intro w r w' settled answer
        refine settled_sys settled answer fun cache => ?_
        rw [Holdings.next]
        split <;> rfl
      · split
        · exact fun w settled w' others => settled_stable.star settled others
        · exact ih fun t member => standard t (List.mem_cons_of_mem _ member)

/-- `attach_stdio` has returned, and there is no signalfd yet. -/
def Late (w : World K) : Prop :=
  ∃ s : Stage, s.attached = true ∧ s.signals = none ∧ Settled s w

theorem attachStdio_holdings :
    Triple k.semantics Allowed (Settled .start) Console.attachStdio fun _ => Late := by
  have returned : ∀ {s : Stage} {a : Except IoError Unit}, s.attached = true → s.signals = none →
      Triple k.semantics Allowed (Settled s) (.ret a) fun _ => Late :=
    fun attached vacant => (keeps_ret).post fun _ w settled => ⟨_, attached, vacant, settled⟩
  simp only [Console.attachStdio, Sys.dup2Stdio, Prog.bind_eq, Prog.pure_eq]
  refine Triple.bind openConsole_holdings fun fd? => ?_
  cases fd? with
  | error e => exact (returned rfl rfl).pre fun w both => both.1
  | ok fd =>
      -- the console is never one of the standard descriptors itself
      rintro w ⟨moving, high⟩
      have moves : STDERR_FILENO < fd := high fd rfl
      refine Triple.bind (dup2Over_holdings (by decide)) (fun r => ?_) w moving
      cases r with
      | error e => exact returned rfl rfl
      | ok =>
          simp only []
          rw [if_pos moves]
          refine Triple.bind (R := fun _ => Settled ⟨none, none, true, false⟩)
            (Triple.perform settled_stable ?_ ?_ fun _ => settled_stable) fun _ => returned rfl rfl
          · intro w settled
            exact ⟨settled.settled, settled.stage⟩
          · intro w r w' settled answer
            exact settled_sys settled answer fun cache => rfl

/-! ## The rest of the bring-up -/

/-- What keeps every stage after `attach_stdio` keeps this as well. -/
theorem late_of_keeps {α : Type} {p : Pid1 α} (keeps : ∀ s : Stage, s.attached → Keeps k s p) :
    Triple k.semantics Allowed Late p fun _ => Late := by
  rintro w ⟨s, attached, vacant, settled⟩
  refine (keeps s attached w settled).mono fun _ w' settled' => ?_
  exact ⟨s, attached, vacant, settled'⟩

theorem pauseForever_keeps {α : Type} : Keeps k s (pauseForever : Pid1 α) := by
  refine keeps_iterate fun _ => ?_
  simp only [Prog.bind_eq, Prog.pure_eq]
  exact keeps_bind (keeps_sys rfl rfl) fun _ => keeps_ret

theorem park_keeps {α : Type} {why : String} : Keeps k s (park why : Pid1 α) := by
  simp only [park, Sys.enableCtrlAltDel, Prog.bind_eq, Prog.pure_eq]
  refine keeps_bind (keeps_bind (keeps_sys rfl rfl) fun _ => keeps_ret) fun enabled => ?_
  exact keeps_bind emit_keeps fun _ => keeps_bind toConsole_keeps fun _ => pauseForever_keeps

theorem openConsole_late :
    Triple k.semantics Allowed (Settled .start) openConsole fun _ => Late := by
  simp only [openConsole, Prog.bind_eq]
  refine Triple.bind attachStdio_holdings fun r => ?_
  split
  · exact late_of_keeps fun _ _ => takeCtty_keeps
  · exact late_of_keeps fun _ _ => emit_keeps

/-- The record when `attach_stdio` has returned and nothing is about to be stored. -/
def Complete (w : World K) : Prop := ∃ s : Stage, s.attached = true ∧ Settled s w

theorem complete_of_late {w : World K} (late : Late w) : Complete w := by
  obtain ⟨s, attached, -, settled⟩ := late
  exact ⟨s, attached, settled⟩

theorem complete_of_keeps {α : Type} {p : Pid1 α} (keeps : ∀ s : Stage, s.attached → Keeps k s p) :
    Triple k.semantics Allowed Complete p fun _ => Complete := by
  rintro w ⟨s, attached, settled⟩
  refine (keeps s attached w settled).mono fun _ w' settled' => ?_
  exact ⟨s, attached, settled'⟩

/-- The signalfd is opened when there is none yet. -/
theorem signalFd_complete {signals : List Int} :
    Triple k.semantics Allowed Late (Sys.signalFd signals) fun _ => Complete := by
  rintro w ⟨s, attached, vacant, settled⟩
  simp only [Sys.signalFd, Prog.bind_eq, Prog.pure_eq]
  refine Triple.bind
    (R := fun r => Settled (if r.rc < 0 then s else { s with signals := some r.rc }))
    (Triple.perform settled_stable ?_ ?_ fun _ => settled_stable) (fun r => ?_) w settled
  · rintro w ⟨rfl, calm, -, -⟩
    exact ⟨calm, rfl, by decide, vacant, attached⟩
  · intro w r w' settled answer
    refine settled_sys settled answer fun cache => ?_
    rw [Holdings.next]
    split <;> rfl
  · refine keeps_ret.post fun _ w' settled' => ⟨_, ?_, settled'⟩
    split <;> exact attached

theorem watchSignals_complete :
    Triple k.semantics Allowed Late watchSignals fun _ => Complete := by
  simp only [watchSignals, install, Sys.blockSignals, Prog.bind_eq, Prog.pure_eq]
  refine Triple.bind (R := fun _ => Complete) (Triple.bind (R := fun _ => Late) ?_ fun r => ?_)
    fun r => ?_
  · exact late_of_keeps fun _ _ => keeps_bind (keeps_sys rfl rfl) fun _ => keeps_ret
  · split
    · exact (late_of_keeps fun _ _ => keeps_ret).post fun _ w late => complete_of_late late
    · exact Triple.bind signalFd_complete fun _ => complete_of_keeps fun _ _ => keeps_ret
  · split
    · exact complete_of_keeps fun _ _ => keeps_ret
    · exact complete_of_keeps fun _ _ => park_keeps

theorem takeCtrlAltDel_keeps : Keeps k s takeCtrlAltDel := by
  simp only [takeCtrlAltDel, Sys.disableCtrlAltDel, Prog.bind_eq, Prog.pure_eq]
  refine keeps_bind (keeps_bind (keeps_sys rfl rfl) fun _ => keeps_ret) fun r => ?_
  split
  · exact keeps_ret
  · exact emit_keeps

theorem banner_keeps {failed : ℕ} : Keeps k s (banner failed) := by
  simp only [banner, Prog.bind_eq, Prog.pure_eq]
  refine keeps_bind toConsole_keeps fun _ => ?_
  split
  · exact toConsole_keeps
  · exact keeps_ret

theorem bringUp_complete :
    Triple k.semantics Allowed (Settled .start) bringUp fun _ => Complete := by
  simp only [bringUp, Mount.mountAll, Console.ensureNodes, Prog.bind_eq, Prog.pure_eq]
  refine Triple.bind mountEach_keeps fun failed => ?_
  refine Triple.bind keepEveryMessage_keeps fun _ => ?_
  refine Triple.bind ensureEach_keeps fun _ => ?_
  refine Triple.bind openConsole_late fun _ => ?_
  refine Triple.bind watchSignals_complete fun signals => ?_
  exact complete_of_keeps fun _ _ => keeps_bind takeCtrlAltDel_keeps fun _ =>
    keeps_bind banner_keeps fun _ => keeps_ret

/-! ## Shells -/

theorem available_keeps {candidates : List Spec} : Keeps k s (available candidates) := by
  induction candidates with
  | nil => exact keeps_ret
  | cons spec rest ih =>
      simp only [available, Prog.bind_eq, Prog.pure_eq]
      exact keeps_bind (keeps_sys rfl rfl) fun _ => keeps_bind ih fun _ => keeps_ret

theorem newRescue_keeps {candidates : List Spec} : Keeps k s (newRescue candidates) := by
  simp only [newRescue, Prog.bind_eq]
  refine keeps_bind available_keeps fun usable => ?_
  split
  · exact keeps_mem rfl
  · exact park_keeps

theorem rescueShell_keeps : Keeps k s rescueShell := by
  simp only [rescueShell, Sys.panic, Prog.bind_eq, Prog.pure_eq]
  refine keeps_bind (keeps_mem rfl) fun shell => ?_
  split
  · exact keeps_ret
  · exact keeps_bind (keeps_sys rfl rfl) fun never => never.elim

theorem rescueFailed_keeps : Keeps k s rescueFailed := by
  simp only [rescueFailed, Sys.panic, Prog.bind_eq, Prog.pure_eq]
  refine keeps_bind (keeps_mem rfl) fun verdict => ?_
  split
  · exact keeps_ret
  · exact keeps_bind (keeps_sys rfl rfl) fun never => never.elim

theorem exec_keeps {path : String} {args : List String} (attached : s.attached) :
    Keeps k s (Sys.exec path args) := by
  simp only [Sys.exec, Prog.bind_eq, Prog.pure_eq]
  split
  · exact keeps_ret
  · split
    · exact keeps_ret
    · exact keeps_bind (keeps_call rfl fun _ => attached) fun _ => keeps_ret

/-- The child passes on what it was given, and opens `/dev/kmsg` only when its `execv` has failed.
-/
theorem childMain_keeps {α : Type} {spec : Spec} (attached : s.attached) :
    Keeps k s (Proc.childMain spec : Pid1 α) := by
  have fails : Keeps k s ((Sys.exec spec.path spec.argv).bind fun failure =>
      (Log.error s!"could not exec {spec.path}: {failure}").bind fun _ =>
        (Sys.exitChild 127 : Pid1 α)) := by
    refine keeps_bind (exec_keeps attached) fun failure => keeps_bind emit_keeps fun _ => ?_
    simp only [Sys.exitChild, Prog.bind_eq]
    exact keeps_bind (keeps_sys rfl rfl) fun never => never.elim
  simp only [Proc.childMain, Sys.unblockAllSignals, Sys.newSession, Sys.setCtty, Prog.bind_eq,
    Prog.pure_eq]
  refine keeps_bind (keeps_bind (keeps_sys rfl rfl) fun _ => keeps_ret) fun _ => ?_
  split
  · refine keeps_bind (keeps_bind (keeps_sys rfl rfl) fun _ => keeps_ret) fun _ => ?_
    exact keeps_bind (keeps_bind (keeps_sys rfl rfl) fun _ => keeps_ret) fun _ => fails
  · exact fails

theorem spawn_keeps {spec : Spec} (attached : s.attached) : Keeps k s (Table.spawn spec) := by
  simp only [Table.spawn, Proc.spawn, Sys.fork, Prog.bind_eq, Prog.pure_eq]
  refine keeps_bind (keeps_bind (keeps_bind (keeps_call rfl fun _ => attached) fun r => ?_)
    fun fork => ?_) fun pid => ?_
  · split
    · exact keeps_ret
    · split <;> exact keeps_ret
  · split
    · exact keeps_ret
    · exact keeps_ret
    · exact childMain_keeps attached
  · split
    · exact keeps_ret
    · exact keeps_bind (keeps_mem rfl) fun _ => keeps_ret

theorem startShell_keeps (attached : s.attached) : Keeps k s startShell := by
  simp only [startShell, Prog.bind_eq, Prog.pure_eq]
  refine keeps_bind rescueShell_keeps fun shell => keeps_bind (spawn_keeps attached) fun r => ?_
  split
  · exact keeps_ret
  · exact keeps_bind rescueShell_keeps fun _ => park_keeps

/-! ## `signal.rs` and `power.rs` -/

theorem wait_keeps {signals : Signals} {millis : Int} : Keeps k s (signals.wait millis) := by
  simp only [Signals.wait, Sys.pollReadable, Sys.readSignal, Prog.bind_eq, Prog.pure_eq]
  refine keeps_bind (keeps_bind (keeps_sys rfl rfl) fun r => ?_) fun ready => ?_
  · split
    · exact keeps_ret
    · split <;> exact keeps_ret
  · split
    · exact keeps_ret
    · refine keeps_bind (keeps_bind (keeps_sys rfl rfl) fun r => ?_) fun _ => keeps_ret
      split
      · exact keeps_ret
      · split <;> exact keeps_ret
    · exact keeps_ret

theorem logDeparted_keeps {gone : Departed} : Keeps k s (logDeparted gone) := by
  unfold logDeparted
  split
  · exact emit_keeps
  · exact emit_keeps
  · exact keeps_ret

theorem reapAll_keeps : Keeps k s reapAll := by
  simp only [reapAll, Prog.bind_eq, Prog.pure_eq]
  refine keeps_bind (keeps_iterate fun shortestLife => ?_) fun _ =>
    keeps_bind (keeps_mem rfl) fun _ => keeps_ret
  simp only [reapRound, Sys.reapOne, Prog.bind_eq, Prog.pure_eq]
  refine keeps_bind (keeps_bind (keeps_sys rfl rfl) fun _ => keeps_ret) fun reaped => ?_
  split
  · exact keeps_ret
  · exact keeps_ret
  · refine keeps_bind (keeps_mem rfl) fun gone? => ?_
    split
    · exact keeps_bind emit_keeps fun _ => keeps_ret
    · exact keeps_bind logDeparted_keeps fun _ => keeps_ret

theorem giveUpOrFallBack_keeps : Keeps k s giveUpOrFallBack := by
  simp only [giveUpOrFallBack, Prog.bind_eq, Prog.pure_eq]
  refine keeps_bind rescueShell_keeps fun dying => keeps_bind rescueFailed_keeps fun verdict => ?_
  split
  · exact keeps_ret
  · exact emit_keeps
  · exact park_keeps

theorem account_keeps {shortestLife : Option ℕ} : Keeps k s (account shortestLife) := by
  unfold account
  split
  · exact keeps_ret
  · split
    · exact keeps_mem rfl
    · simp only [Sys.monotonicSecs, Sys.addU64, Prog.bind_eq, Prog.pure_eq]
      refine keeps_bind (keeps_sys rfl rfl) fun now => keeps_bind keeps_ret fun _ => ?_
      exact keeps_bind (keeps_mem rfl) fun _ => giveUpOrFallBack_keeps

theorem heed_keeps {signal : Int} : Keeps k s (heed signal) := by
  unfold heed
  split
  · exact keeps_bind reapAll_keeps fun _ => keeps_bind account_keeps fun _ => keeps_ret
  · exact keeps_bind emit_keeps fun _ => keeps_ret
  · exact keeps_ret
  · exact keeps_bind emit_keeps fun _ => keeps_ret

theorem superviseRound_keeps {signals : Signals} (attached : s.attached) :
    Keeps k s (superviseRound signals) := by
  simp only [superviseRound, startIfDue, Sys.monotonicSecs, Prog.bind_eq, Prog.pure_eq]
  refine keeps_bind (keeps_mem rfl) fun running => keeps_bind ?_ fun _ => ?_
  · split
    · refine keeps_bind (keeps_sys rfl rfl) fun now => keeps_bind (keeps_mem rfl) fun _ => ?_
      split
      · exact startShell_keeps attached
      · exact keeps_ret
    · exact keeps_ret
  · refine keeps_bind wait_keeps fun arrived => ?_
    split
    · exact heed_keeps
    · exact keeps_ret
    · split
      · exact keeps_ret
      · exact park_keeps

theorem hangUp_keeps {leaders : List Int} : Keeps k s (hangUp leaders) := by
  induction leaders with
  | nil => exact keeps_ret
  | cons leader rest ih =>
      simp only [hangUp, Sys.signalGroup, Prog.bind_eq, Prog.pure_eq]
      exact keeps_bind (keeps_bind (keeps_sys rfl rfl) fun _ => keeps_ret) fun _ => ih

theorem signalEveryone_keeps {signal : Int} : Keeps k s (Sys.signalEveryone signal) := by
  simp only [Sys.signalEveryone, Prog.bind_eq, Prog.pure_eq]
  exact keeps_bind (keeps_sys rfl rfl) fun _ => keeps_ret

theorem waitForSilence_keeps {signals : Signals} {secs : ℕ} :
    Keeps k s (waitForSilence signals secs) := by
  simp only [waitForSilence, Sys.monotonicSecs, Sys.addU64, Prog.bind_eq, Prog.pure_eq]
  refine keeps_bind (keeps_sys rfl rfl) fun now => keeps_bind keeps_ret fun deadline => ?_
  refine keeps_iterate fun _ => ?_
  simp only [silenceRound, Sys.monotonicSecs, Prog.bind_eq, Prog.pure_eq]
  refine keeps_bind reapAll_keeps fun harvest => ?_
  split
  · exact keeps_ret
  · refine keeps_bind (keeps_sys rfl rfl) fun now => ?_
    split
    · exact keeps_ret
    · refine keeps_bind wait_keeps fun arrived => ?_
      split
      · split
        · exact keeps_bind emit_keeps fun _ => keeps_ret
        · exact keeps_ret
      · exact keeps_ret

theorem stopEverything_keeps {signals : Signals} : Keeps k s (stopEverything signals) := by
  simp only [stopEverything, Prog.bind_eq, Prog.pure_eq]
  refine keeps_bind reapAll_keeps fun harvest => ?_
  split
  · exact keeps_ret
  · refine keeps_bind toConsole_keeps fun _ => keeps_bind (keeps_mem rfl) fun leaders => ?_
    refine keeps_bind hangUp_keeps fun _ => keeps_bind signalEveryone_keeps fun _ => ?_
    refine keeps_bind signalEveryone_keeps fun _ => keeps_bind waitForSilence_keeps fun silent => ?_
    split
    · exact keeps_ret
    · refine keeps_bind emit_keeps fun _ => keeps_bind toConsole_keeps fun _ => ?_
      refine keeps_bind signalEveryone_keeps fun _ => keeps_bind waitForSilence_keeps fun _ => ?_
      split
      · exact keeps_ret
      · exact emit_keeps

theorem execute_keeps {action : Action} {signals : Signals} :
    Keeps k s (Power.execute action signals) := by
  simp only [Power.execute, Sys.flushFilesystems, Sys.handOverToKernel, Prog.bind_eq, Prog.pure_eq]
  refine keeps_bind toConsole_keeps fun _ => keeps_bind emit_keeps fun _ => ?_
  refine keeps_bind stopEverything_keeps fun _ => ?_
  refine keeps_bind (keeps_bind (keeps_sys rfl rfl) fun _ => keeps_ret) fun _ => ?_
  refine keeps_bind emit_keeps fun _ => ?_
  exact keeps_bind (keeps_sys rfl rfl) fun _ => keeps_ret

/-! ## `main` -/

theorem run_keeps {candidates : List Spec} {signals : Signals} (attached : s.attached) :
    Keeps k s (run candidates signals) := by
  simp only [run, supervise, Prog.bind_eq]
  refine keeps_bind newRescue_keeps fun _ => keeps_bind (keeps_mem rfl) fun _ => ?_
  refine keeps_bind (startShell_keeps attached) fun _ => keeps_bind emit_keeps fun _ => ?_
  refine keeps_bind (keeps_bind (keeps_mem rfl) fun _ => ?_) fun action => ?_
  · exact keeps_iterate fun _ => superviseRound_keeps attached
  · exact keeps_bind execute_keeps fun _ => park_keeps

/-- Every call of `main` is one that the record of the calls before it allows, on every kernel. -/
theorem main_keeps (candidates : List Spec) :
    Triple k.semantics Allowed (Settled .start) (mainWith candidates) fun _ _ => True := by
  simp only [mainWith, refuseToRun, Prog.bind_eq]
  refine Triple.bind (keeps_sys rfl rfl) fun pid => ?_
  split
  · refine Triple.post (Q := fun _ => Settled .start) ?_ fun _ _ _ => trivial
    refine keeps_bind (keeps_sys rfl rfl) fun _ => keeps_bind (keeps_sys rfl rfl) fun _ => ?_
    exact keeps_bind (keeps_sys rfl rfl) fun never => never.elim
  · refine Triple.bind bringUp_complete fun signals => ?_
    exact (complete_of_keeps fun _ attached => run_keeps attached).post fun _ _ _ => trivial

end Zevory
