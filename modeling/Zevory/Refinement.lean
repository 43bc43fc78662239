import Zevory.Interaction.Driver
import Zevory.Quiet

/-!
# The program follows the protocol

Every call `mainWith` makes, on any kernel and under any interference, is a move
of the protocol at the place its history leads to (`main_follows`).  `At p` is
the assertion carried through the program: the history leads to `p`, the log is
not cached on the console, and from the process table on the index of the rescue
machine is in range.
-/

namespace Zevory

open Interaction Signal Power

variable {K : Type} {k : Kernel K}

/-- The places at which there is a rescue machine. -/
def Place.hasRescue : Place → Bool
  | .bringUp => false
  | .parked _ => false
  | _ => true

/-- Pid 1 is at the place `p`: its history leads there, the index of the rescue machine is in range
where there is one, and the cached descriptor is not the console's. -/
structure At (p : Place) (w : World K) : Prop where
  path : Path w.hist p
  found : p ≠ .lost
  kmsg : w.mem.kmsg ≠ STDOUT_FILENO
  inRange : p.hasRescue → w.mem.rescue.InRange

/-- The guard of the refinement: the call is a move of the protocol at the place where pid 1 is. -/
def Expected (c : Call) (w : World K) : Prop :=
  ∃ p, At p w ∧ p.makes c

/-- The triples of this module: every call of the program is one that the protocol makes at its
place. -/
abbrev Follows (k : Kernel K) {α : Type} (P : World K → Prop) (p : Pid1 α)
    (Q : α → World K → Prop) : Prop :=
  Triple k.semantics Expected P p Q

theorem At.stable (p : Place) : Stable k.semantics (At p) := by
  rintro w w' at_ ⟨kern, -, rfl⟩
  exact ⟨at_.path, at_.found, at_.kmsg, at_.inRange⟩

theorem At.expected {p : Place} {w : World K} {c : Call} {f : c.Res → Place} (at_ : At p w)
    (move : Moves p c f) : Expected c w :=
  ⟨p, at_, f, move⟩

/-! ## One call -/

/-- A system call does not set up a rescue machine. -/
theorem Moves.hasRescue {p : Place} {s : Syscall} {f : s.Res → Place}
    (move : Moves p (.sys s) f) (r : s.Res) (has : (f r).hasRescue) : p.hasRescue := by
  cases move with
  | log => exact has
  | bringUp => exact has
  | giveUpEarly => exact has
  | pause => exact has
  | _ => rfl

/-- No result the kernel promises leads to `lost`. -/
theorem Moves.found_sys {p : Place} {s : Syscall} {f : s.Res → Place}
    (move : Moves p (.sys s) f) (found : p ≠ .lost) {r : s.Res} (promised : Promised (.sys s) r) :
    f r ≠ .lost := by
  cases move with
  | log => exact found
  | fork =>
      have child : r.rc ≠ 0 := by
        rcases promised with failed | parent <;> omega
      dsimp only
      split
      · nofun
      · nofun
  | poll =>
      unfold Place.afterPoll
      split
      · split <;> nofun
      · split <;> nofun
  | read =>
      unfold Place.afterRead Place.afterSignal
      split
      · split <;> nofun
      · split
        · nofun
        · split <;> nofun
  | waitpid =>
      unfold Place.afterWaitpid
      split <;> nofun
  | check =>
      unfold Place.afterCheck
      split
      · split <;> nofun
      · nofun
  | watch =>
      dsimp only
      split <;> nofun
  | _ => nofun

/-- As long as the index of the rescue machine is in range, no operation on memory leads to `lost`.
-/
theorem Moves.found_mem {p : Place} {o : MemOp} {f : o.Res → Place} (move : Moves p (.mem o) f)
    (found : p ≠ .lost) {now : ℕ} {m : Mem} (inRange : m.rescue.InRange) :
    f (o.run now m).1 ≠ .lost := by
  have shell := inRange.shell
  have verdict := inRange.verdict
  cases move with
  | log => exact found
  | ask | noFork | dying =>
      obtain ⟨spec, shell⟩ := shell
      simp [MemOp.run, shell]
  | failed =>
      obtain ⟨verdict, is⟩ := verdict
      simp only [MemOp.run, is]
      cases verdict <;> nofun
  | @track first => cases first <;> nofun
  | running =>
      dsimp only
      split <;> nofun
  | due =>
      dsimp only
      split <;> nofun
  | recordExit =>
      unfold Place.afterCredit
      split <;> nofun
  | @forgetFinished why shortestLife childrenLeft =>
      cases why with
      | supervising =>
          unfold Place.afterHarvest
          split <;> try split
          all_goals nofun
      | stopping => cases childrenLeft <;> nofun
      | silence => cases childrenLeft <;> nofun
  | _ => nofun

theorem At.sys {p : Place} {s : Syscall} {f : s.Res → Place} {w w' : World K} {r : s.Res}
    (at_ : At p w) (move : Moves p (.sys s) f) (answer : k.Answers w (.sys s) r w') :
    At (f r) w' := by
  have found := move.found_sys at_.found answer.promised
  cases answer with
  | sys answer =>
      exact ⟨.move at_.path move, found, at_.kmsg, fun has => at_.inRange (move.hasRescue r has)⟩

/-- The operation leaves the cached descriptor alone. -/
def MemOp.keepsKmsg : MemOp → Bool
  | .kmsgStore _ => false
  | _ => true

theorem MemOp.run_kmsg {o : MemOp} (keeps : o.keepsKmsg) (now : ℕ) (m : Mem) :
    (o.run now m).2.kmsg = m.kmsg := by
  cases o with
  | kmsgStore => cases keeps
  | _ => rfl

/-- Only `rescueNew` can put the index of the rescue machine out of range. -/
theorem MemOp.run_inRange {o : MemOp} (old : ∀ r, o ≠ .rescueNew r) (now : ℕ) {m : Mem}
    (h : m.rescue.InRange) : (o.run now m).2.rescue.InRange := by
  cases o with
  | rescueNew r => exact absurd rfl (old r)
  | survived => exact h.survived
  | failed => exact h.failed
  | _ => exact h

theorem At.mem {p : Place} {o : MemOp} {f : o.Res → Place} {w w' : World K} {r : o.Res}
    (at_ : At p w) (move : Moves p (.mem o) f) (keeps : o.keepsKmsg)
    (inRange : w.mem.rescue.InRange) (old : ∀ r, o ≠ .rescueNew r)
    (answer : k.Answers w (.mem o) r w') : At (f r) w' := by
  cases answer with
  | mem reads =>
      refine ⟨.move at_.path move, move.found_mem at_.found inRange, ?_,
        fun _ => MemOp.run_inRange old _ inRange⟩
      exact (MemOp.run_kmsg keeps _ _).symm ▸ at_.kmsg

/-- The rule for a system call that is a move: it leads where the protocol says, with a result the
kernel promises. -/
theorem Follows.sys {p : Place} {s : Syscall} {f : s.Res → Place} (move : Moves p (.sys s) f) :
    Follows k (At p) (sys s) fun r w => Promised (.sys s) r ∧ At (f r) w :=
  Triple.perform (At.stable p) (fun _ at_ => at_.expected move)
    (fun _ _ _ at_ answer => ⟨answer.promised, at_.sys move answer⟩)
    fun r => (Stable.const _).and (At.stable (f r))

/-- The rule for an operation on memory that is a move, from a place with a rescue machine; `T` is
what is known of its result. -/
theorem Follows.mem {p : Place} {o : MemOp} {f : o.Res → Place} (move : Moves p (.mem o) f)
    (keeps : o.keepsKmsg) (old : ∀ r, o ≠ .rescueNew r) (has : p.hasRescue)
    {T : o.Res → Prop} (result : ∀ now m, m.rescue.InRange → T (o.run now m).1) :
    Follows k (At p) (mem o) fun r w => T r ∧ At (f r) w :=
  Triple.perform (At.stable p) (fun _ at_ => at_.expected move)
    (fun w r w' at_ answer => by
      have inRange := at_.inRange has
      refine ⟨?_, at_.mem move keeps inRange old answer⟩
      cases answer with
      | mem reads => exact result _ _ inRange)
    fun r => (Stable.const _).and (At.stable (f r))

/-- The rule for a system call followed by a program. -/
theorem Follows.sys_bind {α : Type} {p : Place} {s : Syscall} {f : s.Res → Place}
    {g : s.Res → Pid1 α} {Q : α → World K → Prop} (move : Moves p (.sys s) f)
    (rest : ∀ r, Promised (.sys s) r → Follows k (At (f r)) (g r) Q) :
    Follows k (At p) ((Zevory.sys s).bind g) Q :=
  Triple.bind (Follows.sys move) fun r w h => rest r h.1 w h.2

/-- The rule for an operation on memory followed by a program. -/
theorem Follows.mem_bind {α : Type} {p : Place} {o : MemOp} {f : o.Res → Place}
    {g : o.Res → Pid1 α} {Q : α → World K → Prop} (move : Moves p (.mem o) f)
    (keeps : o.keepsKmsg) (old : ∀ r, o ≠ .rescueNew r) (has : p.hasRescue)
    (rest : ∀ r, Follows k (At (f r)) (g r) Q) :
    Follows k (At p) ((Zevory.mem o).bind g) Q :=
  Triple.bind (Follows.mem (T := fun _ => True) move keeps old has fun _ _ _ => trivial)
    fun r w h => rest r w h.2

/-- The rule for a program that has returned: it leaves pid 1 at the place where it is. -/
theorem Follows.ret {α : Type} {a : α} {p : Place} {Q : α → World K → Prop}
    (h : Q a = At p) : Follows k (At p) (.ret a) Q :=
  h ▸ Triple.ret (h ▸ At.stable p)

/-! ## Programs that stay inside the log or the bring-up -/

theorem kmsgLoad_given {w w' : World K} {c : Call} {r : c.Res}
    (notConsole : w.mem.kmsg ≠ STDOUT_FILENO) (answer : k.Answers w c r w') : Given c r := by
  cases answer with
  | sys answer => exact k.promised answer
  | @mem o now reads =>
      cases o with
      | kmsgLoad => exact notConsole
      | _ => trivial

/-- A call of the log leaves pid 1 at the place where it is. -/
theorem At.log {p : Place} {c : Call} {w w' : World K} {r : c.Res} (at_ : At p w)
    (log : LogCall (p = .parked true) c) (answer : k.Answers w c r w') : At p w' := by
  have move : Moves p c fun _ => p := .log log.1 log.2.1
  cases answer with
  | sys answer => exact ⟨.move at_.path move, at_.found, at_.kmsg, at_.inRange⟩
  | @mem o now reads =>
      refine ⟨.move at_.path move, at_.found, ?_, fun has => ?_⟩
      · cases o with
        | kmsgStore fd => exact fun console => log.2.2 (by rw [show fd = STDOUT_FILENO from console])
        | _ => exact at_.kmsg
      · cases o with
        | rescueNew => cases log.1
        | survived => cases log.1
        | failed => cases log.1
        | _ => exact at_.inRange has

theorem Follows.log {α : Type} {p : Place} {prog : Pid1 α} {Q : α → Prop}
    (h : Only (LogCall (p = .parked true)) Given prog Q) :
    Follows k (At p) prog fun _ => At p :=
  Triple.post (Only.triple (At.stable p)
    (fun _ _ log at_ => at_.expected (.log log.1 log.2.1))
    (fun _ _ _ _ log at_ answer => ⟨kmsgLoad_given at_.kmsg answer, at_.log log answer⟩) h)
    fun _ _ h => h.2

/-- The rule for a program that only logs, followed by a program that goes on at the same place. -/
theorem Follows.log_bind {α β : Type} {p : Place} {prog : Pid1 α} {T : α → Prop}
    {g : α → Pid1 β} {Q : β → World K → Prop}
    (h : Only (LogCall (p = .parked true)) Given prog T)
    (rest : ∀ a, Follows k (At p) (g a) Q) : Follows k (At p) (prog.bind g) Q :=
  Triple.bind (Follows.log h) rest

theorem At.early {c : Call} {w w' : World K} {r : c.Res} (at_ : At .bringUp w)
    (early : EarlyCall c) (answer : k.Answers w c r w') : At .bringUp w' := by
  rcases early with log | ⟨early, old⟩
  · exact at_.log (log.weaken False.elim) answer
  · have move : Moves .bringUp c fun _ => .bringUp := .bringUp early
    cases answer with
    | sys answer => exact at_.sys move (.sys answer)
    | @mem o now reads =>
        refine ⟨.move at_.path move, nofun, ?_, nofun⟩
        cases o with
        | kmsgStore => cases early
        | _ => exact at_.kmsg

theorem Follows.early {α : Type} {prog : Pid1 α} {Q : α → Prop}
    (h : Only EarlyCall Given prog Q) : Follows k (At .bringUp) prog fun _ => At .bringUp :=
  Triple.post (Only.triple (At.stable _)
    (fun c w early at_ => by
      rcases early with log | early
      · exact at_.expected (.log log.1 fun offers => (log.2.1 offers).elim)
      · exact at_.expected (.bringUp early.1))
    (fun _ _ _ _ early at_ answer => ⟨kmsgLoad_given at_.kmsg answer, at_.early early answer⟩) h)
    fun _ _ h => h.2

/-! ## Parking -/

theorem pauseForever_follows {α : Type} {enabled : Bool} {Q : α → World K → Prop} :
    Follows k (At (.parked enabled)) pauseForever Q := by
  refine Triple.post (Triple.iterate (Q := fun _ _ => False) (fun _ => At (.parked enabled))
    (fun _ => At.stable _) (fun _ => Stable.const False) fun _ => ?_) fun _ _ => False.elim
  simp only [Prog.bind_eq, Prog.pure_eq]
  exact Follows.sys_bind .pause fun _ _ => Follows.ret rfl

/-- `park` after its first call, which has told whether Ctrl+Alt+Del is enabled. -/
theorem parked_follows {α : Type} {why : String} {r : Ret} {Q : α → World K → Prop} :
    Follows k (At (.parked (r.rc = 0)))
      ((Log.error s!"{why}, so there is nothing left to do. parked").bind fun _ =>
        (Log.toConsole (parkText why (Sys.check r).isOk)).bind fun _ => pauseForever) Q := by
  refine Follows.log_bind error_only fun _ => Follows.log_bind (parkText_only fun enabled => ?_)
    fun _ => pauseForever_follows
  unfold Sys.check at enabled
  split at enabled
  · rename_i success
    rw [decide_eq_true success]
  · cases enabled

theorem park_follows {α : Type} {why : String} {Q : α → World K → Prop} :
    Follows k (At .parking) (park why) Q := by
  simp only [park, Sys.enableCtrlAltDel, Prog.bind_eq, Prog.bind_assoc, Prog.pure_eq,
    Prog.ret_bind]
  exact Follows.sys_bind .park fun _ _ => parked_follows

/-- `park` in the bring-up, when there is no process table yet. -/
theorem park_follows_early {α : Type} {why : String} {Q : α → World K → Prop} :
    Follows k (At .bringUp) (park why) Q := by
  simp only [park, Sys.enableCtrlAltDel, Prog.bind_eq, Prog.bind_assoc, Prog.pure_eq,
    Prog.ret_bind]
  exact Follows.sys_bind .giveUpEarly fun _ _ => parked_follows

/-! ## Reaping -/

theorem reapRound_follows {why : Why} {shortestLife : Option ℕ} :
    Follows k (At (.reaping why shortestLife)) (reapRound shortestLife)
      (leaving (fun shortestLife => At (.reaping why shortestLife))
        fun h => At (.harvested why h.shortestLife h.childrenLeft)) := by
  simp only [reapRound, Sys.reapOne, Prog.bind_eq, Prog.bind_assoc, Prog.pure_eq,
    Prog.ret_bind]
  refine Follows.sys_bind .waitpid fun r _ => ?_
  unfold Place.afterWaitpid
  cases Sys.reapedOf r with
  | stillRunning => exact Follows.ret rfl
  | noChildrenLeft => exact Follows.ret rfl
  | child pid status =>
      refine Follows.mem_bind .recordExit rfl nofun rfl fun gone => ?_
      cases gone with
      | none => exact Follows.log_bind info_only fun _ => Follows.ret rfl
      | some gone => exact Follows.log_bind logDeparted_only fun _ => Follows.ret rfl

theorem reapAll_follows {why : Why} :
    Follows k (At (.reaping why none)) reapAll
      fun h => At (Place.afterHarvest why h.shortestLife h.childrenLeft) := by
  simp only [reapAll, Prog.bind_eq, Prog.pure_eq]
  refine Triple.bind (Triple.iterate (fun shortestLife => At (.reaping why shortestLife))
    (fun _ => At.stable _) (fun h => At.stable _) fun _ => reapRound_follows) fun h => ?_
  exact Follows.mem_bind .forgetFinished rfl nofun rfl fun _ => Follows.ret rfl

/-! ## Keeping a shell alive -/

/-- `rescue.shell()` returns a shell, since its index is in range. -/
theorem rescueShell_follows {p : Place} {f : Option Spec → Place}
    (move : Moves p (.mem .rescueShell) f) (has : p.hasRescue) :
    Follows k (At p) rescueShell fun spec => At (f (some spec)) := by
  simp only [rescueShell, Prog.bind_eq, Prog.pure_eq]
  refine Triple.bind (Follows.mem (T := fun spec => ∃ s, spec = some s) move rfl nofun has
    fun now m inRange => inRange.shell) fun spec w h => ?_
  obtain ⟨⟨s, rfl⟩, at_⟩ := h
  exact Follows.ret (Q := fun spec => At (f (some spec))) rfl w at_

theorem rescueFailed_follows :
    Follows k (At .striking) rescueFailed fun verdict =>
      At (Place.afterVerdict (some verdict)) := by
  simp only [rescueFailed, Prog.bind_eq, Prog.pure_eq]
  refine Triple.bind (Follows.mem (T := fun verdict => ∃ v, verdict = some v) .failed rfl nofun
    rfl fun now m inRange => inRange.verdict) fun verdict w h => ?_
  obtain ⟨⟨v, rfl⟩, at_⟩ := h
  exact Follows.ret (Q := fun v => At (Place.afterVerdict (some v))) rfl w at_

/-- The place that `main` or `supervise` goes on from after a shell was started. -/
def Place.started (first : Bool) : Place :=
  if first then .up else .waiting BACKOFF_CHECK_MS

theorem fork_follows {first : Bool} {spec : Spec} :
    Follows k (At (.chosen first spec)) Sys.fork fun
      | .error _ => At .noFork
      | .ok (.parent pid) => At (.forked first spec pid)
      | .ok .child => fun _ => False := by
  simp only [Sys.fork, Prog.bind_eq, Prog.pure_eq]
  refine Follows.sys_bind .fork fun r promised => ?_
  rcases promised with failed | parent
  · rw [if_pos failed, if_pos failed]
    exact Follows.ret rfl
  · rw [if_neg (by omega), if_neg (by omega), if_neg (by omega), if_neg (by omega)]
    exact Follows.ret rfl

/-- The place that they go on from after they have tried to start one. -/
def Place.spawned (first : Bool) : Except IoError Int → Place
  | .error _ => .noFork
  | .ok _ => .started first

theorem spawn_follows {first : Bool} {spec : Spec} :
    Follows k (At (.chosen first spec)) (Table.spawn spec) fun r => At (.spawned first r) := by
  simp only [Table.spawn, Proc.spawn, Prog.bind_eq, Prog.bind_assoc, Prog.pure_eq]
  refine Triple.bind fork_follows fun forked => ?_
  obtain e | pid | _ := forked
  · exact Follows.ret rfl
  · simp only [Prog.ret_bind]
    exact Follows.mem_bind .track rfl nofun rfl fun _ => Follows.ret rfl
  · exact fun w h => h.elim

theorem startShell_follows {first : Bool} :
    Follows k (At (.asking first)) startShell fun _ => At (.started first) := by
  simp only [startShell, Prog.bind_eq, Prog.pure_eq]
  refine Triple.bind (rescueShell_follows .ask rfl) fun spec => ?_
  refine Triple.bind spawn_follows fun spawned => ?_
  cases spawned with
  | ok pid => exact Follows.ret rfl
  | error e => exact Triple.bind (rescueShell_follows .noFork rfl) fun _ => park_follows

theorem startIfDue_follows {n : ℕ} :
    Follows k (At (if n = 0 then .idle else .waiting UNTIL_SOMETHING_ARRIVES))
      (startIfDue (n == 0)) fun _ =>
        At (.waiting (if n == 0 then BACKOFF_CHECK_MS else UNTIL_SOMETHING_ARRIVES)) := by
  simp only [startIfDue, Sys.monotonicSecs, Prog.bind_eq, Prog.pure_eq]
  by_cases idle : n = 0
  · subst idle
    refine Follows.sys_bind .idle fun now _ => ?_
    refine Follows.mem_bind .due rfl nofun rfl fun respawnAt => ?_
    split
    · exact startShell_follows
    · exact Follows.ret rfl
  · simp only [beq_iff_eq, if_neg idle]
    exact Follows.ret rfl

/-- A reading of the clock is small enough for the few seconds that `main` adds to it. -/
theorem clock_fits {now delay : ℕ} (early : now < 2 ^ 63) (small : delay ≤ 5) :
    now + delay < 2 ^ 64 := by
  omega

theorem addU64_follows {α : Type} {p : Place} {a b : ℕ} (fits : a + b < 2 ^ 64)
    {g : ℕ → Pid1 α} {Q : α → World K → Prop} (rest : Follows k (At p) (g (a + b)) Q) :
    Follows k (At p) ((Sys.addU64 a b).bind g) Q := by
  rw [Sys.addU64, Nat.mod_eq_of_lt fits]
  exact rest

theorem giveUpOrFallBack_follows :
    Follows k (At .dying) giveUpOrFallBack fun _ => At .loopHead := by
  simp only [giveUpOrFallBack, Prog.bind_eq, Prog.pure_eq]
  refine Triple.bind (rescueShell_follows .dying rfl) fun spec => ?_
  refine Triple.bind rescueFailed_follows fun verdict => ?_
  cases verdict with
  | keepTrying => exact Follows.ret rfl
  | movedOn next => exact Follows.log error_only
  | outOfOptions => exact park_follows

theorem account_follows {shortestLife : Option ℕ} {childrenLeft : Bool} :
    Follows k (At (Place.afterHarvest .supervising shortestLife childrenLeft))
      (account shortestLife) fun _ => At .loopHead := by
  cases shortestLife with
  | none => exact Follows.ret rfl
  | some ranFor =>
      simp only [account, Place.afterHarvest, Sys.monotonicSecs, Prog.bind_eq]
      split
      · exact Triple.post (Follows.mem (T := fun _ => True) .survived rfl nofun rfl
          fun _ _ _ => trivial) fun _ _ h => h.2
      · refine Follows.sys_bind .failing fun now early => ?_
        refine addU64_follows (clock_fits early (by decide)) ?_
        exact Follows.mem_bind .setRespawnAt rfl nofun rfl fun _ => giveUpOrFallBack_follows

/-- The place after `heed`: the head of the loop, or the first harvest of a shutdown. -/
def Place.heeded : Unit ⊕ Action → Place
  | .inl () => .loopHead
  | .inr action => .reaping (.stopping action) none

theorem heed_follows {signal : Int} :
    Follows k (At (Place.afterSignal signal)) (heed signal) fun next => At (.heeded next) := by
  unfold heed Place.afterSignal
  cases classify signal with
  | childChanged =>
      simp only [Prog.bind_eq, Prog.pure_eq]
      exact Triple.bind reapAll_follows fun h =>
        Triple.bind account_follows fun _ => Follows.ret rfl
  | shutdown action => exact Follows.ret rfl
  | reload =>
      simp only [Prog.bind_eq, Prog.pure_eq]
      exact Follows.log_bind info_only fun _ => Follows.ret rfl
  | unknown other =>
      simp only [Prog.bind_eq, Prog.pure_eq]
      exact Follows.log_bind info_only fun _ => Follows.ret rfl

/-- The place after a wait of `supervise`, by its result. -/
def Place.supervised : Except IoError (Option Int) → Place
  | .ok (some signal) => .afterSignal signal
  | .ok none => .loopHead
  | .error e => if e.isInterrupted then .loopHead else .parking

/-- `io::Error::last_os_error` has the kind `Interrupted` for `EINTR` only. -/
theorem supervised_os (r : Ret) :
    Place.supervised (.error (Sys.lastOsError r)) =
      if r.errno.code = EINTR then .loopHead else .parking := by
  simp [Place.supervised, Sys.lastOsError, IoError.isInterrupted, IoError.rawOsError]

theorem wait_follows {signals : Signals} {millis : Int} :
    Follows k (At (.waiting millis)) (signals.wait millis) fun r => At (.supervised r) := by
  simp only [Signals.wait, Sys.pollReadable, Sys.readSignal, Prog.bind_eq, Prog.bind_assoc,
    Prog.pure_eq]
  refine Follows.sys_bind .poll fun r _ => ?_
  unfold Place.afterPoll
  split
  · exact Follows.ret (congrArg At (supervised_os r))
  · split
    · exact Follows.ret rfl
    · refine Follows.sys_bind .read fun r _ => ?_
      unfold Place.afterRead
      split
      · exact Follows.ret (congrArg At (supervised_os r.1))
      · split
        · exact Follows.ret rfl
        · exact Follows.ret rfl

theorem superviseRound_follows {signals : Signals} :
    Follows k (At .loopHead) (superviseRound signals)
      (leaving (fun _ => At .loopHead) fun action => At (.reaping (.stopping action) none)) := by
  simp only [superviseRound, Prog.bind_eq, Prog.pure_eq]
  refine Follows.mem_bind .running rfl nofun rfl fun n => ?_
  refine Triple.bind startIfDue_follows fun _ => ?_
  refine Triple.bind wait_follows fun arrived => ?_
  match arrived with
  | .ok (some signal) =>
      refine Triple.post heed_follows fun next w h => ?_
      match next with
      | .inl () => exact h
      | .inr action => exact h
  | .ok none => exact Follows.ret rfl
  | .error e =>
      simp only [Place.supervised]
      split
      · exact Follows.ret rfl
      · exact park_follows

theorem supervise_follows {signals : Signals} :
    Follows k (At .up) (supervise signals) fun action =>
      At (.reaping (.stopping action) none) := by
  simp only [supervise, Prog.bind_eq]
  refine Follows.mem_bind .supervise rfl nofun rfl fun _ => ?_
  exact Triple.iterate (fun _ => At .loopHead) (fun _ => At.stable _) (fun _ => At.stable _)
    fun _ => superviseRound_follows

/-! ## Going down -/

/-- A wait of `wait_for_silence` leads to the next harvest, whatever its result. -/
theorem watch_follows {action : Action} {killed : Bool} {deadline : ℕ} {signals : Signals} :
    Follows k (At (.watching action killed deadline)) (signals.wait CHECK_EVERY_MS) fun _ =>
      At (.reaping (.silence action killed deadline) none) := by
  simp only [Signals.wait, Sys.pollReadable, Sys.readSignal, Prog.bind_eq, Prog.bind_assoc,
    Prog.pure_eq]
  refine Follows.sys_bind .watch fun r _ => ?_
  by_cases failed : r.rc = -1
  · simp only [failed, ↓reduceIte, true_or]
    exact Follows.ret rfl
  · by_cases timedOut : r.rc = 0
    · simp only [timedOut, ↓reduceIte, or_true]
      exact Follows.ret rfl
    · simp only [failed, timedOut, or_self, ↓reduceIte]
      refine Follows.sys_bind .watchRead fun n _ => ?_
      split
      · exact Follows.ret rfl
      · split
        · exact Follows.ret rfl
        · exact Follows.ret rfl

/-- The place after `wait_for_silence`, by its result and by whether SIGKILL was sent. -/
def Place.afterSilence (action : Action) (killed silence : Bool) : Place :=
  if silence then .silent action else if killed then .silent action else .killing action

theorem silenceRound_follows {action : Action} {killed : Bool} {deadline : ℕ}
    {signals : Signals} :
    Follows k (At (.reaping (.silence action killed deadline) none))
      (silenceRound signals deadline)
      (leaving (fun _ => At (.reaping (.silence action killed deadline) none))
        fun silence => At (.afterSilence action killed silence)) := by
  simp only [silenceRound, Sys.monotonicSecs, Prog.bind_eq, Prog.pure_eq]
  refine Triple.bind reapAll_follows fun h => ?_
  cases left : h.childrenLeft with
  | false => exact Follows.ret rfl
  | true =>
      refine Follows.sys_bind .check fun now _ => ?_
      unfold Place.afterCheck
      split
      · exact Follows.ret rfl
      · refine Triple.bind watch_follows fun arrived => ?_
        split
        · split
          · exact Follows.log_bind info_only fun _ => Follows.ret rfl
          · exact Follows.ret rfl
        · exact Follows.ret rfl

theorem waitForSilence_follows {action : Action} (killed : Bool) {signals : Signals} :
    Follows k (At (.timing action killed)) (waitForSilence signals (Place.grace killed))
      fun silence => At (.afterSilence action killed silence) := by
  simp only [waitForSilence, Sys.monotonicSecs, Prog.bind_eq]
  refine Follows.sys_bind .deadline fun now early => ?_
  refine addU64_follows (clock_fits early (by cases killed <;> decide)) ?_
  exact Triple.iterate
    (fun _ => At (.reaping (.silence action killed (now + Place.grace killed)) none))
    (fun _ => At.stable _) (fun _ => At.stable _) fun _ => silenceRound_follows

theorem hangUp_follows {action : Action} {leaders : List Int} :
    Follows k (At (.hangingUp action leaders)) (hangUp leaders) fun _ =>
      At (.hangingUp action []) := by
  induction leaders with
  | nil => exact Follows.ret rfl
  | cons leader rest ih =>
      simp only [hangUp, Sys.signalGroup, Prog.bind_eq, Prog.bind_assoc, Prog.pure_eq,
        Prog.ret_bind]
      exact Follows.sys_bind .hangUp fun _ _ => ih

theorem stopEverything_follows {action : Action} {signals : Signals} :
    Follows k (At (.reaping (.stopping action) none)) (stopEverything signals) fun _ =>
      At (.silent action) := by
  simp only [stopEverything, Sys.signalEveryone, Prog.bind_eq, Prog.bind_assoc, Prog.pure_eq,
    Prog.ret_bind]
  refine Triple.bind reapAll_follows fun h => ?_
  cases left : h.childrenLeft with
  | false => exact Follows.ret rfl
  | true =>
      refine Follows.log_bind (toConsole_only fun offer => absurd offer (by decide)) fun _ => ?_
      refine Follows.mem_bind .sessionLeaders rfl nofun rfl fun leaders => ?_
      refine Triple.bind hangUp_follows fun _ => ?_
      refine Follows.sys_bind .terminate fun _ _ => Follows.sys_bind .cont fun _ _ => ?_
      refine Triple.bind (waitForSilence_follows false) fun silence => ?_
      cases silence with
      | true => exact Follows.ret rfl
      | false =>
          refine Follows.log_bind warn_only fun _ => ?_
          refine Follows.log_bind (toConsole_only fun offer =>
            absurd offer (not_offer_of_tail (by decide))) fun _ => ?_
          refine Follows.sys_bind .kill fun _ _ => ?_
          refine Triple.bind (waitForSilence_follows true) fun silence => ?_
          cases silence with
          | true => exact Follows.ret rfl
          | false => exact Follows.log error_only

theorem execute_follows {action : Action} {signals : Signals} :
    Follows k (At (.reaping (.stopping action) none)) (execute action signals) fun _ =>
      At .parking := by
  simp only [execute, Sys.flushFilesystems, Sys.handOverToKernel, Prog.bind_eq,
    Prog.bind_assoc, Prog.pure_eq, Prog.ret_bind]
  refine Follows.log_bind (toConsole_only fun offer => absurd offer ?_) fun _ => ?_
  · cases action <;> decide
  refine Follows.log_bind info_only fun _ => ?_
  refine Triple.bind stopEverything_follows fun _ => ?_
  refine Follows.sys_bind .sync fun _ _ => ?_
  refine Follows.log_bind info_only fun _ => ?_
  exact Follows.sys_bind .handOver fun _ _ => Follows.ret rfl

/-! ## Coming up -/

theorem watchSignals_follows :
    Follows k (At .bringUp) watchSignals fun _ => At .bringUp := by
  simp only [watchSignals, Prog.bind_eq, Prog.pure_eq]
  refine Triple.bind (Follows.early (install_early _)) fun r => ?_
  cases r with
  | ok signals => exact Follows.ret rfl
  | error e => exact park_follows_early

theorem bringUp_follows : Follows k (At .bringUp) bringUp fun _ => At .bringUp := by
  simp only [bringUp, Mount.mountAll, Console.ensureNodes, Prog.bind_eq, Prog.pure_eq]
  refine Triple.bind (Follows.early (mountEach_early _ _)) fun failed => ?_
  refine Triple.bind (Follows.early keepEveryMessage_early) fun _ => ?_
  refine Triple.bind (Follows.early (ensureEach_early _)) fun _ => ?_
  refine Triple.bind (Follows.early openConsole_early) fun _ => ?_
  refine Triple.bind watchSignals_follows fun signals => ?_
  refine Triple.bind (Follows.early takeCtrlAltDel_early) fun _ => ?_
  exact Triple.bind (Follows.early (banner_early _)) fun _ => Follows.ret rfl

/-- `rescueNew` leaves pid 1 in the bring-up, with the index of the new machine in range. -/
theorem rescueNew_follows {rescue : Rescue} (inRange : rescue.InRange)
    (fresh : Call.isBringUp (.mem (.rescueNew rescue))) :
    Follows k (At .bringUp) (mem (.rescueNew rescue)) fun _ w =>
      At .bringUp w ∧ w.mem.rescue.InRange := by
  have move : Moves .bringUp (.mem (.rescueNew rescue)) fun _ => .bringUp := .bringUp fresh
  refine Triple.perform (At.stable _) (fun _ at_ => at_.expected move) ?_ fun _ =>
    (At.stable _).and (Kernel.stable_private (P := fun mem _ => mem.rescue.InRange))
  intro w r w' at_ answer
  cases answer with
  | mem reads => exact ⟨⟨.move at_.path move, nofun, at_.kmsg, nofun⟩, inRange⟩

theorem newRescue_follows {candidates : List Spec} :
    Follows k (At .bringUp) (newRescue candidates) fun _ w =>
      At .bringUp w ∧ w.mem.rescue.InRange := by
  simp only [newRescue, Prog.bind_eq]
  refine Triple.bind (Follows.early (available_early candidates)) fun usable => ?_
  split
  · rename_i rescue found
    refine rescueNew_follows (Rescue.over_inRange found) ?_
    rw [Rescue.over_fresh found]
    rfl
  · exact park_follows_early

theorem tableNew_follows :
    Follows k (fun w => At .bringUp w ∧ w.mem.rescue.InRange) (mem .tableNew) fun _ =>
      At (.asking true) := by
  refine Triple.perform ((At.stable _).and
    (Kernel.stable_private (P := fun mem _ => mem.rescue.InRange)))
    (fun _ h => h.1.expected .tableNew) ?_ fun _ => At.stable _
  intro w r w' h answer
  exact h.1.mem (f := fun _ => .asking true) .tableNew rfl h.2 nofun answer

theorem run_follows {candidates : List Spec} {signals : Signals}
    {Q : Unit → World K → Prop} : Follows k (At .bringUp) (run candidates signals) Q := by
  simp only [run, Prog.bind_eq]
  refine Triple.bind newRescue_follows fun _ => Triple.bind tableNew_follows fun _ => ?_
  refine Triple.bind startShell_follows fun _ => ?_
  refine Follows.log_bind info_only fun _ => ?_
  refine Triple.bind supervise_follows fun action => ?_
  exact Triple.bind execute_follows fun failure => park_follows

/-- **The program follows the protocol.** Every call `main` makes is a move at the place where pid 1
is, and `main` never returns. -/
theorem main_follows {candidates : List Spec} :
    Follows k (At .bringUp) (mainWith candidates) fun _ _ => False := by
  simp only [mainWith, Prog.bind_eq]
  refine Follows.sys_bind (f := fun _ => .bringUp) (.bringUp rfl) fun pid promised => ?_
  have first : pid = 1 := promised
  rw [if_neg (not_not.mpr first)]
  exact Triple.bind bringUp_follows fun signals => run_follows

theorem boot_safe {candidates : List Spec} {kern : K} :
    Safe k.semantics Expected (boot candidates kern).prog (fun _ _ => False)
      (boot candidates kern).world :=
  main_follows _ ⟨.boot, nofun, (by decide : Mem.boot.kmsg ≠ STDOUT_FILENO), nofun⟩

/-! ## What is reachable -/

variable {candidates : List Spec} {kern : K} {c : Config calls (World K) Unit}

/-- A call of the protocol leads to a place that is not `lost`, whatever its result. -/
theorem exists_place_after {call : Call} {w w' : World K} {r : call.Res}
    (expected : Expected call w) (answer : k.Answers w call r w') :
    ∃ p, Path w'.hist p ∧ p ≠ .lost := by
  obtain ⟨p, at_, f, move⟩ := expected
  have path : Path w'.hist (f r) := by
    rw [answer.hist]
    exact at_.path.move move
  cases answer with
  | sys answer => exact ⟨_, path, move.found_sys at_.found (k.promised answer)⟩
  | @mem o now reads =>
      cases has : p.hasRescue with
      | true => exact ⟨_, path, move.found_mem at_.found (at_.inRange has)⟩
      | false =>
          refine ⟨_, path, ?_⟩
          cases move with
          | log => exact at_.found
          | bringUp => nofun
          | tableNew => nofun
          | _ => cases has

/-- The history of every reachable configuration leads to a place that is not `lost`. -/
theorem exists_path (reach : Reaches k.semantics (boot candidates kern) c) :
    ∃ p, Path c.world.hist p ∧ p ≠ .lost :=
  boot_safe.invariant (J := fun w => ∃ p, Path w.hist p ∧ p ≠ .lost) ⟨.bringUp, .boot, nofun⟩
    (Kernel.stable_private (P := fun _ hist => ∃ p, Path hist p ∧ p ≠ .lost))
    (fun _ _ _ _ _ expected answer => exists_place_after expected answer) reach

/-- Every call pid 1 is about to make is a move at the place its history leads to. -/
theorem expected_of_next {call : Call} (reach : Reaches k.semantics (boot candidates kern) c)
    (next : c.prog.next = some call) : ∃ p f, Path c.world.hist p ∧ p ≠ .lost ∧ Moves p call f := by
  obtain ⟨prog, w⟩ := c
  obtain ⟨cont, rfl⟩ := Prog.next_eq next
  obtain ⟨p, at_, f, move⟩ := boot_safe.guarded reach
  exact ⟨p, f, at_.path, at_.found, move⟩

/-- No reachable configuration has returned. -/
theorem never_returns {a : Unit} {w : World K} :
    ¬ Reaches k.semantics (boot candidates kern) ⟨.ret a, w⟩ :=
  fun reach => boot_safe.returned reach

/-- Every call in the history was made at a configuration on the way, whose history is what comes
before that call. -/
theorem exists_before {call : Call} {r : call.Res} {t : ℕ} {before : List Event}
    (reach : Reaches k.semantics (boot candidates kern) c)
    (made : ⟨call, r, t⟩ :: before <:+ c.world.hist) :
    ∃ c' w', Reaches k.semantics (boot candidates kern) c' ∧ Reaches k.semantics c' c ∧
      c'.world.hist = before ∧ k.Answers c'.world call r w' := by
  induction reach with
  | refl => cases List.suffix_nil.mp made
  | @tail c₁ c₂ reach step ih =>
      cases step with
      | interfere others =>
          obtain ⟨kern', step, rfl⟩ := others
          obtain ⟨c', w', reach', onwards, there⟩ := ih made
          exact ⟨c', w', reach', onwards.tail (.interfere ⟨kern', step, rfl⟩), there⟩
      | unroll =>
          obtain ⟨c', w', reach', onwards, there⟩ := ih made
          exact ⟨c', w', reach', onwards.tail .unroll, there⟩
      | @answer o f r' w w' answer =>
          have hist := answer.hist
          dsimp only at made
          rw [hist] at made
          rcases List.suffix_cons_iff.mp made with same | earlier
          · cases same
            exact ⟨_, w', reach, .single (.answer answer), rfl, answer⟩
          · obtain ⟨c', w'', reach', onwards, there⟩ := ih earlier
            exact ⟨c', w'', reach', onwards.tail (.answer answer), there⟩

/-- A property of the places, kept by interference and by every move, holds of every
reachable world at every place its history leads to. -/
theorem at_every_place {I : Place → World K → Prop} (start : I .bringUp (World.boot kern))
    (stable : ∀ p, Stable k.semantics (I p))
    (kept : ∀ p call f r w w', I p w → Moves p call f → k.Answers w call r w' → I (f r) w')
    (reach : Reaches k.semantics (boot candidates kern) c) {p : Place}
    (path : Path c.world.hist p) : I p c.world := by
  refine boot_safe.invariant (J := fun w => ∀ p, Path w.hist p → I p w) ?_ ?_ ?_ reach p path
  · intro p path
    cases path
    exact start
  · rintro w w' all step p path
    obtain ⟨kern, others, rfl⟩ := step
    exact stable p (all p path) ⟨kern, others, rfl⟩
  · intro call r w w' all _ answer p path
    rw [answer.hist] at path
    obtain ⟨q, f, before, move, rfl⟩ := path.of_cons
    exact kept q call f r w w' (all q before) move answer

end Zevory
