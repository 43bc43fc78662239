import Zevory.Kernel

/-!
# The protocol of pid 1

An abstract model of `main.rs`, `signal.rs` and `power.rs`: the `Place`s between
the calls that matter, and the calls pid 1 makes at each of them (`Moves`), with
the place each result leads to.  Logging is possible everywhere and moves
nothing.  `Path h p`: the calls of the history `h`, made from the start of
`main`, lead to `p`.

`Refinement.lean` shows that every call the program makes is a move of the
protocol.  What holds at each place is then shown once for each property, by
induction over the moves, without going through the program again.
-/

namespace Zevory

open Interaction Signal Power

/-! ## Calls that move nothing -/

/-- What `park` writes last to the console when the kernel has Ctrl+Alt+Del enabled. -/
def offerLine : List UInt8 :=
  asBytes (wayOut true ++ "\n")

namespace Call

/-- The call is a write to the console that ends with the offer of Ctrl+Alt+Del. -/
def offers : Call → Prop
  | .sys (.write fd bytes) => fd = STDOUT_FILENO ∧ offerLine <:+ bytes
  | _ => False

/-- The calls that `log.rs` makes. -/
def isLog : Call → Bool
  | .sys (.openPath _ _) => true
  | .sys (.write _ _) => true
  | .mem .kmsgLoad => true
  | .mem (.kmsgStore _) => true
  | _ => false

/-- The calls that `main` makes before there is a process table. -/
def isBringUp : Call → Bool
  | .sys .getpid => true
  | .sys (.createDirAll _) => true
  | .sys (.mount _) => true
  | .sys (.fsWrite _ _) => true
  | .sys (.pathExists _) => true
  | .sys (.mknod _ _ _) => true
  | .sys (.dup2 _ _) => true
  | .sys (.close _) => true
  | .sys .setsid => true
  | .sys (.setCtty _ _) => true
  | .sys (.sigprocmask _ _) => true
  | .sys (.signalfd _ _ _) => true
  | .sys (.reboot command) => command == RB_DISABLE_CAD
  | .mem (.rescueNew r) => r.at_ == 0 && r.strikes == 0
  | _ => false

end Call

/-! ## Places -/

/-- Why children are being reaped: `supervise` was told of a change,
`stop_everything` looks before it signals, or `wait_for_silence` waits, before
SIGKILL or after it, up to a deadline. -/
inductive Why
  | supervising
  | stopping (action : Action)
  | silence (action : Action) (killed : Bool) (deadline : ℕ)
  deriving DecidableEq, Repr

/-- Where pid 1 is between two calls that matter. The calls of the log leave it where it is. -/
inductive Place
  | bringUp
  /-- A shell is due; `first` in `main`, later ones in `supervise`. -/
  | asking (first : Bool)
  | chosen (first : Bool) (spec : Spec)
  | noFork
  | forked (first : Bool) (spec : Spec) (pid : Int)
  /-- The first shell is in the table; the ready marker is logged here. -/
  | up
  | loopHead
  | idle
  | due (now : ℕ)
  | waiting (millis : Int)
  | readable
  | reaping (why : Why) (shortestLife : Option ℕ)
  | crediting (why : Why) (shortestLife : Option ℕ) (pid : Int) (status : Status)
  | harvested (why : Why) (shortestLife : Option ℕ) (childrenLeft : Bool)
  | surviving
  | failing
  | backingOff (now : ℕ)
  | dying
  | striking
  | listing (action : Action)
  | hangingUp (action : Action) (leaders : List Int)
  | continuing (action : Action)
  | timing (action : Action) (killed : Bool)
  | checking (action : Action) (killed : Bool) (deadline : ℕ)
  | watching (action : Action) (killed : Bool) (deadline : ℕ)
  | watched (action : Action) (killed : Bool) (deadline : ℕ)
  | killing (action : Action)
  | silent (action : Action)
  | synced (action : Action)
  | parking
  | parked (enabled : Bool)
  /-- Where an index out of range would lead; pid 1 never comes here. -/
  | lost
  deriving DecidableEq, Repr

namespace Place

/-- Where the result of the `poll` of `supervise` leads. -/
def afterPoll (r : Ret) : Place :=
  if r.rc = -1 then if r.errno.code = EINTR then .loopHead else .parking
  else if r.rc = 0 then .loopHead
  else .readable

/-- Where a signal that `supervise` has read leads. -/
def afterSignal (signal : Int) : Place :=
  match classify signal with
  | .childChanged => .reaping .supervising none
  | .shutdown action => .reaping (.stopping action) none
  | _ => .loopHead

def afterRead (r : Ret × Int) : Place :=
  if r.1.rc < 0 then if r.1.errno.code = EINTR then .loopHead else .parking
  else if r.1.rc ≠ Sys.SIGINFO_SIZE then .parking
  else afterSignal r.2

def afterWaitpid (why : Why) (shortestLife : Option ℕ) (r : Ret × Status) : Place :=
  match Sys.reapedOf r with
  | .child pid status => .crediting why shortestLife pid status
  | .stillRunning => .harvested why shortestLife true
  | .noChildrenLeft => .harvested why shortestLife false

def afterCredit (why : Why) (shortestLife : Option ℕ) : Option Departed → Place
  | none => .reaping why shortestLife
  | some gone => .reaping why (some (shorter shortestLife gone.ranFor))

/-- Where a harvest leads, depending on what it was for and on what it has found. -/
def afterHarvest : Why → Option ℕ → Bool → Place
  | .supervising, none, _ => .loopHead
  | .supervising, some ranFor, _ =>
      if ranFor ≥ RESPAWN_IS_TOO_FAST then .surviving else .failing
  | .stopping action, _, childrenLeft =>
      if childrenLeft then .listing action else .silent action
  | .silence action killed deadline, _, childrenLeft =>
      if childrenLeft then .checking action killed deadline else .silent action

/-- Where the look at the clock in `wait_for_silence` leads: on to the `poll`, or out of the wait.
-/
def afterCheck (action : Action) (killed : Bool) (deadline now : ℕ) : Place :=
  if now ≥ deadline then if killed then .silent action else .killing action
  else .watching action killed deadline

def afterVerdict : Option Verdict → Place
  | some .keepTrying => .loopHead
  | some (.movedOn _) => .loopHead
  | some .outOfOptions => .parking
  | none => .lost

/-- The seconds `wait_for_silence` is called with, before SIGKILL and after it. -/
def grace (killed : Bool) : ℕ :=
  if killed then AFTER_KILL_SECS else GRACE_SECS

end Place

/-! ## Moves -/

/-- `Moves p c f`: at `p` pid 1 may make the call `c`, and the result `r` leads
to `f r`. -/
inductive Moves : Place → (c : Call) → (c.Res → Place) → Prop
  | log {p : Place} {c : Call} :
      c.isLog → (c.offers → p = .parked true) → Moves p c fun _ => p
  | bringUp {c : Call} : c.isBringUp → Moves .bringUp c fun _ => .bringUp
  | giveUpEarly :
      Moves .bringUp (.sys (.reboot RB_ENABLE_CAD)) fun r => .parked (r.rc = 0)
  | tableNew : Moves .bringUp (.mem .tableNew) fun _ => .asking true
  | ask {first : Bool} :
      Moves (.asking first) (.mem .rescueShell) fun
        | some spec => .chosen first spec
        | none => .lost
  | fork {first : Bool} {spec : Spec} :
      Moves (.chosen first spec) (.sys .fork) fun r =>
        if r.rc = -1 then .noFork
        else if r.rc = 0 then .lost
        else .forked first spec r.rc
  | noFork :
      Moves .noFork (.mem .rescueShell) fun
        | some _ => .parking
        | none => .lost
  | track {first : Bool} {spec : Spec} {pid : Int} :
      Moves (.forked first spec pid) (.mem (.track spec.name pid spec.wantsOwnSession)) fun _ =>
        if first then .up else .waiting BACKOFF_CHECK_MS
  | supervise : Moves .up (.mem (.setRespawnAt 0)) fun _ => .loopHead
  | running :
      Moves .loopHead (.mem .running) fun n =>
        if n = 0 then .idle else .waiting UNTIL_SOMETHING_ARRIVES
  | idle : Moves .idle (.sys .clockGettime) fun now => .due now
  | due {now : ℕ} :
      Moves (.due now) (.mem .respawnAt) fun respawnAt =>
        if now ≥ respawnAt then .asking false else .waiting BACKOFF_CHECK_MS
  | poll {millis fd : Int} : Moves (.waiting millis) (.sys (.poll fd millis)) Place.afterPoll
  | read {fd : Int} : Moves .readable (.sys (.read fd)) Place.afterRead
  | waitpid {why : Why} {shortestLife : Option ℕ} :
      Moves (.reaping why shortestLife) (.sys .waitpid) (Place.afterWaitpid why shortestLife)
  | recordExit {why : Why} {shortestLife : Option ℕ} {pid : Int} {status : Status} :
      Moves (.crediting why shortestLife pid status) (.mem (.recordExit pid status))
        (Place.afterCredit why shortestLife)
  | forgetFinished {why : Why} {shortestLife : Option ℕ} {childrenLeft : Bool} :
      Moves (.harvested why shortestLife childrenLeft) (.mem .forgetFinished) fun _ =>
        Place.afterHarvest why shortestLife childrenLeft
  | survived : Moves .surviving (.mem .survived) fun _ => .loopHead
  | failing : Moves .failing (.sys .clockGettime) fun now => .backingOff now
  | setRespawnAt {now : ℕ} :
      Moves (.backingOff now) (.mem (.setRespawnAt (now + RESPAWN_BACKOFF_SECS))) fun _ => .dying
  | dying :
      Moves .dying (.mem .rescueShell) fun
        | some _ => .striking
        | none => .lost
  | failed : Moves .striking (.mem .failed) Place.afterVerdict
  | sessionLeaders {action : Action} :
      Moves (.listing action) (.mem .sessionLeaders) fun leaders => .hangingUp action leaders
  | hangUp {action : Action} {leader : Int} {rest : List Int} :
      Moves (.hangingUp action (leader :: rest)) (.sys (.kill (-leader) SIGHUP)) fun _ =>
        .hangingUp action rest
  | terminate {action : Action} :
      Moves (.hangingUp action []) (.sys (.kill (-1) SIGTERM)) fun _ => .continuing action
  | cont {action : Action} :
      Moves (.continuing action) (.sys (.kill (-1) SIGCONT)) fun _ => .timing action false
  | deadline {action : Action} {killed : Bool} :
      Moves (.timing action killed) (.sys .clockGettime) fun now =>
        .reaping (.silence action killed (now + Place.grace killed)) none
  | check {action : Action} {killed : Bool} {deadline : ℕ} :
      Moves (.checking action killed deadline) (.sys .clockGettime)
        (Place.afterCheck action killed deadline)
  | watch {action : Action} {killed : Bool} {deadline : ℕ} {fd : Int} :
      Moves (.watching action killed deadline) (.sys (.poll fd CHECK_EVERY_MS)) fun r =>
        if r.rc = -1 ∨ r.rc = 0 then .reaping (.silence action killed deadline) none
        else .watched action killed deadline
  | watchRead {action : Action} {killed : Bool} {deadline : ℕ} {fd : Int} :
      Moves (.watched action killed deadline) (.sys (.read fd)) fun _ =>
        .reaping (.silence action killed deadline) none
  | kill {action : Action} :
      Moves (.killing action) (.sys (.kill (-1) SIGKILL)) fun _ => .timing action true
  | sync {action : Action} : Moves (.silent action) (.sys .sync) fun _ => .synced action
  | handOver {action : Action} :
      Moves (.synced action) (.sys (.reboot action.kernelCommand)) fun _ => .parking
  | park : Moves .parking (.sys (.reboot RB_ENABLE_CAD)) fun r => .parked (r.rc = 0)
  | pause {enabled : Bool} :
      Moves (.parked enabled) (.sys .pause) fun _ => .parked enabled

/-- The history `h` of pid 1, read as a sequence of moves from the start, leads to the place `p`. -/
inductive Path : List Event → Place → Prop
  | boot : Path [] .bringUp
  | move {h : List Event} {p : Place} {c : Call} {f : c.Res → Place} {r : c.Res} {t : ℕ} :
      Path h p → Moves p c f → Path (⟨c, r, t⟩ :: h) (f r)

/-- The call `c` is a move of the protocol at `p`. -/
def Place.makes (p : Place) (c : Call) : Prop := ∃ f, Moves p c f

/-- The last event of a history that leads to a place was a move from the place the rest of it leads
to. -/
theorem Path.of_cons {e : Event} {h : List Event} {p : Place} (path : Path (e :: h) p) :
    ∃ q f, Path h q ∧ Moves q e.call f ∧ p = f e.res := by
  cases path with
  | move before move => exact ⟨_, _, before, move, rfl⟩

end Zevory
