import Zevory.Script
import Zevory.Tidy

/-!
# The order of a shutdown

What the history looks like when pid 1 hands the machine over, on any kernel: why it
does, what it has done since, and in which order.  `Story` says at every place how the
history decomposes; it is kept by every move, and read off where the hand-over is made.
Histories have the newest event first.
-/

namespace Zevory

open Interaction Signal Power

/-! ## Reading a history -/

/-- The shutdown that an event asks for: it is a read of the signalfd that returns a whole record,
with a signal that `classify` takes for a shutdown. -/
def Event.asks : Event → Option Action
  | ⟨.sys (.read _), r, _⟩ =>
      if (Prod.fst r : Ret).rc = Sys.SIGINFO_SIZE then
        match classify (Prod.snd r) with
        | .shutdown action => some action
        | _ => none
      else none
  | _ => none

namespace Call

/-- A `reboot` whose command is not about Ctrl+Alt+Del, as `hand_over_to_kernel` makes it. -/
def handsOver : Call → Bool
  | .sys (.reboot command) => command != RB_ENABLE_CAD && command != RB_DISABLE_CAD
  | _ => false

/-- The calls of `reap_all` other than those of the log. -/
def reaps : Call → Bool
  | .sys .waitpid => true
  | .mem (.recordExit _ _) => true
  | .mem .forgetFinished => true
  | _ => false

/-- The calls of `wait_for_silence` other than those of the log. -/
def looks (c : Call) : Bool :=
  c.reaps || match c with
    | .sys .clockGettime => true
    | .sys (.poll _ _) => true
    | .sys (.read _) => true
    | _ => false

end Call

/-- The events of the history that are not of the log. -/
def deeds (h : List Event) : List Event :=
  h.filter fun e => !e.call.isLog

/-- What a `waitpid` has reported to `reap_all`. -/
def Event.reap : Event → Option Sys.Reaped
  | ⟨.sys .waitpid, r, _⟩ => some (Sys.reapedOf r)
  | _ => none

/-- What the last `waitpid` of the history has reported. -/
def lastReap (h : List Event) : Option Sys.Reaped :=
  h.findSome? Event.reap

/-- The events of a wait for silence that has timed out after `secs` seconds, with a child left. -/
def TimedOut (secs : ℕ) (wait : List Event) : Prop :=
  ∃ (start now t t' : ℕ) (between : List Event),
    wait = ⟨.sys .clockGettime, now, t'⟩ :: between ++ [⟨.sys .clockGettime, start, t⟩] ∧
      start + secs ≤ now ∧ lastReap between = some .stillRunning ∧ ∀ e ∈ between, e.call.looks

/-- The deeds up to the first wait for silence: a reap that left children, the question for the
session leaders, which the table answered with `leaders`, one SIGHUP to the group of each of
them, and then SIGTERM and SIGCONT to everyone. -/
inductive Warned (leaders : List Int) : List Event → Prop
  | intro {first hups : List Event} {r r' : Ret} {t t' t'' : ℕ} :
      (∀ e ∈ first, e.call.reaps) → lastReap first = some .stillRunning →
      hups.map Event.call = (leaders.map fun leader => Call.sys (.kill (-leader) SIGHUP)).reverse →
      Warned leaders (⟨.sys (.kill (-1) SIGCONT), r', t''⟩ :: ⟨.sys (.kill (-1) SIGTERM), r, t'⟩ :: hups ++
        ⟨.mem .sessionLeaders, leaders, t⟩ :: first)

/-- The deeds of `Warned`, then a first wait for silence that has timed out, and SIGKILL to
everyone. -/
inductive Killed (leaders : List Int) : List Event → Prop
  | intro {base wait : List Event} {r : Ret} {t : ℕ} :
      Warned leaders base → TimedOut GRACE_SECS wait →
      Killed leaders (⟨.sys (.kill (-1) SIGKILL), r, t⟩ :: wait ++ base)

/-- The deeds of `Killed`, and then a second wait for silence that has timed out. -/
inductive Exhausted (leaders : List Int) : List Event → Prop
  | intro {base wait : List Event} :
      Killed leaders base → TimedOut AFTER_KILL_SECS wait → Exhausted leaders (wait ++ base)

/-- Since the first request for a shutdown, which was for `action`, `h` has the deeds `d`; no
process was started since then, and the machine was never handed over. -/
structure Since (action : Action) (d h : List Event) : Prop where
  split : ∃ (after before : List Event) (request : Event),
    h = after ++ request :: before ∧ request.asks = some action ∧
      (∀ e ∈ before, e.asks = none) ∧ (∀ e ∈ after, e.call ≠ .sys .fork) ∧ deeds after = d
  kept : ∀ e ∈ h, e.call.handsOver = false

/-- No shutdown was asked for, and the machine was never handed over. -/
def Fresh (h : List Event) : Prop :=
  ∀ e ∈ h, e.asks = none ∧ e.call.handsOver = false

/-- No `sync` was called. -/
def Unflushed (d : List Event) : Prop := ∀ e ∈ d, e.call ≠ .sys .sync

/-! ## What a place says about the history -/

/-- What the last `waitpid` of a harvest has reported, by whether children are left. -/
def reported (childrenLeft : Bool) : Sys.Reaped :=
  if childrenLeft then .stillRunning else .noChildrenLeft

/-- The deeds before a wait for silence: those of `Warned` before the first wait, and those of
`Killed` before the second one. -/
def Base (killed : Bool) (d : List Event) : Prop :=
  ∃ leaders, if killed then Killed leaders d else Warned leaders d

/-- A wait for silence is under way, and `between` are the calls it has made since its first reading
of the clock. -/
def Waiting (killed : Bool) (deadline : ℕ) (between d : List Event) : Prop :=
  ∃ (start t : ℕ) (base : List Event), d = between ++ ⟨.sys .clockGettime, start, t⟩ :: base ∧
    deadline = start + Place.grace killed ∧ Base killed base ∧ ∀ e ∈ between, e.call.looks

/-- The shutdown to which a reap belongs, if it belongs to one. -/
def Why.action : Why → Option Action
  | .supervising => none
  | .stopping action => some action
  | .silence action _ _ => some action

/-- The deeds since the request while `reap_all` is at work, or when it has returned; in the latter
case with what its last `waitpid` has reported. -/
def Why.shape (d : List Event) (last : Option Sys.Reaped) : Why → Prop
  | .supervising => True
  | .stopping _ => (∀ e ∈ d, e.call.reaps) ∧ (last.isSome → lastReap d = last)
  | .silence _ killed deadline =>
      ∃ between, Waiting killed deadline between d ∧ (last.isSome → lastReap between = last)

namespace Place

/-- The shutdown that is under way at a place, if there is one. -/
def action : Place → Option Action
  | .reaping why _ => why.action
  | .crediting why _ _ _ => why.action
  | .harvested why _ _ => why.action
  | .listing action => some action
  | .hangingUp action _ => some action
  | .continuing action => some action
  | .timing action _ => some action
  | .checking action _ _ => some action
  | .watching action _ _ => some action
  | .watched action _ _ => some action
  | .killing action => some action
  | .silent action => some action
  | .synced action => some action
  | _ => none

/-- The places at which pid 1 parks or is lost. -/
def isOver : Place → Bool
  | .parking => true
  | .parked _ => true
  | .lost => true
  | _ => false

/-- What the deeds since the request look like at each place of a shutdown. -/
def shape (d : List Event) : Place → Prop
  | .reaping why _ => why.shape d none
  | .crediting why _ _ _ => why.shape d none
  | .harvested why _ childrenLeft => why.shape d (some (reported childrenLeft))
  | .listing _ => (∀ e ∈ d, e.call.reaps) ∧ lastReap d = some .stillRunning
  | .hangingUp _ rest => ∃ (first hups : List Event) (leaders done : List Int) (t : ℕ),
      (∀ e ∈ first, e.call.reaps) ∧ lastReap first = some .stillRunning ∧ leaders = done ++ rest ∧
        hups.map Event.call =
          (done.map fun leader => Call.sys (.kill (-leader) SIGHUP)).reverse ∧
        d = hups ++ ⟨.mem .sessionLeaders, leaders, t⟩ :: first
  | .continuing _ =>
      ∃ leaders, ∀ (r : Ret) (t : ℕ), Warned leaders (⟨.sys (.kill (-1) SIGCONT), r, t⟩ :: d)
  | .timing _ killed => Base killed d
  | .checking _ killed deadline =>
      ∃ between, Waiting killed deadline between d ∧ lastReap between = some .stillRunning
  | .watching _ killed deadline => ∃ between, Waiting killed deadline between d
  | .watched _ killed deadline => ∃ between, Waiting killed deadline between d
  | .killing _ => ∃ leaders wait base, d = wait ++ base ∧ TimedOut GRACE_SECS wait ∧
      Warned leaders base
  | .silent _ => lastReap d = some .noChildrenLeft ∨ ∃ leaders, Exhausted leaders d
  | _ => True

end Place

/-- The history that leads to a place: no shutdown was asked for, or the deeds since the request
have the shape that the place has, and `sync` was called only as the last of them. -/
def Story (p : Place) (h : List Event) : Prop :=
  match p with
  | .synced action => ∃ (d : List Event) (r : Ret) (t : ℕ), Since action (⟨.sys .sync, r, t⟩ :: d) h ∧
      Unflushed d ∧ (lastReap d = some .noChildrenLeft ∨ ∃ leaders, Exhausted leaders d)
  | p =>
      match p.action with
      | some action => ∃ d, Since action d h ∧ Unflushed d ∧ p.shape d
      | none => p.isOver = false → Fresh h

variable {p : Place} {h d : List Event} {e : Event} {action : Action}

/-- The place at which `sync` was just called. -/
def Place.isSynced : Place → Bool
  | .synced _ => true
  | _ => false

theorem story_going (notSynced : p.isSynced = false) (going : p.action = some action) :
    Story p h ↔ ∃ d, Since action d h ∧ Unflushed d ∧ p.shape d := by
  unfold Story
  split
  · cases notSynced
  · rw [going]

theorem story_fresh (fresh : p.action = none) :
    Story p h ↔ (p.isOver = false → Fresh h) := by
  unfold Story
  split
  · cases fresh
  · rw [fresh]

/-! ## One more event -/

theorem Call.log_facts {c : Call} (log : c.isLog) :
    c.handsOver = false ∧ c ≠ .sys .fork ∧ ∀ (r : c.Res) (t : ℕ), Event.asks ⟨c, r, t⟩ = none := by
  cases c with
  | sys s => cases s <;> first | cases log; done | exact ⟨rfl, nofun, fun _ _ => rfl⟩
  | mem o => cases o <;> first | cases log; done | exact ⟨rfl, nofun, fun _ _ => rfl⟩

theorem Call.bringUp_facts {c : Call} (early : c.isBringUp) :
    c.handsOver = false ∧ ∀ (r : c.Res) (t : ℕ), Event.asks ⟨c, r, t⟩ = none := by
  cases c with
  | sys s =>
      cases s with
      | reboot command =>
          have same : command = RB_DISABLE_CAD := beq_iff_eq.mp early
          subst same
          exact ⟨rfl, fun _ _ => rfl⟩
      | _ => first | cases early; done | exact ⟨rfl, fun _ _ => rfl⟩
  | mem o => cases o <;> first | cases early | exact ⟨rfl, fun _ _ => rfl⟩

theorem Fresh.cons (fresh : Fresh h) (asks : e.asks = none) (keeps : e.call.handsOver = false) :
    Fresh (e :: h) := by
  intro e' member
  rcases List.mem_cons.mp member with rfl | old
  · exact ⟨asks, keeps⟩
  · exact fresh e' old

/-- The first request for a shutdown begins the list of deeds. -/
theorem Fresh.asked (fresh : Fresh h) (asks : e.asks = some action)
    (keeps : e.call.handsOver = false) : Since action [] (e :: h) := by
  refine ⟨⟨[], h, e, rfl, asks, fun e' old => (fresh e' old).1, List.forall_mem_nil _, rfl⟩, ?_⟩
  intro e' member
  rcases List.mem_cons.mp member with rfl | old
  · exact keeps
  · exact (fresh e' old).2

theorem Since.cons (since : Since action d h) (notFork : e.call ≠ .sys .fork)
    (keeps : e.call.handsOver = false) :
    Since action (if e.call.isLog then d else e :: d) (e :: h) := by
  obtain ⟨⟨after, before, request, rfl, asks, first, noStart, rfl⟩, kept⟩ := since
  refine ⟨⟨e :: after, before, request, rfl, asks, first, ?_, ?_⟩, ?_⟩
  · intro e' member
    rcases List.mem_cons.mp member with rfl | old
    · exact notFork
    · exact noStart e' old
  · cases log : e.call.isLog <;> simp [deeds, log]
  · intro e' member
    rcases List.mem_cons.mp member with rfl | old
    · exact keeps
    · exact kept e' old

theorem Since.log (since : Since action d h) (log : e.call.isLog) : Since action d (e :: h) := by
  have more := since.cons (Call.log_facts log).2.1 (Call.log_facts log).1
  rwa [if_pos log] at more

theorem Since.deed (since : Since action d h) (notLog : e.call.isLog = false)
    (notFork : e.call ≠ .sys .fork) (keeps : e.call.handsOver = false) :
    Since action (e :: d) (e :: h) := by
  have more := since.cons notFork keeps
  rwa [notLog] at more

theorem Unflushed.cons (unflushed : Unflushed d) (notSync : e.call ≠ .sys .sync) :
    Unflushed (e :: d) := by
  intro e' member
  rcases List.mem_cons.mp member with rfl | old
  · exact notSync
  · exact unflushed e' old

theorem Story.log (story : Story p h) (log : e.call.isLog) : Story p (e :: h) := by
  cases synced : p.isSynced with
  | true =>
      cases p with
      | synced =>
          obtain ⟨d, r, t, since, rest⟩ := story
          exact ⟨d, r, t, since.log log, rest⟩
      | _ => cases synced
  | false =>
      cases going : p.action with
      | some action =>
          rw [story_going synced going] at story ⊢
          obtain ⟨d, since, rest⟩ := story
          exact ⟨d, since.log log, rest⟩
      | none =>
          rw [story_fresh going] at story ⊢
          exact fun up => (story up).cons ((Call.log_facts log).2.2 _ _) (Call.log_facts log).1

/-- Moves before the first request that do not ask for a shutdown. -/
theorem Story.fresh (story : Story p h) (noAction : p.action = none) (up : p.isOver = false)
    (asks : e.asks = none) (keeps : e.call.handsOver = false) {q : Place}
    (still : q.action = none) : Story q (e :: h) :=
  (story_fresh still).mpr fun _ => ((story_fresh noAction).mp story up).cons asks keeps

/-- The calls of `stop_everything` other than those of the log. -/
def Call.isDeed (c : Call) : Bool :=
  c.looks || match c with
    | .sys (.kill _ _) => true
    | .mem .sessionLeaders => true
    | _ => false

theorem Call.deed_facts {c : Call} (deed : c.isDeed) :
    c.isLog = false ∧ c ≠ .sys .fork ∧ c.handsOver = false ∧ c ≠ .sys .sync := by
  cases c with
  | sys s => cases s <;> first | cases deed; done | exact ⟨rfl, nofun, rfl, nofun⟩
  | mem o => cases o <;> first | cases deed; done | exact ⟨rfl, nofun, rfl, nofun⟩

/-- Moves of a shutdown, with calls of `stop_everything`. -/
theorem Story.deed (story : Story p h) (notSynced : p.isSynced = false)
    (going : p.action = some action) (deed : e.call.isDeed) {q : Place}
    (next : q.isSynced = false) (same : q.action = some action)
    (shape : ∀ d, p.shape d → q.shape (e :: d)) : Story q (e :: h) := by
  obtain ⟨notLog, notFork, keeps, notSync⟩ := Call.deed_facts deed
  obtain ⟨d, since, unflushed, at_⟩ := (story_going notSynced going).mp story
  exact (story_going next same).mpr
    ⟨e :: d, since.deed notLog notFork keeps, unflushed.cons notSync, shape d at_⟩

/-! ## Reaping -/

theorem lastReap_append {xs ys : List Event} {last : Sys.Reaped} (h : lastReap xs = some last) :
    lastReap (xs ++ ys) = some last := by
  rw [lastReap, List.findSome?_append]
  unfold lastReap at h
  rw [h]
  rfl

/-- A wait for silence goes on with one more of its calls. -/
theorem Waiting.cons {killed : Bool} {deadline : ℕ} {between : List Event}
    (waiting : Waiting killed deadline between d) (looks : e.call.looks) :
    Waiting killed deadline (e :: between) (e :: d) := by
  obtain ⟨start, t, base, rfl, due, before, all⟩ := waiting
  refine ⟨start, t, base, rfl, due, before, ?_⟩
  intro e' member
  rcases List.mem_cons.mp member with rfl | old
  · exact looks
  · exact all e' old

theorem Why.shape_waitpid {why : Why} (shape : why.shape d none) (r : Ret × Status) (t : ℕ) :
    why.shape (⟨.sys .waitpid, r, t⟩ :: d) (some (Sys.reapedOf r)) := by
  cases why with
  | supervising => trivial
  | stopping action =>
      refine ⟨?_, fun _ => rfl⟩
      intro e member
      rcases List.mem_cons.mp member with rfl | old
      · rfl
      · exact shape.1 e old
  | silence action killed deadline =>
      obtain ⟨between, waiting, -⟩ := shape
      exact ⟨_, waiting.cons rfl, fun _ => rfl⟩

theorem Why.shape_reaps {why : Why} {last : Option Sys.Reaped} (shape : why.shape d last)
    (reaps : e.call.reaps) (silent : e.reap = none) : why.shape (e :: d) last := by
  have same : ∀ xs, lastReap (e :: xs) = lastReap xs := by
    intro xs
    rw [lastReap, List.findSome?_cons, silent]
    rfl
  cases why with
  | supervising => trivial
  | stopping action =>
      refine ⟨?_, fun known => (same d).trans (shape.2 known)⟩
      intro e' member
      rcases List.mem_cons.mp member with rfl | old
      · exact reaps
      · exact shape.1 e' old
  | silence action killed deadline =>
      obtain ⟨between, waiting, reported⟩ := shape
      have looks : e.call.looks := Bool.or_eq_true_iff.mpr (.inl reaps)
      exact ⟨e :: between, waiting.cons looks, fun known => (same between).trans (reported known)⟩

theorem Why.shape_forget {why : Why} {last : Option Sys.Reaped} (shape : why.shape d last) :
    why.shape d none := by
  cases why with
  | supervising => trivial
  | stopping => exact ⟨shape.1, nofun⟩
  | silence =>
      obtain ⟨between, waiting, -⟩ := shape
      exact ⟨between, waiting, nofun⟩

/-- Moves of `reap_all`, which lead from one of its places to another. -/
theorem Story.reap (story : Story p h) (why : Why) (from_ : p.action = why.action)
    (notSynced : p.isSynced = false) (up : p.isOver = false) (reaps : e.call.reaps) {q : Place}
    (to_ : q.action = why.action) (next : q.isSynced = false)
    (shape : ∀ d, p.shape d → q.shape (e :: d)) : Story q (e :: h) := by
  have looks : e.call.looks := Bool.or_eq_true_iff.mpr (.inl reaps)
  have deed : e.call.isDeed := Bool.or_eq_true_iff.mpr (.inl looks)
  have asks : e.asks = none := by
    obtain ⟨c, r, t⟩ := e
    cases c with
    | sys s => cases s <;> first | cases reaps; done | rfl
    | mem o => rfl
  cases going : why.action with
  | none =>
      rw [going] at from_ to_
      exact story.fresh from_ up asks (Call.deed_facts deed).2.2.1 to_
  | some action =>
      rw [going] at from_ to_
      exact story.deed notSynced from_ deed next to_ shape

theorem story_waitpid {why : Why} {shortestLife : Option ℕ} {r : Ret × Status} {t : ℕ}
    (story : Story (.reaping why shortestLife) h) :
    Story (Place.afterWaitpid why shortestLife r) (⟨.sys .waitpid, r, t⟩ :: h) := by
  have shape : ∀ d, why.shape d none →
      why.shape (⟨.sys .waitpid, r, t⟩ :: d) (some (Sys.reapedOf r)) :=
    fun d reaping => Why.shape_waitpid reaping r t
  unfold Place.afterWaitpid
  cases reaped : Sys.reapedOf r with
  | child pid status =>
      exact story.reap why rfl rfl rfl rfl rfl rfl fun d reaping => Why.shape_forget (shape d reaping)
  | stillRunning =>
      rw [reaped] at shape
      exact story.reap why rfl rfl rfl rfl rfl rfl shape
  | noChildrenLeft =>
      rw [reaped] at shape
      exact story.reap why rfl rfl rfl rfl rfl rfl shape

theorem story_recordExit {why : Why} {shortestLife : Option ℕ} {pid : Int} {status : Status}
    {r : Option Departed} {t : ℕ} (story : Story (.crediting why shortestLife pid status) h) :
    Story (Place.afterCredit why shortestLife r) (⟨.mem (.recordExit pid status), r, t⟩ :: h) := by
  cases r <;>
    exact story.reap why rfl rfl rfl rfl rfl rfl fun d crediting => Why.shape_reaps crediting rfl rfl

theorem story_forgetFinished {why : Why} {shortestLife : Option ℕ} {childrenLeft : Bool} {t : ℕ}
    (story : Story (.harvested why shortestLife childrenLeft) h) :
    Story (Place.afterHarvest why shortestLife childrenLeft)
      (⟨.mem .forgetFinished, (), t⟩ :: h) := by
  have forgot : ∀ d, why.shape d (some (reported childrenLeft)) →
      why.shape (⟨.mem .forgetFinished, (), t⟩ :: d) (some (reported childrenLeft)) :=
    fun d harvested => Why.shape_reaps harvested rfl rfl
  cases why with
  | supervising =>
      cases shortestLife with
      | none => exact story.fresh rfl rfl rfl rfl rfl
      | some ranFor =>
          simp only [Place.afterHarvest]
          split <;> exact story.fresh rfl rfl rfl rfl rfl
  | stopping action =>
      cases childrenLeft with
      | true =>
          refine story.reap (.stopping action) rfl rfl rfl rfl rfl rfl fun d harvested => ?_
          exact ⟨(forgot d harvested).1, (forgot d harvested).2 rfl⟩
      | false =>
          refine story.reap (.stopping action) rfl rfl rfl rfl rfl rfl fun d harvested => ?_
          exact .inl ((forgot d harvested).2 rfl)
  | silence action killed deadline =>
      cases childrenLeft with
      | true =>
          refine story.reap (.silence action killed deadline) rfl rfl rfl rfl rfl rfl
            fun d harvested => ?_
          obtain ⟨between, waiting, reported⟩ := forgot d harvested
          exact ⟨between, waiting, reported rfl⟩
      | false =>
          refine story.reap (.silence action killed deadline) rfl rfl rfl rfl rfl rfl
            fun d harvested => ?_
          obtain ⟨between, ⟨start, t, base, same, -⟩, reported⟩ := forgot d harvested
          rw [same]
          exact .inl (lastReap_append (reported rfl))

/-! ## The story is kept -/

theorem afterRead_asks (r : Ret × Int) (fd : Int) (t : ℕ) :
    match Event.asks ⟨.sys (.read fd), r, t⟩ with
    | some action => Place.afterRead r = .reaping (.stopping action) none
    | none => (Place.afterRead r).action = none := by
  unfold Event.asks Place.afterRead Place.afterSignal
  dsimp only
  by_cases full : r.1.rc = Sys.SIGINFO_SIZE
  · have enough : ¬ r.1.rc < 0 := by
      rw [full]
      decide
    rw [if_pos full, if_neg enough, if_neg (not_not.mpr full)]
    cases classify r.2 <;> rfl
  · rw [if_neg full]
    dsimp only
    split
    · split <;> rfl
    · rfl

theorem story_read {r : Ret × Int} {fd : Int} {t : ℕ} (story : Story .readable h) :
    Story (Place.afterRead r) (⟨.sys (.read fd), r, t⟩ :: h) := by
  have next := afterRead_asks r fd t
  cases asks : Event.asks ⟨.sys (.read fd), r, t⟩ with
  | none =>
      rw [asks] at next
      exact story.fresh rfl rfl asks rfl next
  | some action =>
      rw [asks] at next
      rw [next]
      have since : Since action [] (⟨.sys (.read fd), r, t⟩ :: h) := Fresh.asked (story rfl) asks rfl
      exact ⟨[], since, List.forall_mem_nil _, List.forall_mem_nil _, nofun⟩

/-- After the clock is read, the wait has timed out or goes on. -/
theorem story_check {killed : Bool} {deadline now t : ℕ}
    (story : Story (.checking action killed deadline) h) :
    Story (Place.afterCheck action killed deadline now) (⟨.sys .clockGettime, now, t⟩ :: h) := by
  unfold Place.afterCheck
  by_cases due : now ≥ deadline
  · have timedOut : ∀ d, (Place.checking action killed deadline).shape d →
        ∃ wait base, ⟨.sys .clockGettime, now, t⟩ :: d = wait ++ base ∧
          TimedOut (Place.grace killed) wait ∧ Base killed base := by
      rintro d ⟨between, ⟨start, t', base, rfl, rfl, before, looks⟩, left⟩
      refine ⟨⟨.sys .clockGettime, now, t⟩ :: between ++ [⟨.sys .clockGettime, start, t'⟩], base,
        ?_, ⟨start, now, t', t, between, rfl, due, left, looks⟩, before⟩
      simp
    rw [if_pos due]
    cases killed with
    | false =>
        refine story.deed rfl rfl rfl rfl rfl fun d checking => ?_
        obtain ⟨wait, base, same, waited, leaders, before⟩ := timedOut d checking
        exact ⟨leaders, wait, base, same, waited, before⟩
    | true =>
        refine story.deed rfl rfl rfl rfl rfl fun d checking => .inr ?_
        obtain ⟨wait, base, same, waited, leaders, before⟩ := timedOut d checking
        rw [same]
        exact ⟨leaders, .intro before waited⟩
  · rw [if_neg due]
    refine story.deed rfl rfl rfl rfl rfl fun d checking => ?_
    obtain ⟨between, waiting, -⟩ := checking
    exact ⟨_, waiting.cons rfl⟩

theorem story_hangUp {leader : Int} {rest : List Int} {r : Ret} {t : ℕ}
    (story : Story (.hangingUp action (leader :: rest)) h) :
    Story (.hangingUp action rest) (⟨.sys (.kill (-leader) SIGHUP), r, t⟩ :: h) := by
  refine story.deed rfl rfl rfl rfl rfl fun d hanging => ?_
  obtain ⟨first, hups, leaders, done, t', reaps, left, rfl, signalled, rfl⟩ := hanging
  refine ⟨first, _ :: hups, done ++ leader :: rest, done ++ [leader], t', reaps, left, ?_, ?_, rfl⟩
  · rw [List.append_assoc]
    rfl
  · rw [List.map_cons, signalled, List.map_append, List.reverse_append]
    rfl

theorem story_sync {r : Ret} {t : ℕ} (story : Story (.silent action) h) :
    Story (.synced action) (⟨.sys .sync, r, t⟩ :: h) := by
  obtain ⟨d, since, unflushed, silent⟩ := story
  exact ⟨d, r, t, since.deed rfl nofun rfl, unflushed, silent⟩

/-- Every move leads to a place with the story that belongs to it. -/
theorem Story.move {c : Call} {f : c.Res → Place} (story : Story p h) (move : Moves p c f)
    (r : c.Res) (t : ℕ) : Story (f r) (⟨c, r, t⟩ :: h) := by
  cases move with
  | log log => exact story.log log
  | bringUp early =>
      have facts := Call.bringUp_facts early
      exact story.fresh rfl rfl (facts.2 r t) facts.1 rfl
  | giveUpEarly => exact nofun
  | ask => cases r <;> exact story.fresh rfl rfl rfl rfl rfl
  | fork =>
      dsimp only
      split
      · exact story.fresh rfl rfl rfl rfl rfl
      · split <;> exact story.fresh rfl rfl rfl rfl rfl
  | noFork => cases r <;> exact story.fresh rfl rfl rfl rfl rfl
  | @track first => cases first <;> exact story.fresh rfl rfl rfl rfl rfl
  | running =>
      dsimp only
      split <;> exact story.fresh rfl rfl rfl rfl rfl
  | due =>
      dsimp only
      split <;> exact story.fresh rfl rfl rfl rfl rfl
  | poll =>
      refine story.fresh rfl rfl rfl rfl ?_
      unfold Place.afterPoll
      split
      · split <;> rfl
      · split <;> rfl
  | read => exact story_read story
  | waitpid => exact story_waitpid story
  | recordExit => exact story_recordExit story
  | forgetFinished => exact story_forgetFinished story
  | dying => cases r <;> exact story.fresh rfl rfl rfl rfl rfl
  | failed =>
      refine story.fresh rfl rfl rfl rfl ?_
      unfold Place.afterVerdict
      split <;> rfl
  | sessionLeaders =>
      refine story.deed rfl rfl rfl rfl rfl fun d listing => ?_
      exact ⟨d, [], r, [], t, listing.1, listing.2, rfl, rfl, rfl⟩
  | hangUp => exact story_hangUp story
  | terminate =>
      refine story.deed rfl rfl rfl rfl rfl fun d hanging => ?_
      obtain ⟨first, hups, leaders, done, t', reaps, left, rfl, signalled, rfl⟩ := hanging
      rw [List.append_nil]
      exact ⟨done, fun _ _ => .intro reaps left signalled⟩
  | cont =>
      refine story.deed rfl rfl rfl rfl rfl fun d continuing => ?_
      obtain ⟨leaders, warned⟩ := continuing
      exact ⟨leaders, warned r t⟩
  | @deadline _ killed =>
      refine story.deed rfl rfl rfl rfl rfl fun d timing => ?_
      exact ⟨[], ⟨r, t, d, rfl, rfl, timing, List.forall_mem_nil _⟩, nofun⟩
  | check => exact story_check story
  | watch =>
      dsimp only
      split
      · refine story.deed rfl rfl rfl rfl rfl fun d watching => ?_
        obtain ⟨between, waiting⟩ := watching
        exact ⟨_, waiting.cons rfl, nofun⟩
      · refine story.deed rfl rfl rfl rfl rfl fun d watching => ?_
        obtain ⟨between, waiting⟩ := watching
        exact ⟨_, waiting.cons rfl⟩
  | watchRead =>
      refine story.deed rfl rfl rfl rfl rfl fun d watched => ?_
      obtain ⟨between, waiting⟩ := watched
      exact ⟨_, waiting.cons rfl, nofun⟩
  | kill =>
      refine story.deed rfl rfl rfl rfl rfl fun d killing => ?_
      obtain ⟨leaders, wait, base, rfl, waited, warned⟩ := killing
      exact ⟨leaders, .intro warned waited⟩
  | sync => exact story_sync story
  | handOver => exact nofun
  | park => exact nofun
  | pause => exact nofun
  | _ => exact story.fresh rfl rfl rfl rfl rfl

/-- The history of every path is the story of the place it leads to. -/
theorem Path.story (path : Path h p) : Story p h := by
  induction path with
  | boot => exact fun _ => List.forall_mem_nil _
  | move _ move ih => exact ih.move move _ _

/-! ## The shutdown -/

/-- What the history is like when the machine is handed over: it was not handed over before; the
first request was for `action`; no process was started after that request; and the last deed
since was the only flush.  Before the flush either the last `waitpid` had reported that there
are no children, or everything was tried, with SIGHUP to the groups of session leaders that
`listed` accepts. -/
structure Orderly (listed : List Int → Prop) (action : Action) (h : List Event) : Prop where
  once : ∀ e ∈ h, e.call.handsOver = false
  order : ∃ (after before d : List Event) (request : Event) (r : Ret) (t : ℕ),
    h = after ++ request :: before ∧ request.asks = some action ∧
      (∀ e ∈ before, e.asks = none) ∧ (∀ e ∈ after, e.call ≠ .sys .fork) ∧
      deeds after = ⟨.sys .sync, r, t⟩ :: d ∧ Unflushed d ∧
      (lastReap d = some .noChildrenLeft ∨ ∃ leaders, listed leaders ∧ Exhausted leaders d)

variable {K : Type} {k : Kernel K} {candidates : List Spec} {kern : K}
  {conf : Config calls (World K) Unit}

/-- The pids of the entries that are in the state Running and own a session. -/
def Table.runningLeaders (t : Table) : List Int :=
  (t.entries.filter fun e => e.state = .running ∧ e.ownsSession = true).map Entry.pid

theorem Table.sessionLeaders_eq (t : Table) : t.sessionLeaders = t.runningLeaders := by
  unfold sessionLeaders runningLeaders
  refine congrArg (List.map Entry.pid) (List.filter_congr fun e _ => ?_)
  rw [Bool.and_comm, Bool.decide_and, Bool.decide_eq_true]
  exact congrArg (· && e.ownsSession) (beq_eq_decide e.state State.running)

theorem Table.runningLeaders_sublist (t : Table) : t.runningLeaders.Sublist t.shells := by
  refine List.Sublist.map _ (List.monotone_filter_right _ fun e leads => ?_)
  obtain ⟨running, -⟩ := of_decide_eq_true leads
  exact beq_iff_eq.mpr running

/-- `leaders` has no pid twice, and whenever pid 1 was given it for the session leaders on the way
to `conf`, it was the list of the running session leaders of the table at that moment. -/
structure Listed (k : Kernel K) (candidates : List Spec) (kern : K)
    (conf : Config calls (World K) Unit) (leaders : List Int) : Prop where
  distinct : leaders.Nodup
  table : ∀ (before : List Event) (t : ℕ),
    ⟨.mem .sessionLeaders, leaders, t⟩ :: before <:+ conf.world.hist →
      ∃ c, Reaches k.semantics (boot candidates kern) c ∧ Reaches k.semantics c conf ∧
        c.world.hist = before ∧ c.world.mem.table.runningLeaders = leaders

/-- Every list of session leaders that pid 1 was given is that of the running ones in the table at
that moment. -/
theorem listed_of_hist (reach : Reaches k.semantics (boot candidates kern) conf) {leaders : List Int}
    {before : List Event} {t : ℕ}
    (given : ⟨.mem .sessionLeaders, leaders, t⟩ :: before <:+ conf.world.hist) :
    Listed k candidates kern conf leaders := by
  have asked : ∀ {before : List Event} {t : ℕ},
      ⟨.mem .sessionLeaders, leaders, t⟩ :: before <:+ conf.world.hist →
        ∃ c, Reaches k.semantics (boot candidates kern) c ∧ Reaches k.semantics c conf ∧
          c.world.hist = before ∧ c.world.mem.table.runningLeaders = leaders := by
    intro before t given
    obtain ⟨c, w', reach', onwards, hist, answer⟩ := exists_before reach given
    cases answer with
    | mem => exact ⟨c, reach', onwards, hist, (Table.sessionLeaders_eq _).symm⟩
  refine ⟨?_, fun before t => asked⟩
  obtain ⟨c, reach', -, -, rfl⟩ := asked given
  obtain ⟨p, path, -⟩ := exists_path reach'
  exact (Table.runningLeaders_sublist _).nodup (tidy_everywhere reach' path).distinct

theorem Warned.lists {leaders : List Int} {d : List Event} (warned : Warned leaders d) :
    ∃ t, (⟨.mem .sessionLeaders, leaders, t⟩ : Event) ∈ d := by
  cases warned with
  | @intro first hups r r' t =>
      exact ⟨t, List.mem_append_right (_ :: _ :: hups) List.mem_cons_self⟩

theorem Exhausted.lists {leaders : List Int} {d : List Event} (exhausted : Exhausted leaders d) :
    ∃ t, (⟨.mem .sessionLeaders, leaders, t⟩ : Event) ∈ d := by
  cases exhausted with
  | @intro base wait killed =>
      cases killed with
      | @intro base' wait' r t warned =>
          obtain ⟨t', member⟩ := warned.lists
          exact ⟨t', List.mem_append_right _ (List.mem_append_right (_ :: wait') member)⟩

/-- This holds of the list that is among the deeds since the request as well. -/
theorem Since.listed (since : Since action d conf.world.hist)
    (reach : Reaches k.semantics (boot candidates kern) conf) {leaders : List Int}
    (given : ∃ t, (⟨.mem .sessionLeaders, leaders, t⟩ : Event) ∈ d) :
    Listed k candidates kern conf leaders := by
  obtain ⟨t, member⟩ := given
  obtain ⟨after, before, request, split, -, -, -, rfl⟩ := since.split
  have made : (⟨.mem .sessionLeaders, leaders, t⟩ : Event) ∈ conf.world.hist := by
    rw [split]
    exact List.mem_append_left _ (List.mem_of_mem_filter member)
  obtain ⟨later, earlier, split'⟩ := List.append_of_mem made
  have given : (⟨.mem .sessionLeaders, leaders, t⟩ : Event) :: earlier <:+ conf.world.hist :=
    ⟨later, split'.symm⟩
  exact listed_of_hist reach given

/-- When SIGKILL is sent, the history is the story of the place `killing`. -/
theorem story_of_kill {target : Int} (reach : Reaches k.semantics (boot candidates kern) conf)
    (next : conf.prog.next = some (Call.sys (.kill target SIGKILL))) :
    ∃ action, Story (.killing action) conf.world.hist := by
  obtain ⟨p, f, path, -, move⟩ := expected_of_next reach next
  have story := path.story
  cases move with
  | log log => cases log
  | bringUp early => cases early
  | @kill action => exact ⟨action, story⟩

/-- When the machine is handed over, the history is the story of the place after `sync`. -/
theorem story_of_handOver {command : Int} (reach : Reaches k.semantics (boot candidates kern) conf)
    (next : conf.prog.next = some (Call.sys (.reboot command))) (notEnable : command ≠ RB_ENABLE_CAD)
    (notDisable : command ≠ RB_DISABLE_CAD) :
    ∃ action : Action, command = action.kernelCommand ∧ Story (.synced action) conf.world.hist := by
  obtain ⟨p, f, path, -, move⟩ := expected_of_next reach next
  have story := path.story
  cases move with
  | log log => cases log
  | bringUp early => exact absurd (beq_iff_eq.mp early) notDisable
  | giveUpEarly => exact absurd rfl notEnable
  | park => exact absurd rfl notEnable
  | @handOver action => exact ⟨action, rfl, story⟩

/-- **Shutdown happens once, for the right reason and in the right order**, on any kernel.  At a
hand-over the history is `Orderly`, and SIGKILL is sent only after a first wait that timed out.
The session leaders whose groups get the SIGHUP are those that were running in the table when
pid 1 asked it for them, after the reap, and each gets it once. -/
theorem shutdown_is_orderly (reach : Reaches k.semantics (boot candidates kern) conf) :
    (∀ command, conf.prog.next = some (Call.sys (.reboot command)) → command ≠ RB_ENABLE_CAD →
      command ≠ RB_DISABLE_CAD → ∃ action : Action, command = action.kernelCommand ∧
        Orderly (Listed k candidates kern conf) action conf.world.hist) ∧
      ∀ target, conf.prog.next = some (Call.sys (.kill target SIGKILL)) →
        ∃ (action : Action) (leaders : List Int) (wait base : List Event),
          Since action (wait ++ base) conf.world.hist ∧ TimedOut GRACE_SECS wait ∧
            Listed k candidates kern conf leaders ∧ Warned leaders base := by
  refine ⟨fun command next notEnable notDisable => ?_, fun target next => ?_⟩
  · obtain ⟨action, commands, d, r, t, since, unflushed, silent⟩ :=
      story_of_handOver reach next notEnable notDisable
    obtain ⟨after, before, request, split, asks, first, noStart, all⟩ := since.split
    refine ⟨action, commands, since.kept,
      ⟨after, before, d, request, r, t, split, asks, first, noStart, all, unflushed, ?_⟩⟩
    refine silent.imp_right fun exhausted => ?_
    obtain ⟨leaders, exhausted⟩ := exhausted
    obtain ⟨t', given⟩ := exhausted.lists
    exact ⟨leaders, since.listed reach ⟨t', List.mem_cons_of_mem _ given⟩, exhausted⟩
  · obtain ⟨action, d, since, -, leaders, wait, base, rfl, waited, warned⟩ :=
      story_of_kill reach next
    obtain ⟨t, given⟩ := warned.lists
    exact ⟨action, leaders, wait, base, since, waited,
      since.listed reach ⟨t, List.mem_append_right _ given⟩, warned⟩

/-- The script in which SIGUSR2 arrives at the first wait, and a child never goes away. -/
def stubborn : Script Kernel.anything where
  before w _ := w.kern
  answer w
    | .fork => some (⟨100, ⟨0, ""⟩⟩, ())
    | .waitpid => some ((⟨0, ⟨0, ""⟩⟩, 0), ())
    | .clockGettime => if w.hist.length < 2 ^ 63 then some (w.hist.length, ()) else none
    | .poll _ millis => some (⟨if millis < 0 then 1 else 0, ⟨0, ""⟩⟩, ())
    | .read _ => some ((⟨Sys.SIGINFO_SIZE, ⟨0, ""⟩⟩, SIGUSR2), ())
    | s => s.smooth.map fun r => (r, ())
  clock _ := 0
  others := Script.still
  answers {w s r kern} h := by
    cases s with
    | fork => cases h; exact .inr (by decide)
    | waitpid => exact trivial
    | clockGettime =>
        obtain ⟨early, rfl⟩ := by simpa using h
        exact early
    | poll => exact trivial
    | read => exact trivial
    | _ => exact (Syscall.smoothly h).1
  reads _ := trivial

/-- Pid 1 about to switch the machine off, having tried everything. -/
def switchingOff : Config calls (World Unit) Unit :=
  stubborn.driver.run (fun c => c.prog.next == some (Call.sys (.reboot RB_POWER_OFF))) 2000
    (boot CANDIDATES ())

theorem switchingOff_reachable :
    Reaches Kernel.anything.semantics (boot CANDIDATES ()) switchingOff :=
  stubborn.driver.reaches _ _ _

theorem shutdown_is_orderly_when_stubborn :
    ∃ action : Action, RB_POWER_OFF = action.kernelCommand ∧
      Orderly (Listed Kernel.anything CANDIDATES () switchingOff) action switchingOff.world.hist := by
  have handsOver : switchingOff.prog.next = some (Call.sys (.reboot RB_POWER_OFF)) := by
    decide +kernel
  have holds := shutdown_is_orderly switchingOff_reachable
  exact holds.1 RB_POWER_OFF handsOver (by decide) (by decide)

end Zevory
