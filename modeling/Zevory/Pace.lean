import Mathlib.Data.List.Chain
import Zevory.Clock

/-!
# The pace of the starts

When the shells were started, in true time.  `Paced` says place by place what keeps pid 1
from a start in the second of the last one: the life of the shell, or the respawn time.
-/

namespace Zevory

open Interaction Signal

/-- The times at which shells were started, newest first. -/
def startTimes (h : List Event) : List ℕ := (h.filter Event.forks).map Event.time

/-- By `now` a second of the clock has begun since `start`. -/
def Ready (start now : ℕ) : Prop := start / NANOS + 1 ≤ now / NANOS

/-- A second of the clock has begun since `start`, or the respawn time lies in a later second than
`start`. -/
def Rested (start now respawnAt : ℕ) : Prop :=
  Ready start now ∨ start / NANOS + 1 ≤ respawnAt

theorem Ready.later {start now later : ℕ} (ready : Ready start now) (passes : now ≤ later) :
    Ready start later :=
  Nat.le_trans ready (Nat.div_le_div_right passes)

theorem Rested.later {start now later respawnAt : ℕ} (rested : Rested start now respawnAt)
    (passes : now ≤ later) : Rested start later respawnAt :=
  rested.imp_left fun ready => ready.later passes

namespace Place

/-- What is known of the last start while `reap_all` is at work. -/
def reapsAfter (start now respawnAt : ℕ) (shells : List Int) : Why → Option ℕ → Prop
  | .supervising, none => shells = [] → Rested start now respawnAt
  | .supervising, some ranFor => ranFor ≥ RESPAWN_IS_TOO_FAST → Ready start now
  | _, _ => True

/-- What each place says about the last start, at `start`. -/
def paces (start now respawnAt : ℕ) (shells : List Int) : Place → Prop
  | .bringUp => False
  | .asking _ => Ready start now
  | .chosen _ _ => Ready start now
  | .up => shells ≠ []
  | .loopHead => shells = [] → Rested start now respawnAt
  | .idle => shells = [] → Rested start now respawnAt
  | .due read => read ≤ now / NANOS ∧ (shells = [] → Rested start now respawnAt)
  | .waiting _ => shells = [] → Rested start now respawnAt
  | .readable => shells = [] → Rested start now respawnAt
  | .reaping why shortestLife => reapsAfter start now respawnAt shells why shortestLife
  | .crediting why shortestLife _ _ => reapsAfter start now respawnAt shells why shortestLife
  | .harvested why shortestLife _ => reapsAfter start now respawnAt shells why shortestLife
  | .surviving => Ready start now
  | .backingOff read => start / NANOS ≤ read
  | .dying => start / NANOS + 1 ≤ respawnAt
  | .striking => start / NANOS + 1 ≤ respawnAt
  | _ => True

variable {p : Place} {start now later respawnAt : ℕ} {shells : List Int}

/-- What a place says about the last start does not become false as time passes. -/
theorem paces_later (passes : now ≤ later) (paces : p.paces start now respawnAt shells) :
    p.paces start later respawnAt shells := by
  have reaps : ∀ {why shortestLife}, reapsAfter start now respawnAt shells why shortestLife →
      reapsAfter start later respawnAt shells why shortestLife := by
    intro why shortestLife known
    cases why with
    | supervising =>
        cases shortestLife with
        | none => exact fun noShell => (known noShell).later passes
        | some => exact fun long => (known long).later passes
    | stopping => trivial
    | silence => trivial
  cases p with
  | asking => exact Ready.later paces passes
  | chosen => exact Ready.later paces passes
  | surviving => exact Ready.later paces passes
  | loopHead => exact fun noShell => (paces noShell).later passes
  | idle => exact fun noShell => (paces noShell).later passes
  | due =>
    exact ⟨Nat.le_trans paces.1 (Nat.div_le_div_right passes),
      fun noShell => (paces.2 noShell).later passes⟩
  | waiting => exact fun noShell => (paces noShell).later passes
  | readable => exact fun noShell => (paces noShell).later passes
  | reaping => exact reaps paces
  | crediting => exact reaps paces
  | harvested => exact reaps paces
  | _ => exact paces

end Place

/-- Between any two starts a second of the clock begins, and the place says the right thing about
the last one. -/
structure Paced (p : Place) (w : World ℕ) : Prop where
  apart : List.IsChain (fun later earlier => Ready earlier later) (startTimes w.hist)
  past : ∀ start ∈ (startTimes w.hist).head?, start ≤ w.kern
  entries : ∀ start ∈ (startTimes w.hist).head?, ∀ e ∈ w.mem.table.entries, e.isRunning →
    start / NANOS ≤ e.startedAt
  paces : ∀ start ∈ (startTimes w.hist).head?,
    p.paces start w.kern w.mem.respawnAt w.mem.table.shells

variable {p q : Place} {w w' : World ℕ} {c : Call} {f : c.Res → Place} {r : c.Res}

theorem startTimes_same (answer : clockKernel.Answers w c r w')
    (forks : ∀ t, Event.forks ⟨c, r, t⟩ = false) : startTimes w'.hist = startTimes w.hist := by
  rw [answer.hist, startTimes, startTimes, List.filter_cons_of_neg]
  rw [forks]
  exact Bool.false_ne_true

/-- Calls that start no shell and put no new entry into the table keep the pace. -/
theorem Paced.plain (paced : Paced p w) (answer : clockKernel.Answers w c r w')
    (forks : ∀ t, Event.forks ⟨c, r, t⟩ = false)
    (entries : ∀ e ∈ w'.mem.table.entries, e.isRunning → e ∈ w.mem.table.entries ∨
      ∀ start ∈ (startTimes w.hist).head?, start / NANOS ≤ e.startedAt)
    (next : ∀ start ∈ (startTimes w.hist).head?, start ≤ w.kern →
      p.paces start w.kern w.mem.respawnAt w.mem.table.shells →
      q.paces start w.kern w'.mem.respawnAt w'.mem.table.shells) : Paced q w' := by
  have same := startTimes_same answer forks
  have stands := clock_stands answer
  refine ⟨?_, ?_, ?_, ?_⟩
  · rw [same]
    exact paced.apart
  · rw [same, stands]
    exact paced.past
  · rw [same]
    intro start newest e member running
    rcases entries e member running with old | new
    · exact paced.entries start newest e old running
    · exact new start newest
  · rw [same, stands]
    exact fun start newest => next start newest (paced.past start newest) (paced.paces start newest)

/-- The calls that neither start a shell nor change the table or the respawn time. -/
def Call.keepsPace : Call → Bool
  | .sys .fork => false
  | .mem (.setRespawnAt _) => false
  | c => !c.changesTable

theorem Call.keepsPace_of_log (log : c.isLog) : c.keepsPace := by
  cases c with
  | sys s => cases s <;> first | rfl | cases log
  | mem o => cases o <;> first | rfl | cases log

theorem Call.keepsPace_of_bringUp (early : c.isBringUp) : c.keepsPace := by
  cases c with
  | sys s => cases s <;> first | rfl | cases early
  | mem o => cases o <;> first | rfl | cases early

theorem Paced.to (paced : Paced p w) (answer : clockKernel.Answers w c r w') (keeps : c.keepsPace)
    (next : ∀ start, start ≤ w.kern → p.paces start w.kern w.mem.respawnAt w.mem.table.shells →
      q.paces start w.kern w.mem.respawnAt w.mem.table.shells) : Paced q w' := by
  have forks : ∀ t, Event.forks ⟨c, r, t⟩ = false := by
    intro t
    cases c with
    | sys s => cases s <;> first | rfl | cases keeps
    | mem => rfl
  have same : w'.mem.table = w.mem.table ∧ w'.mem.respawnAt = w.mem.respawnAt := by
    cases answer with
    | sys => exact ⟨rfl, rfl⟩
    | @mem o => cases o <;> first | exact ⟨rfl, rfl⟩ | cases keeps
  obtain ⟨table, respawnAt⟩ := same
  refine paced.plain answer forks (fun e member _ => ?_) fun start _ => ?_
  · rw [table] at member
    exact .inl member
  · rw [table, respawnAt]
    exact next start

/-! ## The calls that count -/

theorem paced_fork {first : Bool} {spec : Spec} {r : Ret} (paced : Paced (.chosen first spec) w)
    (tidy : Tidy (.chosen first spec) w.mem.table)
    (answer : clockKernel.Answers w (.sys .fork) r w') :
    Paced (if r.rc = -1 then .noFork else if r.rc = 0 then .lost else .forked first spec r.rc)
      w' := by
  have open_ : ∀ start now respawnAt shells, Place.paces start now respawnAt shells
      (if r.rc = -1 then .noFork else if r.rc = 0 then .lost else .forked first spec r.rc) := by
    intro start now respawnAt shells
    split
    · trivial
    · split <;> trivial
  have noShell : w.mem.table.shells = [] := tidy.demands
  have noEntry : ∀ e ∈ w.mem.table.entries, e.isRunning → False := by
    intro e member running
    have shell : e.pid ∈ w.mem.table.shells :=
      List.mem_map.mpr ⟨e, List.mem_filter.mpr ⟨member, running⟩, rfl⟩
    rw [noShell] at shell
    cases shell
  cases answer with
  | sys answer =>
      obtain ⟨-, -, rfl⟩ := answer
      by_cases child : 0 < r.rc
      · have starts : startTimes (w.called (clockKernel.time w.kern) .fork r w.kern).hist =
            w.kern :: startTimes w.hist :=
          congrArg (List.map Event.time) (List.filter_cons_of_pos (decide_eq_true child))
        refine ⟨?_, ?_, ?_, fun start _ => open_ start _ _ _⟩
        · rw [starts, List.isChain_cons]
          exact ⟨paced.paces, paced.apart⟩
        · intro start newest
          rw [starts] at newest
          cases newest
          exact Nat.le_refl _
        · exact fun start _ e member running => (noEntry e member running).elim
      · have starts : startTimes (w.called (clockKernel.time w.kern) .fork r w.kern).hist =
            startTimes w.hist :=
          congrArg (List.map Event.time)
            (List.filter_cons_of_neg fun forks => child (of_decide_eq_true forks))
        refine ⟨?_, ?_, ?_, fun start _ => open_ start _ _ _⟩
        · rw [starts]
          exact paced.apart
        · rw [starts]
          exact paced.past
        · exact fun start _ e member running => (noEntry e member running).elim

theorem paced_track {first : Bool} {spec : Spec} {pid : Int} {r : Unit}
    (paced : Paced (.forked first spec pid) w) (tidy : Tidy (.forked first spec pid) w.mem.table)
    (answer : clockKernel.Answers w (.mem (.track spec.name pid spec.wantsOwnSession)) r w') :
    Paced (if first then .up else .waiting BACKOFF_CHECK_MS) w' := by
  have shells := (tidy_track tidy answer).1
  refine paced.plain answer (fun _ => rfl) ?_ fun start _ _ _ => ?_
  · cases answer with
    | @mem o now reads =>
        intro e member _
        rcases List.mem_append.mp member with old | new
        · exact .inl old
        · refine .inr fun start newest => ?_
          rw [List.mem_singleton.mp new]
          change _ ≤ now
          rw [reads]
          exact Nat.div_le_div_right (paced.past start newest)
  · rw [shells]
    cases first <;> exact nofun

/-- If the recorded lifetime of a shell is a second or more, a second of the clock has begun since
its start. -/
theorem paced_recordExit {why : Why} {shortestLife : Option ℕ} {pid : Int} {status : Status}
    {r : Option Departed} (paced : Paced (.crediting why shortestLife pid status) w)
    (answer : clockKernel.Answers w (.mem (.recordExit pid status)) r w') :
    Paced (Place.afterCredit why shortestLife r) w' := by
  refine paced.plain answer (fun _ => rfl) ?_ fun start newest _ known => ?_
  · cases answer with
    | mem => exact fun e member running => .inl (recordExit_running.2 e member running)
  · cases why with
    | stopping => cases r <;> trivial
    | silence => cases r <;> trivial
    | supervising =>
        cases answer with
        | @mem o now reads =>
            cases gone : (w.mem.table.recordExit pid status now).1 with
            | none =>
                have shells := Table.recordExit_unknown gone
                simp only [MemOp.run, gone, World.updated, shells]
                exact known
            | some departed =>
                obtain ⟨e, member, running, ranFor⟩ := recordExit_running.1 departed gone
                have started := paced.entries start newest e member running
                have long : departed.ranFor ≥ RESPAWN_IS_TOO_FAST → Ready start w.kern := by
                  intro long
                  rw [ranFor, reads] at long
                  unfold RESPAWN_IS_TOO_FAST at long
                  unfold Ready
                  omega
                simp only [MemOp.run, gone]
                intro both
                refine long (Nat.le_trans both ?_)
                cases shortestLife with
                | none => exact Nat.le_refl _
                | some other => exact Nat.min_le_right _ _

theorem paced_forgetFinished {why : Why} {shortestLife : Option ℕ} {childrenLeft : Bool}
    {r : Unit} (paced : Paced (.harvested why shortestLife childrenLeft) w)
    (answer : clockKernel.Answers w (.mem .forgetFinished) r w') :
    Paced (Place.afterHarvest why shortestLife childrenLeft) w' := by
  refine paced.plain answer (fun _ => rfl) ?_ fun start _ _ known => ?_
  · cases answer with
    | mem => exact fun e member _ => .inl (List.mem_filter.mp member).1
  · have same : w'.mem.respawnAt = w.mem.respawnAt ∧ w'.mem.table.shells = w.mem.table.shells := by
      cases answer with
      | mem => exact ⟨rfl, w.mem.table.shells_forgetFinished⟩
    rw [same.1, same.2]
    cases why with
    | supervising =>
        cases shortestLife with
        | none => exact known
        | some ranFor =>
            simp only [Place.afterHarvest]
            split
            · rename_i long
              exact known long
            · trivial
    | stopping => cases childrenLeft <;> trivial
    | silence => cases childrenLeft <;> trivial

theorem paced_setRespawnAt {respawnAt : ℕ} {r : Unit} (paced : Paced p w)
    (answer : clockKernel.Answers w (.mem (.setRespawnAt respawnAt)) r w')
    (next : ∀ start, p.paces start w.kern w.mem.respawnAt w.mem.table.shells →
      q.paces start w.kern respawnAt w.mem.table.shells) : Paced q w' := by
  refine paced.plain answer (fun _ => rfl) (fun e member _ => ?_) fun start _ _ known => ?_
  · rw [table_of_answer answer rfl] at member
    exact .inl member
  · cases answer with
    | mem => exact next start known

/-- Every move keeps the pace. -/
theorem paced_kept (paced : Paced p w) (tidy : Tidy p w.mem.table) (move : Moves p c f)
    (answer : clockKernel.Answers w c r w') : Paced (f r) w' := by
  cases move with
  | log log => exact paced.to answer (Call.keepsPace_of_log log) fun _ _ known => known
  | bringUp early => exact paced.to answer (Call.keepsPace_of_bringUp early) fun _ _ known => known
  | tableNew =>
      refine paced.plain answer (fun _ => rfl) ?_ fun _ _ _ never => never.elim
      cases answer with
      | mem => exact nofun
  | ask =>
      cases r with
      | none => exact paced.to answer rfl fun _ _ _ => trivial
      | some => exact paced.to answer rfl fun _ _ ready => ready
  | fork => exact paced_fork paced tidy answer
  | noFork => cases r <;> exact paced.to answer rfl fun _ _ _ => trivial
  | track => exact paced_track paced tidy answer
  | supervise =>
    exact paced_setRespawnAt paced answer fun _ nonempty noShell => absurd noShell nonempty
  | running =>
      dsimp only
      split <;> exact paced.to answer rfl fun _ _ known => known
  | idle =>
      have reads : r = w.kern / NANOS := by
        cases answer with
        | sys answer => exact answer.2.1
      exact paced.to answer rfl fun _ _ known => ⟨Nat.le_of_eq reads, known⟩
  | @due read =>
      have noShell : w.mem.table.shells = [] := tidy.demands
      have known : r = w.mem.respawnAt := by
        cases answer with
        | mem => rfl
      dsimp only
      split
      · rename_i timeIsUp
        rw [known] at timeIsUp
        refine paced.to answer rfl fun start _ due => ?_
        obtain ⟨past, rested⟩ := due
        rcases rested noShell with ready | wait
        · exact ready
        · change start / NANOS + 1 ≤ w.kern / NANOS
          omega
      · exact paced.to answer rfl fun _ _ due => due.2
  | poll =>
      unfold Place.afterPoll
      split
      · split
        · exact paced.to answer rfl fun _ _ known => known
        · exact paced.to answer rfl fun _ _ _ => trivial
      · split <;> exact paced.to answer rfl fun _ _ known => known
  | read =>
      unfold Place.afterRead Place.afterSignal
      split
      · split
        · exact paced.to answer rfl fun _ _ known => known
        · exact paced.to answer rfl fun _ _ _ => trivial
      · split
        · exact paced.to answer rfl fun _ _ _ => trivial
        · split
          · exact paced.to answer rfl fun _ _ known => known
          · exact paced.to answer rfl fun _ _ _ => trivial
          · exact paced.to answer rfl fun _ _ known => known
  | waitpid =>
      unfold Place.afterWaitpid
      split <;> exact paced.to answer rfl fun _ _ known => known
  | recordExit => exact paced_recordExit paced answer
  | forgetFinished => exact paced_forgetFinished paced answer
  | survived => exact paced.to answer rfl fun _ _ ready _ => .inl ready
  | failing =>
      have reads : r = w.kern / NANOS := by
        cases answer with
        | sys answer => exact answer.2.1
      refine paced.to answer rfl fun start past _ => ?_
      change start / NANOS ≤ r
      rw [reads]
      exact Nat.div_le_div_right past
  | setRespawnAt => exact paced_setRespawnAt paced answer fun _ known => Nat.succ_le_succ known
  | dying =>
      cases r with
      | none => exact paced.to answer rfl fun _ _ _ => trivial
      | some => exact paced.to answer rfl fun _ _ known => known
  | failed =>
      unfold Place.afterVerdict
      split
      · exact paced.to answer rfl fun _ _ known _ => .inr known
      · exact paced.to answer rfl fun _ _ known _ => .inr known
      · exact paced.to answer rfl fun _ _ _ => trivial
      · exact paced.to answer rfl fun _ _ _ => trivial
  | check =>
      unfold Place.afterCheck
      split
      · split <;> exact paced.to answer rfl fun _ _ _ => trivial
      · exact paced.to answer rfl fun _ _ _ => trivial
  | watch =>
      dsimp only
      split <;> exact paced.to answer rfl fun _ _ _ => trivial
  | _ => exact paced.to answer rfl fun _ _ _ => trivial

variable {candidates : List Spec} {kern : ℕ} {conf : Config calls (World ℕ) Unit}

theorem paced_everywhere (reach : Reaches clockKernel.semantics (boot candidates kern) conf)
    (path : Path conf.world.hist p) : Tidy p conf.world.mem.table ∧ Paced p conf.world := by
  refine at_every_place (I := fun p w => Tidy p w.mem.table ∧ Paced p w) ?_ ?_ ?_ reach path
  · exact ⟨tidy_boot, .nil, nofun, nofun, nofun⟩
  · intro p w w' ⟨tidy, paced⟩ step
    obtain ⟨later, passes, rfl⟩ := step
    refine ⟨tidy, paced.apart, fun start newest => ?_, paced.entries, fun start newest => ?_⟩
    · exact Nat.le_trans (paced.past start newest) passes
    · exact Place.paces_later passes (paced.paces start newest)
  · intro p c f r w w' ⟨tidy, paced⟩ move answer
    exact ⟨tidy.kept move answer, paced_kept paced tidy move answer⟩

/-! ## A second of true time -/

/-- The second start is not earlier in its second of the clock than the first one, or it does not
come in the very next second. -/
def InPhase (start now : ℕ) : Prop :=
  start % NANOS ≤ now % NANOS ∨ start / NANOS + 2 ≤ now / NANOS

/-- When a second of the clock has begun since a start, a full second has passed exactly if the two
are in phase. -/
theorem Ready.second {start now : ℕ} (ready : Ready start now) :
    start + NANOS ≤ now ↔ InPhase start now := by
  unfold Ready NANOS at ready
  unfold InPhase NANOS
  omega

theorem apart_iff {times : List ℕ}
    (ready : List.IsChain (fun later earlier => Ready earlier later) times) :
    List.IsChain (fun later earlier => earlier + NANOS ≤ later) times ↔
      List.IsChain (fun later earlier => InPhase earlier later) times := by
  induction ready with
  | nil => exact ⟨fun _ => .nil, fun _ => .nil⟩
  | singleton => exact ⟨fun _ => .singleton _, fun _ => .singleton _⟩
  | cons_cons now _ ih => rw [List.isChain_cons_cons, List.isChain_cons_cons, now.second, ih]

/-- **Shells are started no faster than once a second by the clock**, whatever they die of
and whichever rule sets the gap: between any two starts a second of the clock begins.  In
true time the starts are a second apart exactly if none comes in the second after the last
one's and earlier in it. -/
theorem starts_by_the_clock (reach : Reaches clockKernel.semantics (boot candidates kern) conf) :
    List.IsChain (fun later earlier => Ready earlier later) (startTimes conf.world.hist) ∧
      (List.IsChain (fun later earlier => earlier + NANOS ≤ later) (startTimes conf.world.hist) ↔
        List.IsChain (fun later earlier => InPhase earlier later) (startTimes conf.world.hist)) ∧
      (conf.prog.next = some (Call.sys .fork) →
        ∀ last ∈ (startTimes conf.world.hist).head?,
          (last + NANOS ≤ conf.world.kern ↔ InPhase last conf.world.kern)) := by
  obtain ⟨p, path, -⟩ := exists_path reach
  obtain ⟨-, paced⟩ := paced_everywhere reach path
  refine ⟨paced.apart, apart_iff paced.apart, fun next last newest => ?_⟩
  obtain ⟨q, f, path, -, move⟩ := expected_of_next reach next
  obtain ⟨-, paced⟩ := paced_everywhere reach path
  cases move with
  | log log => cases log
  | bringUp early => cases early
  | fork => exact Ready.second (paced.paces last newest)

/-! ## A restart across the tick -/

/-- The times of a run in which the first shell is started 100 ms before a second begins, and dies
50 ms into it. -/
def acrossTheTick (w : World ℕ) : Call → ℕ
  | .sys .fork =>
      if startTimes w.hist = [] then w.kern / NANOS * NANOS + NANOS + 900 * 10 ^ 6 else w.kern
  | .mem (.recordExit _ _) => w.kern + 150 * 10 ^ 6
  | _ => w.kern

theorem acrossTheTick_passes (w : World ℕ) (c : Call) : w.kern ≤ acrossTheTick w c := by
  unfold acrossTheTick
  split
  · split
    · have rest := Nat.mod_lt w.kern (show 0 < NANOS by decide)
      have whole := Nat.div_add_mod' w.kern NANOS
      omega
    · exact Nat.le_refl _
  · exact Nat.le_add_right _ _
  · exact Nat.le_refl _

/-- Pid 1 when it has started its second shell. -/
def secondStart : Config calls (World ℕ) Unit :=
  (byTheClock acrossTheTick acrossTheTick_passes).driver.run
    (fun c => decide ((startTimes c.world.hist).length = 2)) 1000 (boot CANDIDATES 0)

theorem secondStart_reachable :
    Reaches clockKernel.semantics (boot CANDIDATES 0) secondStart :=
  (byTheClock acrossTheTick acrossTheTick_passes).driver.reaches _ _ _

theorem starts_too_soon :
    ¬ ∀ conf, Reaches clockKernel.semantics (boot CANDIDATES 0) conf →
      List.IsChain (fun later earlier => earlier + NANOS ≤ later) (startTimes conf.world.hist) := by
  intro always
  have apart := always _ secondStart_reachable
  have times : startTimes secondStart.world.hist = [2050 * 10 ^ 6, 1900 * 10 ^ 6] := by
    decide +kernel
  rw [times, List.isChain_cons_cons] at apart
  exact absurd apart.1 (by decide)

theorem starts_by_the_clock_across_the_tick :
    startTimes secondStart.world.hist = [2050 * 10 ^ 6, 1900 * 10 ^ 6] ∧
      List.IsChain (fun later earlier => Ready earlier later)
        (startTimes secondStart.world.hist) :=
  ⟨by decide +kernel, (starts_by_the_clock secondStart_reachable).1⟩

end Zevory
