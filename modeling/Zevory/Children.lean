import Zevory.Processes
import Zevory.Tidy

/-!
# The children of pid 1

Two invariants over the places of pid 1, on the kernel of processes.  `Told`: a
zombie never waits without SIGCHLD being pending, except while pid 1 is already
reaping.  `Mirrors`: the running entries of the process table are the unreaped
children pid 1 has started, at most one, except between the call that changes the
children and the one that tells the table.
-/

namespace Zevory

open Interaction Signal Processes

variable {p q : Place} {w w' : World Processes} {c : Call} {f : c.Res → Place} {r : c.Res}
  {candidates : List Spec}

/-! ## No zombie goes untold -/

/-- The places in the loop of `reap_all`, up to the next `waitpid`. -/
def Place.reaps : Place → Bool
  | .reaping _ _ => true
  | .crediting _ _ _ _ => true
  | _ => false

/-- What is known of the kernel: pids are greater than 1, and outside of the loop of `reap_all`
SIGCHLD is pending if there is a zombie. -/
structure Told (p : Place) (m : Processes) : Prop where
  pids : ∀ pid, m.proc pid ≠ .none → 1 < pid
  told : p.reaps = false → m.HasZombie → SIGCHLD ∈ m.pending

namespace Processes

variable {m m' : Processes}

theorem HasZombie.of_set {pid : Int} {x : Process} (h : (m.set pid x).HasZombie) :
    (∃ started, x = .child started true) ∨ m.HasZombie := by
  obtain ⟨other, started, is⟩ := h
  by_cases at_ : other = pid
  · subst at_
    rw [set_proc_same] at is
    exact .inl ⟨started, is⟩
  · rw [set_proc_other at_] at is
    exact .inr ⟨other, started, is⟩

/-- All pids stay greater than 1 when a process is given to such a pid, or to one that is in use. -/
theorem pids_set {pid : Int} {x : Process} (pids : ∀ pid, m.proc pid ≠ .none → 1 < pid)
    (fits : 1 < pid ∨ m.proc pid ≠ .none) : ∀ other, (m.set pid x).proc other ≠ .none → 1 < other := by
  intro other used
  by_cases at_ : other = pid
  · subst at_
    exact fits.elim id (pids other)
  · rw [set_proc_other at_] at used
    exact pids other used

/-- Whatever the others do, SIGCHLD is pending beside a zombie if it was before. -/
theorem Others.told (h : Others m m') (told : m.HasZombie → SIGCHLD ∈ m.pending)
    (zombie : m'.HasZombie) : SIGCHLD ∈ m'.pending := by
  cases h with
  | born | strangerDied | strangerReaped =>
      rcases zombie.of_set with ⟨_, stranger⟩ | old
      · cases stranger
      · exact told old
  | @orphaned pid isZombie =>
      rcases HasZombie.of_set zombie with ⟨_, new⟩ | old
      · cases new
        exact Finset.mem_insert_self _ _
      · cases isZombie with
        | false => exact told old
        | true => exact Finset.mem_insert_self _ _
  | died => exact Finset.mem_insert_self _ _
  | raised =>
      have old : m.HasZombie := zombie
      exact Finset.mem_insert_of_mem (told old)

theorem Others.pids (h : Others m m') (pids : ∀ pid, m.proc pid ≠ .none → 1 < pid) :
    ∀ pid, m'.proc pid ≠ .none → 1 < pid := by
  cases h with
  | born positive => exact pids_set pids (.inl positive)
  | strangerDied was => exact pids_set pids (.inr (by simp [was]))
  | strangerReaped was => exact pids_set pids (.inr (by simp [was]))
  | orphaned was => exact pids_set (m := m) pids (.inr (by simp [was]))
  | died was => exact pids_set (m := m) pids (.inr (by simp [was]))
  | raised => exact pids

theorem Answer.pids {s : Syscall} {r : s.Res} (h : Answer m s r m')
    (pids : ∀ pid, m.proc pid ≠ .none → 1 < pid) : ∀ pid, m'.proc pid ≠ .none → 1 < pid := by
  cases h with
  | fork positive => exact pids_set pids (.inl positive)
  | reaped was => exact pids_set (m := m) pids (.inr (by simp [was]))
  | _ => exact pids

end Processes

/-- A system call other than `waitpid` does not lead out of the loop of `reap_all`. -/
theorem Moves.reaps {s : Syscall} {f : s.Res → Place} (move : Moves p (.sys s) f)
    (notWaitpid : s ≠ .waitpid) (r : s.Res) (outside : (f r).reaps = false) :
    p.reaps = false := by
  cases move with
  | log => exact outside
  | bringUp => exact outside
  | waitpid => exact absurd rfl notWaitpid
  | _ => rfl

theorem Moves.reaps_mem {o : MemOp} {f : o.Res → Place} (move : Moves p (.mem o) f) (r : o.Res)
    (outside : (f r).reaps = false) : p.reaps = false := by
  cases move with
  | log => exact outside
  | recordExit => cases r <;> cases outside
  | _ => rfl

/-- A read that takes SIGCHLD leads into the loop of `reap_all`. -/
theorem Moves.read_reaps {fd : Int} {f : Ret × Int → Place} (move : Moves p (.sys (.read fd)) f)
    (e : Errno) : (f (⟨Sys.SIGINFO_SIZE, e⟩, SIGCHLD)).reaps := by
  cases move with
  | log log => cases log
  | bringUp early => cases early
  | read => rfl
  | watchRead => rfl

theorem Told.kept_sys {s : Syscall} {f : s.Res → Place} {r : s.Res} {m m' : Processes}
    (inv : Told p m) (move : Moves p (.sys s) f) (answer : Answer m s r m') : Told (f r) m' := by
  refine ⟨answer.pids inv.pids, fun outside zombie => ?_⟩
  cases answer with
  | noFork => exact inv.told (move.reaps nofun _ outside) zombie
  | fork =>
      rcases zombie.of_set with ⟨_, new⟩ | old
      · cases new
      · exact inv.told (move.reaps nofun _ outside) old
  | @reaped pid started e status was =>
      cases move with
      | log log => cases log
      | bringUp early => cases early
      | waitpid =>
          have positive : 1 < pid := inv.pids pid (by simp [was])
          have child : (0 : Int) < pid := by omega
          simp [Place.afterWaitpid, Sys.reapedOf, child, Place.reaps] at outside
  | noZombie none => exact absurd zombie none
  | noChild none =>
      obtain ⟨pid, started, is⟩ := zombie
      exact absurd ⟨pid, started, true, is⟩ none
  | poll => exact inv.told (move.reaps nofun _ outside) zombie
  | @read fd signal e here lowest =>
      have pending := inv.told (move.reaps nofun _ outside) zombie
      refine Finset.mem_erase.mpr ⟨?_, pending⟩
      rintro rfl
      rw [move.read_reaps e] at outside
      cases outside
  | noRead => exact inv.told (move.reaps nofun _ outside) zombie
  | plain isPlain =>
      have notWaitpid : s ≠ .waitpid := by
        rintro rfl
        cases isPlain
      exact inv.told (move.reaps notWaitpid _ outside) zombie

theorem Told.others {m m' : Processes} (inv : Told p m) (others : Others m m') : Told p m' :=
  ⟨others.pids inv.pids, fun outside => others.told (inv.told outside)⟩

theorem Told.kept (inv : Told p w.kern) (move : Moves p c f) (answer : kernel.Answers w c r w') :
    Told (f r) w'.kern := by
  cases answer with
  | sys answer => exact inv.kept_sys move answer
  | mem => exact ⟨inv.pids, fun outside => inv.told (move.reaps_mem _ outside)⟩

/-! ## The table mirrors the kernel -/

/-- The exits that the table was told of, newest first, each with the pid and whether the table had
an entry for it. -/
def credits : List Event → List (Int × Bool)
  | [] => []
  | ⟨.mem (.recordExit pid _), gone, _⟩ :: h => (pid, Option.isSome gone) :: credits h
  | _ :: h => credits h

/-- The last call was a `fork` or a `waitpid` that has returned a child, and the table has not been
told yet. -/
def untold : List Event → Bool
  | [] => false
  | ⟨.sys .fork, r, _⟩ :: _ => decide (0 < Ret.rc r)
  | ⟨.sys .waitpid, r, _⟩ :: _ => decide (0 < (Prod.fst r : Ret).rc)
  | ⟨.mem (.track _ _ _), _, _⟩ :: _ => false
  | ⟨.mem (.recordExit _ _), _, _⟩ :: _ => false
  | _ :: h => untold h

/-- The calls that change the children, the table, or what the table was told. -/
def Call.concernsChildren : Call → Bool
  | .sys .fork => true
  | .sys .waitpid => true
  | .mem .tableNew => true
  | .mem (.track _ _ _) => true
  | .mem (.recordExit _ _) => true
  | .mem .forgetFinished => true
  | _ => false

theorem Call.still_of_log (log : c.isLog) : c.concernsChildren = false := by
  cases c with
  | sys s => cases s <;> first | rfl | cases log
  | mem o => cases o <;> first | rfl | cases log

theorem Call.still_of_bringUp (early : c.isBringUp) : c.concernsChildren = false := by
  cases c with
  | sys s => cases s <;> first | rfl | cases early
  | mem o => cases o <;> first | rfl | cases early

namespace Place

/-- The pids of the children pid 1 has started, at a place where these are the running entries of
the table. -/
def owes (shells : List Int) : Place → Int → Prop
  | .forked _ _ child, pid => pid = child
  | .crediting _ _ child _, pid => pid ∈ shells ∧ pid ≠ child
  | _, pid => pid ∈ shells

/-- What the table should have been told of the exits at a place, when it was told `known`. -/
def told (shells : List Int) (known : List (Int × Bool)) : Place → List (Int × Bool)
  | .crediting _ _ child _ => (child, decide (child ∈ shells)) :: known
  | _ => known

/-- The places at which the table has still to be told of a child. -/
def isUntold : Place → Bool
  | .forked _ _ _ => true
  | .crediting _ _ _ _ => true
  | _ => false

end Place

/-- The invariant: the table, corrected by what it has still to be told at this place, mirrors the
children in the kernel. -/
structure Mirrors (p : Place) (w : World Processes) : Prop where
  started : ∀ pid, w.kern.Started pid ↔ p.owes w.mem.table.shells pid
  reaped : w.kern.reaped = p.told w.mem.table.shells (credits w.hist)
  moment : p.isUntold → untold w.hist

/-- A call that does not concern the children changes neither them nor the table nor what the table
was told. -/
theorem still_of_answer (answer : kernel.Answers w c r w') (still : c.concernsChildren = false) :
    (∀ pid, w'.kern.Started pid ↔ w.kern.Started pid) ∧ w'.kern.reaped = w.kern.reaped ∧
      w'.mem.table = w.mem.table ∧ credits w'.hist = credits w.hist ∧
        untold w'.hist = untold w.hist := by
  cases answer with
  | @sys s r kern answer =>
      have notFork : s ≠ .fork := by
        rintro rfl
        cases still
      have notWaitpid : s ≠ .waitpid := by
        rintro rfl
        cases still
      obtain ⟨proc, reaped⟩ := Answer.proc answer notFork notWaitpid
      refine ⟨fun pid => ?_, reaped, rfl, rfl, ?_⟩
      · simp only [Started, World.called, proc]
      · cases s <;> first | rfl | cases still
  | @mem o now =>
      refine ⟨fun pid => .rfl, rfl, ?_, ?_, ?_⟩ <;>
        cases o <;> first | rfl | cases still

namespace Place

variable {shells : List Int} {known : List (Int × Bool)}

theorem owes_of_told (told : p.isUntold = false) (pid : Int) :
    p.owes shells pid ↔ pid ∈ shells := by
  cases p with
  | forked => cases told
  | crediting => cases told
  | _ => exact .rfl

theorem told_of_told (told : p.isUntold = false) : p.told shells known = known := by
  cases p with
  | crediting => cases told
  | _ => rfl

theorem told_of_plain (plain : p.isPlain) : p.isUntold = false := by
  cases p with
  | forked | crediting => cases plain
  | _ => rfl

end Place

/-- Only a call that concerns the children leads to a place where the table has still to be told, or
away from one. -/
theorem Moves.settled (move : Moves p c f) (still : c.concernsChildren = false) :
    f r = p ∨ p.isUntold = false ∧ (f r).isUntold = false := by
  cases move with
  | log => exact .inl rfl
  | bringUp => exact .inl rfl
  | ask | noFork | dying => exact .inr ⟨rfl, by cases r <;> rfl⟩
  | running | due | watch =>
      refine .inr ⟨rfl, ?_⟩
      dsimp only
      split <;> rfl
  | poll => exact .inr ⟨rfl, Place.told_of_plain (Place.afterPoll_plain r)⟩
  | read => exact .inr ⟨rfl, Place.told_of_plain (Place.afterRead_plain r)⟩
  | failed => exact .inr ⟨rfl, Place.told_of_plain (Place.afterVerdict_plain r)⟩
  | check => exact .inr ⟨rfl, Place.told_of_plain (Place.afterCheck_plain _ _ _ r)⟩
  | fork | waitpid | tableNew | track | recordExit | forgetFinished => cases still
  | _ => exact .inr ⟨rfl, rfl⟩

theorem Mirrors.still (inv : Mirrors p w) (move : Moves p c f)
    (answer : kernel.Answers w c r w') (still : c.concernsChildren = false) :
    Mirrors (f r) w' := by
  obtain ⟨started, reaped, table, known, moment⟩ := still_of_answer answer still
  rcases move.settled (r := r) still with same | ⟨told, toldNext⟩
  · rw [same]
    refine ⟨fun pid => ?_, ?_, ?_⟩
    · rw [started, inv.started, table]
    · rw [reaped, inv.reaped, table, known]
    · rw [moment]
      exact inv.moment
  · refine ⟨fun pid => ?_, ?_, fun next => ?_⟩
    · rw [started, inv.started, Place.owes_of_told told, table, Place.owes_of_told toldNext]
    · rw [reaped, inv.reaped, Place.told_of_told told, known, Place.told_of_told toldNext]
    · rw [toldNext] at next
      cases next

/-! ### The calls that concern the children -/

theorem mirrors_fork {first : Bool} {spec : Spec} {r : Ret}
    (inv : Mirrors (.chosen first spec) w) (noShell : w.mem.table.shells = [])
    (answer : kernel.Answers w (.sys .fork) r w') :
    Mirrors (if r.rc = -1 then .noFork else if r.rc = 0 then .lost else .forked first spec r.rc)
      w' := by
  cases answer with
  | sys answer =>
      cases answer with
      | noFork => exact ⟨inv.started, inv.reaped, fun untold => Bool.noConfusion untold⟩
      | @fork pid e positive fresh =>
          have notFailed : pid ≠ -1 := by omega
          have parent : pid ≠ 0 := by omega
          rw [if_neg notFailed, if_neg parent]
          refine ⟨fun other => ?_, inv.reaped, fun _ => ?_⟩
          · by_cases same : other = pid
            · subst same
              exact ⟨fun _ => rfl, fun _ => ⟨false, set_proc_same _ _ _⟩⟩
            · refine ⟨fun started => ?_, fun here => absurd here same⟩
              obtain ⟨zombie, is⟩ := started
              have before : w.kern.Started other :=
                ⟨zombie, by rwa [World.called, set_proc_other same] at is⟩
              have member := (inv.started other).mp before
              rw [noShell] at member
              cases member
          · exact decide_eq_true (by omega : 0 < pid)
      | plain isPlain => cases isPlain

/-- After a `waitpid` that hands over a child, the child was started by pid 1 exactly if the table
has a running entry for it. -/
theorem mirrors_waitpid {why : Why} {shortestLife : Option ℕ} {r : Ret × Status}
    (inv : Mirrors (.reaping why shortestLife) w) (pids : Told (.reaping why shortestLife) w.kern)
    (answer : kernel.Answers w (.sys .waitpid) r w') :
    Mirrors (Place.afterWaitpid why shortestLife r) w' := by
  cases answer with
  | sys answer =>
      cases answer with
      | @reaped pid started e status was =>
          have positive : 1 < pid := pids.pids pid (by simp [was])
          have child : (0 : Int) < pid := by omega
          have shell : started = decide (pid ∈ w.mem.table.shells) := by
            have mirrored : w.kern.Started pid ↔ pid ∈ w.mem.table.shells := inv.started pid
            rw [Bool.eq_iff_iff, decide_eq_true_iff, ← mirrored, Started, was]
            simp
          simp only [Place.afterWaitpid, Sys.reapedOf, gt_iff_lt, child, if_true]
          refine ⟨fun other => ?_, ?_, fun _ => decide_eq_true child⟩
          · by_cases same : other = pid
            · subst same
              refine ⟨fun is => ?_, fun is => absurd rfl is.2⟩
              obtain ⟨zombie, is⟩ := is
              have gone : Process.none = .child true zombie := by
                rw [← is]
                exact (set_proc_same _ _ _).symm
              cases gone
            · have kept : (w.kern.set pid .none).proc other = w.kern.proc other :=
                set_proc_other same
              refine Iff.trans ?_ ((inv.started other).trans ⟨fun is => ⟨is, same⟩, And.left⟩)
              simp only [Started, World.called, kept]
          · have before : w.kern.reaped = credits w.hist := inv.reaped
            change (pid, started) :: w.kern.reaped =
              (pid, decide (pid ∈ w.mem.table.shells)) :: credits w.hist
            rw [← shell, before]
      | noZombie => exact ⟨inv.started, inv.reaped, fun untold => Bool.noConfusion untold⟩
      | noChild => exact ⟨inv.started, inv.reaped, fun untold => Bool.noConfusion untold⟩
      | plain isPlain => cases isPlain

theorem mirrors_track {first : Bool} {spec : Spec} {pid : Int} {r : Unit}
    (inv : Mirrors (.forked first spec pid) w) (tidy : Tidy (.forked first spec pid) w.mem.table)
    (answer : kernel.Answers w (.mem (.track spec.name pid spec.wantsOwnSession)) r w') :
    Mirrors (if first then .up else .waiting BACKOFF_CHECK_MS) w' := by
  have shells := (tidy_track tidy answer).1
  have told : (if first then Place.up else .waiting BACKOFF_CHECK_MS).isUntold = false := by
    cases first <;> rfl
  refine ⟨fun other => ?_, ?_, ?_⟩
  · rw [Place.owes_of_told told, shells, List.mem_singleton]
    cases answer with
    | mem => exact inv.started other
  · rw [Place.told_of_told told]
    cases answer with
    | mem => exact inv.reaped
  · rw [told]
    exact Bool.noConfusion

theorem mirrors_recordExit {why : Why} {shortestLife : Option ℕ} {pid : Int} {status : Status}
    {r : Option Departed} (inv : Mirrors (.crediting why shortestLife pid status) w)
    (distinct : w.mem.table.shells.Nodup)
    (answer : kernel.Answers w (.mem (.recordExit pid status)) r w') :
    Mirrors (Place.afterCredit why shortestLife r) w' := by
  have told : (Place.afterCredit why shortestLife r).isUntold = false := by cases r <;> rfl
  cases answer with
  | @mem o now =>
      obtain ⟨credited, shells⟩ := w.mem.table.recordExit_shells pid status now
      refine ⟨fun other => ?_, ?_, ?_⟩
      · rw [Place.owes_of_told told]
        refine (inv.started other).trans ?_
        simp only [Place.owes, World.updated, MemOp.run, shells, distinct.mem_erase_iff]
        exact and_comm
      · rw [Place.told_of_told told]
        refine inv.reaped.trans ?_
        simp only [Place.told, World.updated, credits, MemOp.run, credited]
      · rw [told]
        exact Bool.noConfusion

theorem mirrors_forgetFinished {why : Why} {shortestLife : Option ℕ} {childrenLeft : Bool}
    {r : Unit} (inv : Mirrors (.harvested why shortestLife childrenLeft) w)
    (answer : kernel.Answers w (.mem .forgetFinished) r w') :
    Mirrors (Place.afterHarvest why shortestLife childrenLeft) w' := by
  have told := Place.told_of_plain (Place.afterHarvest_plain why shortestLife childrenLeft)
  cases answer with
  | @mem o now =>
      refine ⟨fun other => ?_, ?_, ?_⟩
      · rw [Place.owes_of_told told]
        refine (inv.started other).trans ?_
        simp only [Place.owes, World.updated, MemOp.run, Table.shells_forgetFinished]
      · rw [Place.told_of_told told]
        exact inv.reaped
      · rw [told]
        exact Bool.noConfusion

theorem mirrors_kept (inv : Mirrors p w) (pids : Told p w.kern) (tidy : Tidy p w.mem.table)
    (move : Moves p c f) (answer : kernel.Answers w c r w') : Mirrors (f r) w' := by
  cases concerns : c.concernsChildren with
  | false => exact inv.still move answer concerns
  | true =>
      cases move with
      | log log =>
          rw [Call.still_of_log log] at concerns
          cases concerns
      | bringUp early =>
          rw [Call.still_of_bringUp early] at concerns
          cases concerns
      | tableNew =>
          cases answer with
          | mem =>
              have noShell : w.mem.table.shells = [] := tidy.demands
              refine ⟨fun pid => ?_, inv.reaped, nofun⟩
              refine (inv.started pid).trans ?_
              rw [noShell]
              exact Iff.rfl
      | fork => exact mirrors_fork inv tidy.demands answer
      | track => exact mirrors_track inv tidy answer
      | waitpid => exact mirrors_waitpid inv pids answer
      | recordExit => exact mirrors_recordExit inv tidy.distinct answer
      | forgetFinished => exact mirrors_forgetFinished inv answer
      | _ => cases concerns

/-- The three invariants together: of the kernel, of the table and of both. -/
structure Sound (p : Place) (w : World Processes) : Prop where
  told : Told p w.kern
  tidy : Tidy p w.mem.table
  mirrors : Mirrors p w

theorem sound_everywhere {conf : Config calls (World Processes) Unit}
    (reach : Reaches kernel.semantics (boot candidates Processes.boot) conf)
    (path : Path conf.world.hist p) : Sound p conf.world := by
  refine at_every_place (I := Sound) ?_ ?_ ?_ reach path
  · exact ⟨⟨fun pid used => absurd rfl used, nofun⟩, tidy_boot,
      ⟨fun pid => ⟨nofun, nofun⟩, rfl, nofun⟩⟩
  · rintro p w w' inv ⟨m, others, rfl⟩
    refine ⟨inv.told.others others, inv.tidy, fun pid => ?_, ?_, inv.mirrors.moment⟩
    · exact (others.started pid).trans (inv.mirrors.started pid)
    · exact others.reaped.trans inv.mirrors.reaped
  · intro p call f r w w' inv move answer
    exact ⟨inv.told.kept move answer, inv.tidy.kept move answer,
      mirrors_kept inv.mirrors inv.told inv.tidy move answer⟩

/-! ## What pid 1 may rely on -/

variable {conf : Config calls (World Processes) Unit}

/-- The place at which pid 1 makes its next call, with the invariants there. -/
theorem place_of_next {call : Call}
    (reach : Reaches kernel.semantics (boot candidates Processes.boot) conf)
    (next : conf.prog.next = some call) : ∃ p f, Moves p call f ∧ Sound p conf.world := by
  obtain ⟨p, f, path, -, move⟩ := expected_of_next reach next
  exact ⟨p, f, move, sound_everywhere reach path⟩

/-- **No child is lost to a missed SIGCHLD.**  Whenever pid 1 enters `poll` next to a
zombie, SIGCHLD is pending; and a wait without a limit is only entered while a shell it
started is still to be reaped. -/
theorem no_child_is_lost {fd millis : Int}
    (reach : Reaches kernel.semantics (boot candidates Processes.boot) conf)
    (polls : conf.prog.next = some (Call.sys (.poll fd millis))) :
    (conf.world.kern.HasZombie → SIGCHLD ∈ conf.world.kern.pending) ∧
      (millis = UNTIL_SOMETHING_ARRIVES → ∃ pid, conf.world.kern.Started pid) := by
  obtain ⟨p, f, move, sound⟩ := place_of_next reach polls
  cases move with
  | log log => cases log
  | bringUp early => cases early
  | poll =>
      refine ⟨sound.told.told rfl, fun unlimited => ?_⟩
      obtain ⟨pid, shell⟩ := List.exists_mem_of_ne_nil _ (sound.tidy.demands unlimited)
      exact ⟨pid, (sound.mirrors.started pid).mpr shell⟩
  | watch => exact ⟨sound.told.told rfl, nofun⟩

/-- Pid 1 at its first wait in `supervise`, right after the shell has died. -/
def besideAZombie : Config calls (World Processes) Unit :=
  let waiting := shortLife.driver.run
    (fun c => c.prog.next == some (Call.sys (.poll 4 UNTIL_SOMETHING_ARRIVES))) 400
    (boot CANDIDATES Processes.boot)
  { waiting with world := { waiting.world with
      kern := shortLife.before waiting.world (Call.sys (.poll 4 UNTIL_SOMETHING_ARRIVES)) } }

theorem besideAZombie_reachable :
    Reaches kernel.semantics (boot CANDIDATES Processes.boot) besideAZombie :=
  (shortLife.driver.reaches _ _ _).trans
    (Driver.interfere_reaches (Script.interferes (shortLife.others _ _)))

theorem no_child_is_lost_beside_a_zombie :
    besideAZombie.world.kern.HasZombie ∧ SIGCHLD ∈ besideAZombie.world.kern.pending ∧
      ∃ pid, besideAZombie.world.kern.Started pid := by
  have zombie : besideAZombie.world.kern.HasZombie := ⟨100, true, by decide +kernel⟩
  have polls : besideAZombie.prog.next = some (Call.sys (.poll 4 UNTIL_SOMETHING_ARRIVES)) := by
    decide +kernel
  have holds := no_child_is_lost besideAZombie_reachable polls
  exact ⟨zombie, holds.1 zombie, holds.2 rfl⟩

/-- The running entries of the table are the unreaped children that pid 1 has started, and the table
was told of every exit whether it was that of a shell. -/
structure Mirrored (w : World Processes) : Prop where
  distinct : w.mem.table.shells.Nodup
  exactly : ∀ pid, pid ∈ w.mem.table.shells ↔ w.kern.Started pid
  atMostOne : w.mem.table.shells.length ≤ 1
  credited : credits w.hist = w.kern.reaped

theorem Sound.mirrored (sound : Sound p w) (told : untold w.hist = false) : Mirrored w := by
  have settled : p.isUntold = false := by
    cases untoldPlace : p.isUntold with
    | false => rfl
    | true =>
        rw [sound.mirrors.moment untoldPlace] at told
        cases told
  refine ⟨sound.tidy.distinct, fun pid => ?_, sound.tidy.few, ?_⟩
  · rw [sound.mirrors.started, Place.owes_of_told settled]
  · rw [sound.mirrors.reaped, Place.told_of_told settled]

/-- **The process table mirrors the kernel** in every state but those between a `fork` or `waitpid`
and the call that tells the table. While pid 1 waits there is nothing else in the table, and a
session leader that is hung up is an unreaped child pid 1 started. -/
theorem table_mirrors_the_kernel
    (reach : Reaches kernel.semantics (boot candidates Processes.boot) conf) :
    (untold conf.world.hist = false → Mirrored conf.world) ∧
      (∀ fd millis, conf.prog.next = some (Call.sys (.poll fd millis)) →
        (∀ e ∈ conf.world.mem.table.entries, e.isRunning) ∧
          conf.world.mem.table.entries.length ≤ 1) ∧
      ∀ target signal, conf.prog.next = some (Call.sys (.kill target signal)) →
        target ≠ -1 → conf.world.kern.Started (-target) := by
  refine ⟨fun told => ?_, fun fd millis polls => ?_, fun target signal kills one => ?_⟩
  · obtain ⟨p, path, -⟩ := exists_path reach
    exact (sound_everywhere reach path).mirrored told
  · obtain ⟨p, f, move, sound⟩ := place_of_next reach polls
    have clean : p.keepsFinished = false := by
      cases move with
      | log log => cases log
      | bringUp early => cases early
      | poll => rfl
      | watch => rfl
    have running := sound.tidy.finished clean
    refine ⟨running, ?_⟩
    have few := sound.tidy.few
    rwa [Table.shells, List.filter_eq_self.mpr running, List.length_map] at few
  · obtain ⟨p, f, move, sound⟩ := place_of_next reach kills
    cases move with
    | log log => cases log
    | bringUp early => cases early
    | @hangUp action leader rest =>
        have leaders : leader :: rest ⊆ conf.world.mem.table.shells := sound.tidy.demands
        rw [Int.neg_neg]
        exact (sound.mirrors.started leader).mpr (leaders List.mem_cons_self)
    | terminate => exact absurd rfl one
    | cont => exact absurd rfl one
    | kill => exact absurd rfl one

/-- Pid 1 has reaped its first shell and told the table. -/
def afterAShell : Config calls (World Processes) Unit :=
  shortLife.driver.run (fun c => c.world.kern.reaped ≠ [] ∧ untold c.world.hist = false) 400
    (boot CANDIDATES Processes.boot)

theorem afterAShell_reachable :
    Reaches kernel.semantics (boot CANDIDATES Processes.boot) afterAShell :=
  shortLife.driver.reaches _ _ _

theorem table_mirrors_the_kernel_after_a_shell :
    credits afterAShell.world.hist = [(100, true)] ∧ Mirrored afterAShell.world := by
  have holds := table_mirrors_the_kernel afterAShell_reachable
  exact ⟨by decide +kernel, holds.1 (by decide +kernel)⟩

end Zevory
