import Zevory.FirstShell
import Zevory.Harvest
import Zevory.Script

/-!
# What a shell inherits

A kernel that keeps what `fork` hands down beside the descriptors: the blocked signals, and
whether the process leads a session and has a controlling terminal.  Pid 1 blocks the signals
it watches before it first waits for one or forks, and never touches its mask again; a child
gets rid of them, and of the session of pid 1, before its `execv`.
-/

namespace Zevory

open Interaction Signal Power

/-- The signal mask of a process, whether it leads a session, and whether it has a terminal. -/
structure Standing where
  blocked : Int → Bool
  leader : Bool
  terminal : Bool

namespace Standing

/-- Pid 1 as the kernel starts it, with no signal blocked. -/
def boot : Standing :=
  { blocked := fun _ => false, leader := false, terminal := false }

/-- The mask after `sigprocmask`, where no list stands for all signals. -/
def masked (how : MaskHow) (signals : Option (List Int)) (m : Standing) : Standing :=
  let chosen signal := match signals with
    | some signals => signals.contains signal
    | none => true
  { m with blocked := fun signal => match how with
    | .block => m.blocked signal || chosen signal
    | .unblock => m.blocked signal && !chosen signal }

/-- What a forked child inherits: it leads no session, but has the same mask and terminal. -/
def forked (m : Standing) : Standing :=
  { m with leader := false }

/-- The calls that change neither mask nor session nor terminal. -/
def plain : Syscall → Bool
  | .sigprocmask _ _ => false
  | .setsid => false
  | .setCtty _ _ => false
  | _ => true

/-- How the kernel answers. `setsid` fails for the leader of a session, and a new session has no
terminal; only a leader can take a terminal. -/
inductive Answer (m : Standing) : (s : Syscall) → s.Res → Standing → Prop
  | masked {how : MaskHow} {signals : Option (List Int)} {r : Ret} :
      r.rc = 0 → Answer m (.sigprocmask how signals) r (m.masked how signals)
  | notMasked {how : MaskHow} {signals : Option (List Int)} {r : Ret} :
      r.rc ≠ 0 → Answer m (.sigprocmask how signals) r m
  | session {r : Ret} :
      m.leader = false → 0 ≤ r.rc → Answer m .setsid r { m with leader := true, terminal := false }
  | noSession {r : Ret} : m.leader = true → r.rc < 0 → Answer m .setsid r m
  | terminal {fd arg : Int} {r : Ret} :
      m.leader = true → r.rc = 0 → Answer m (.setCtty fd arg) r { m with terminal := true }
  | noTerminal {fd arg : Int} {r : Ret} : r.rc ≠ 0 → Answer m (.setCtty fd arg) r m
  | plain {s : Syscall} {r : s.Res} : plain s → Promised (.sys s) r → Answer m s r m

theorem Answer.promised {m m' : Standing} {s : Syscall} {r : s.Res} (h : Answer m s r m') :
    Promised (.sys s) r := by
  cases h with
  | plain _ promised => exact promised
  | _ => exact trivial

end Standing

/-- The kernel of signal masks, sessions and terminals. -/
def standing : Kernel Standing where
  others _ _ := False
  answer := Standing.Answer
  reads _ _ := True
  time _ := 0
  promised := Standing.Answer.promised

/-! ## Once -/

/-- The calls that wait for a signal, read one or make a child. -/
def Call.listens : Call → Bool
  | .sys (.poll _ _) => true
  | .sys (.read _) => true
  | .sys .fork => true
  | _ => false

/-- The calls that change the mask. -/
def Call.masks : Call → Bool
  | .sys (.sigprocmask _ _) => true
  | _ => false

section Once

variable {K : Type} {k : Kernel K} {candidates : List Spec} {kern : K}
  {e : Execution k.semantics (boot candidates kern)} {n m : ℕ} {p : Place}

theorem quiet_of_tells {c : Call} (quiet : c.tells = false) : c.masks = false := by
  cases c with
  | sys s => cases s <;> first | rfl | cases quiet
  | mem => rfl

/-- Pid 1 changes its mask only during the bring-up. -/
theorem Here.masks {c : Call} {r : c.Res} (here : Here e n p) (did : e.did n = some ⟨c, r⟩)
    (masks : c.masks) : p = .bringUp := by
  obtain ⟨f, move, -⟩ := here.move did
  cases move with
  | bringUp => rfl
  | log log =>
      cases c with
      | sys s => cases s <;> first | cases masks; done | cases log
      | mem => cases masks
  | _ => cases masks

/-- Pid 1 does not wait for signals, read them or fork during the bring-up. -/
theorem Here.listens {c : Call} {r : c.Res} (here : Here e n p) (did : e.did n = some ⟨c, r⟩)
    (listens : c.listens) : p ≠ .bringUp := by
  rintro rfl
  obtain ⟨f, move, -⟩ := here.move did
  cases move with
  | bringUp early | log early =>
      cases c with
      | sys s => cases s <;> first | cases listens; done | cases early
      | mem => cases listens
  | _ => cases listens

theorem quiet_of_parking {c : Call} (parking : c.isParking) :
    c.masks = false ∧ c.listens = false := by
  cases c with
  | sys s => cases s <;> first | exact ⟨rfl, rfl⟩ | cases parking
  | mem => exact ⟨rfl, rfl⟩

/-- After `watch_signals` the mask is not changed any more. -/
theorem unmasked_after {failed : ℕ} {signals : Signals} {w : World K}
    (here : e.conf n = ⟨takeCtrlAltDel.bind fun _ => (banner failed).bind fun _ =>
      run candidates signals, w⟩) {i : ℕ} {c : Call} {r : c.Res} (later : n ≤ i)
    (did : e.did i = some ⟨c, r⟩) : c.masks = false := by
  obtain ⟨m₂, later₂, ⟨w₂, looks⟩, settling⟩ := comes_to_look here
  rcases Nat.lt_or_ge i m₂ with settled | looking
  · exact quiet_of_tells (Call.quiet_of_settling (settling i later settled c r did))
  rcases run_goes looks with ⟨-, m₃, -, asking, quiet⟩ | ⟨m₃, r₃, later₃, parked, missing⟩
  · rcases Nat.lt_or_ge i m₃ with early | up
    · exact quiet_of_tells (quiet i looking early c r did)
    · obtain ⟨q, there, outside⟩ := asking.come_up nofun up
      exact Bool.eq_false_iff.mpr fun masks => outside (there.masks did masks)
  · rcases Nat.lt_or_ge i m₃ with looked | gone
    · obtain ⟨path, found⟩ := missing i looking looked
      cases found.symm.trans did
      rfl
    · exact (quiet_of_parking (parking_of_parks parked gone did)).1

/-- The watched signals are blocked by one call; no other call changes the mask, and pid 1 listens
only after this call has succeeded. -/
theorem blocks_once (e : Execution k.semantics (boot candidates kern)) :
    ∃ m r, e.did m = some ⟨.sys (.sigprocmask .block (some WATCHED)), r⟩ ∧
      (∀ i (c : Call) (r : c.Res), e.did i = some ⟨c, r⟩ → c.masks → i = m) ∧
      ∀ i (c : Call) (r' : c.Res), e.did i = some ⟨c, r'⟩ → c.listens → m < i ∧ Ret.rc r = 0 := by
  obtain ⟨m, -, ⟨failed, w, here⟩, rises⟩ := comes_to_watch e
  obtain ⟨r, blocked, goes⟩ := watchSignals_goes here
  have before : ∀ i, i < m → ∀ (c : Call) (r : c.Res), e.did i = some ⟨c, r⟩ → c.tells = false :=
    fun i early c r did => Call.quiet_of_comingUp (rises i (Nat.zero_le i) early c r did)
  have after : ∀ i (c : Call) (r' : c.Res), e.did i = some ⟨c, r'⟩ → c.listens → m < i := by
    intro i c r' did listens
    by_contra early
    obtain ⟨p, there, -⟩ := exists_here e i
    obtain ⟨q, at_, up⟩ := there.come_up (there.listens did listens) (Nat.le_of_not_lt early)
    exact up (at_.masks blocked rfl)
  refine ⟨m, r, blocked, fun i c r' did masks => ?_, fun i c r' did listens =>
    ⟨after i c r' did listens, ?_⟩⟩
  · by_contra other
    rcases Nat.lt_or_gt_of_ne other with early | late
    · cases masks.symm.trans (quiet_of_tells (before i early c r' did))
    rcases goes with ⟨-, why, w', parks⟩ | ⟨-, r₁, watched, rest⟩
    · obtain ⟨r₁, parked⟩ := park_goes parks
      cases masks.symm.trans (quiet_of_parking (parking_of_parks parked late did)).1
    · rcases Nat.eq_or_lt_of_le late with rfl | later
      · cases watched.symm.trans did
        cases masks
      rcases rest with ⟨-, why, w', parks⟩ | ⟨-, w', next⟩
      · obtain ⟨r₂, parked⟩ := park_goes parks
        cases masks.symm.trans (quiet_of_parking (parking_of_parks parked later did)).1
      · cases masks.symm.trans (unmasked_after next later did)
  · rcases goes with ⟨-, why, w', parks⟩ | ⟨ok, -⟩
    · obtain ⟨r₁, parked⟩ := park_goes parks
      have late := after i c r' did listens
      cases listens.symm.trans (quiet_of_parking (parking_of_parks parked late did)).2
    · exact ok

end Once

/-! ## Pid 1 -/

section Parent

variable {candidates : List Spec} {e : Execution standing.semantics (boot candidates Standing.boot)}
  {n m : ℕ}

theorem standing_alone (w w' : World Standing) : ¬ standing.semantics.interfere w w' := by
  rintro ⟨_, impossible, -⟩
  exact impossible

theorem masked_turn {how : MaskHow} {signals : Option (List Int)} {r : Ret}
    (did : e.did n = some ⟨.sys (.sigprocmask how signals), r⟩) (ok : r.rc = 0) :
    (e.conf (n + 1)).world.kern = (e.conf n).world.kern.masked how signals := by
  obtain ⟨v, star, answer⟩ := Execution.answered did
  cases Execution.star_alone standing_alone star
  generalize (e.conf (n + 1)).world = w at answer
  cases answer with
  | sys answer =>
      cases answer with
      | masked => rfl
      | notMasked failed => exact absurd ok failed
      | plain plain => cases plain

theorem unmasked_turn
    (still : ∀ (c : Call) (r : c.Res), e.did n = some ⟨c, r⟩ → c.masks = false) :
    (e.conf (n + 1)).world.kern.blocked = (e.conf n).world.kern.blocked := by
  have turn := e.goes n
  generalize e.did n = did at turn still
  generalize e.conf n = c at turn
  generalize e.conf (n + 1) = c' at turn
  cases turn with
  | unroll star => rw [Execution.star_alone standing_alone star]
  | returned star => rw [Execution.star_alone standing_alone star]
  | gone _ star => rw [Execution.star_alone standing_alone star]
  | answer star answer =>
      cases Execution.star_alone standing_alone star
      have quiet := still _ _ rfl
      cases answer with
      | mem => rfl
      | sys answer =>
          cases answer with
          | masked => cases quiet
          | _ => rfl

/-- Whenever pid 1 waits for a signal, reads one or forks, the watched signals are blocked. -/
theorem listens_blocked {c : Call} {r : c.Res} (did : e.did n = some ⟨c, r⟩) (listens : c.listens) :
    ∀ signal ∈ WATCHED, (e.conf n).world.kern.blocked signal = true := by
  obtain ⟨m, r', blocked, once, only⟩ := blocks_once e
  obtain ⟨later, ok⟩ := only n c r did listens
  intro signal watched
  suffices h : ∀ i, m < i → (e.conf i).world.kern.blocked signal = true from h n later
  intro i after
  induction i, after using Nat.le_induction with
  | base =>
      have chosen : WATCHED.contains signal = true := List.contains_iff_mem.mpr watched
      rw [masked_turn blocked ok]
      show ((e.conf m).world.kern.blocked signal || WATCHED.contains signal) = true
      rw [chosen, Bool.or_true]
  | succ i after ih =>
      rw [unmasked_turn fun c r did => Bool.eq_false_iff.mpr fun masks => ?_, ih]
      have same := once i c r did masks
      omega

end Parent

/-! ## The child -/

/-- No signal is blocked, unless the call that unblocks them all has failed. -/
def Unblocked (m : Standing) (w : World Standing) : Prop :=
  ∃ (r : Ret) (t : ℕ), (⟨.sys (.sigprocmask .unblock none), r, t⟩ : Event) ∈ w.hist ∧
    if r.rc = 0 then ∀ signal, w.kern.blocked signal = false else w.kern.blocked = m.blocked

/-- The process has asked for the terminal, and has it unless that call has failed. -/
def TookTerminal (w : World Standing) : Prop :=
  ∃ (r : Ret) (t : ℕ), (⟨.sys (.setCtty STDIN_FILENO 1), r, t⟩ : Event) ∈ w.hist ∧
    (r.rc = 0 → w.kern.terminal = true)

/-- What the child of a `fork` beside `m` has when it calls `execv`. -/
structure Stands (spec : Spec) (m : Standing) (w : World Standing) : Prop where
  unblocked : Unblocked m w
  ownSession : spec.wantsOwnSession → w.kern.leader = true ∧ TookTerminal w
  sameSession : spec.wantsOwnSession = false → w.kern.leader = false ∧ w.kern.terminal = m.terminal

section Child

variable {m : Standing} {spec : Spec}

theorem standing_stable (P : World Standing → Prop) : Stable standing.semantics P :=
  fun _ _ _ others => absurd others (standing_alone _ _)

/-- The call is an `execv`. -/
def Call.executes : Call → Bool
  | .sys (.execv _ _) => true
  | _ => false

/-- What is asked of the child at its `execv`. -/
abbrev Executes (spec : Spec) (m : Standing) (c : calls.Op) (w : World Standing) : Prop :=
  ∀ path argv, c = Call.sys (.execv path argv) → Stands spec m w

theorem executes_other {c : calls.Op} (other : Call.executes c = false) (w : World Standing) :
    Executes spec m c w := by
  rintro path argv rfl
  cases other

/-- A program that only logs does not call `execv`. -/
theorem logs_executes {α : Type} {p : Pid1 α} (logs : OnlyLogs Promised p) :
    Triple standing.semantics (Executes spec m) (fun _ => True) p fun _ _ => True := by
  refine Triple.post (Only.triple (standing_stable _) (fun c w log _ => executes_other ?_ w)
    (fun _ _ _ _ _ _ answer => ⟨Kernel.Answers.promised answer, trivial⟩) logs.only)
    fun _ _ _ => trivial
  cases c with
  | sys s => cases s <;> first | rfl | cases log
  | mem => rfl

/-- The end of `child_main` from `execv` on. -/
theorem exec_stands :
    Triple standing.semantics (Executes spec m) (Stands spec m)
      ((Sys.exec spec.path spec.argv).bind fun failure =>
        (Log.error s!"could not exec {spec.path}: {failure}").bind fun _ =>
          (Sys.exitChild 127 : Pid1 Unit)) fun _ _ => True := by
  refine Triple.bind (R := fun _ _ => True) ?_ fun failure =>
    Triple.bind (logs_executes emit_logs) fun _ => ?_
  · simp only [Sys.exec, Prog.bind_eq, Prog.pure_eq]
    have returns : ∀ e : IoError, Triple standing.semantics (Executes spec m) (Stands spec m)
        (.ret e) fun _ _ => True := fun e =>
      Triple.pre (Triple.ret (standing_stable _)) fun _ _ => trivial
    split
    · exact returns _
    · split
      · exact returns _
      · refine Triple.bind (Triple.perform (Q := fun _ _ => True) (standing_stable _)
          (fun _ stands _ _ _ => stands) (fun _ _ _ _ _ => trivial) fun _ => standing_stable _)
          fun r => Triple.ret (Q := fun _ _ => True) (standing_stable _)
  · simp only [Sys.exitChild, Prog.bind_eq]
    exact Triple.bind (Triple.perform (Q := fun _ _ => True) (standing_stable _)
      (fun w _ => executes_other rfl w) (fun _ _ _ _ _ => trivial) fun _ => standing_stable _)
      fun never => never.elim

/-- What holds after the child has unblocked its signals. -/
theorem unblocked_of_answer {r : Ret} {w w' : World Standing} (here : w.kern = m.forked)
    (answer : standing.Answers w (.sys (.sigprocmask .unblock none)) r w') :
    Unblocked m w' ∧ w'.kern.leader = false ∧ w'.kern.terminal = m.terminal := by
  cases answer with
  | sys answer =>
      refine ⟨⟨r, _, List.mem_cons_self, ?_⟩, ?_⟩
      · cases answer with
        | masked ok =>
            rw [if_pos ok]
            intro signal
            exact Bool.and_false _
        | notMasked failed =>
            rw [if_neg failed]
            show w.kern.blocked = m.blocked
            rw [here]
            rfl
        | plain plain => cases plain
      · cases answer with
        | plain plain => cases plain
        | _ =>
            show w.kern.leader = false ∧ w.kern.terminal = m.terminal
            rw [here]
            exact ⟨rfl, rfl⟩

/-- Calls that do not change the mask keep this. -/
theorem Unblocked.kept {s : Syscall} {r : s.Res} {w w' : World Standing} (unblocked : Unblocked m w)
    (still : (Call.sys s).masks = false) (answer : standing.Answers w (.sys s) r w') :
    Unblocked m w' := by
  obtain ⟨r₁, t, member, holds⟩ := unblocked
  cases answer with
  | sys answer =>
      have same : ∀ {after}, Standing.Answer w.kern s r after → after.blocked = w.kern.blocked := by
        intro after answer
        cases answer with
        | masked | notMasked => cases still
        | _ => rfl
      refine ⟨r₁, t, List.mem_cons_of_mem _ member, ?_⟩
      show if r₁.rc = 0 then ∀ signal, Standing.blocked _ signal = false
        else Standing.blocked _ = m.blocked
      rw [World.called, same answer]
      exact holds

/-- In all of `child_main`, what is asked at `execv` holds. -/
theorem childMain_stands :
    Triple standing.semantics (Executes spec m) (fun w => w.kern = m.forked)
      (Proc.childMain spec : Pid1 Unit) fun _ _ => True := by
  simp only [Proc.childMain, Sys.unblockAllSignals, Sys.newSession, Sys.setCtty, Prog.bind_eq,
    Prog.bind_assoc, Prog.pure_eq, Prog.ret_bind]
  refine Triple.bind (R := fun _ w => Unblocked m w ∧ w.kern.leader = false ∧
    w.kern.terminal = m.terminal) (Triple.perform (standing_stable _)
    (fun w _ => executes_other rfl w)
    (fun w r w' here answer => unblocked_of_answer here answer) fun _ => standing_stable _)
    fun _ => ?_
  split
  · rename_i own
    refine Triple.bind (R := fun _ w => Unblocked m w ∧ w.kern.leader = true)
      (Triple.perform (standing_stable _) (fun w _ => executes_other rfl w)
        (fun w r w' here answer => ⟨here.1.kept rfl answer, ?_⟩) fun _ => standing_stable _)
      fun _ => ?_
    · cases answer with
      | sys answer =>
          cases answer with
          | session => rfl
          | noSession leads => exact leads
          | plain plain => cases plain
    refine Triple.bind (R := fun _ w => Stands spec m w)
      (Triple.perform (standing_stable _) (fun w _ => executes_other rfl w)
        (fun w r w' here answer => ⟨here.1.kept rfl answer, fun _ => ?_,
          fun same => Bool.noConfusion (own.symm.trans same)⟩) fun _ => standing_stable _)
      fun _ => exec_stands
    cases answer with
    | sys answer =>
        refine ⟨?_, r, _, List.mem_cons_self, fun ok => ?_⟩
        · cases answer with
          | plain plain => cases plain
          | _ => exact here.2
        · cases answer with
          | terminal => rfl
          | noTerminal failed => exact absurd ok failed
          | plain plain => cases plain
  · rename_i same
    exact exec_stands.pre fun w here => ⟨here.1, fun own => absurd own same, fun _ => here.2⟩

end Child

/-! ## The promise -/

theorem did_of_next {K : Type} {k : Kernel K} {candidates : List Spec} {kern : K}
    {e : Execution k.semantics (boot candidates kern)} {n : ℕ} {c : Call} (comesBack : Nonempty c.Res)
    (next : (e.conf n).prog.next = some c) : ∃ r, e.did n = some ⟨c, r⟩ := by
  generalize here : e.conf n = conf at next
  obtain ⟨prog, w⟩ := conf
  cases prog with
  | ret | loop => cases next
  | call o rest =>
      cases next
      obtain ⟨r, w', did, -⟩ := Execution.turn_call comesBack here
      exact ⟨r, did⟩

/-- **Signals stay with pid 1.**  In every execution, whenever pid 1 waits for a signal, reads
one or forks, the signals it watches are blocked; and a shell that is forked there is executed
with no signal blocked, unless that very call failed, and on request as the leader of a
session of its own, which has taken the terminal over, unless that call failed. -/
theorem signals_stay_with_pid_one {candidates : List Spec}
    (e : Execution standing.semantics (boot candidates Standing.boot)) (n : ℕ) :
    (∀ c, (e.conf n).prog.next = some c → c.listens →
      ∀ signal ∈ WATCHED, (e.conf n).world.kern.blocked signal = true) ∧
    ∀ spec r child, Reaches standing.semantics ⟨(Proc.childMain spec : Pid1 Unit),
        (e.conf n).world.called 0 .fork r (e.conf n).world.kern.forked⟩ child →
      ∀ path argv, child.prog.next = some (Call.sys (.execv path argv)) →
        Stands spec (e.conf n).world.kern child.world := by
  constructor
  · intro c next listens
    have comesBack : Nonempty c.Res := by
      cases c with
      | sys s => cases s <;> first | cases listens; done | exact Call.comes_back rfl
      | mem => cases listens
    obtain ⟨r, did⟩ := did_of_next comesBack next
    exact listens_blocked did listens
  · intro spec r child reach path argv next
    have safe : Safe standing.semantics (Executes spec (e.conf n).world.kern)
        (Proc.childMain spec : Pid1 Unit) (fun _ _ => True) _ :=
      childMain_stands ((e.conf n).world.called 0 .fork r (e.conf n).world.kern.forked) rfl
    obtain ⟨prog, w⟩ := child
    cases prog with
    | ret | loop => cases next
    | call o rest =>
        cases next
        exact Safe.guarded (c := ⟨Proc.childMain spec, _⟩) safe reach path argv rfl

/-- The script in which nothing fails. -/
def allWell : Script standing where
  before w _ := w.kern
  answer w
    | .sigprocmask how signals => some (⟨0, ⟨0, ""⟩⟩, w.kern.masked how signals)
    | .setsid =>
        if w.kern.leader then some (⟨-1, ⟨0, ""⟩⟩, w.kern)
        else some (⟨1, ⟨0, ""⟩⟩, { w.kern with leader := true, terminal := false })
    | .setCtty _ _ =>
        if w.kern.leader then some (⟨0, ⟨0, ""⟩⟩, { w.kern with terminal := true })
        else some (⟨-1, ⟨0, ""⟩⟩, w.kern)
    | s => s.smooth.map fun r => (r, w.kern)
  clock _ := 0
  others := Script.still
  answers {w s r kern} h := by
    cases s with
    | sigprocmask =>
        cases h
        exact .masked rfl
    | setsid =>
        dsimp only at h
        split at h
        · rename_i leads
          cases h
          exact .noSession leads (by decide)
        · rename_i free
          cases h
          exact .session (Bool.eq_false_iff.mpr free) (by decide)
    | setCtty =>
        dsimp only at h
        split at h
        · rename_i leads
          cases h
          exact .terminal leads rfl
        · cases h
          exact .noTerminal (by decide)
    | _ =>
        obtain ⟨promised, rfl⟩ := Syscall.smoothly h
        exact .plain rfl promised
  reads _ := trivial

/-- Pid 1 about to fork its first shell. -/
def aboutToFork : Config calls (World Standing) Unit :=
  allWell.driver.run (fun c => c.prog.next == some (Call.sys .fork)) 400
    (boot CANDIDATES Standing.boot)

/-- The first shell about to be exec'd. -/
def aboutToExecute : Config calls (World Standing) Unit :=
  allWell.driver.run (fun c => c.prog.next == some (Call.sys (.execv "/bin/sh" ["sh"]))) 400
    ⟨Proc.childMain ⟨"shell", "/bin/sh", ["sh"], true⟩,
      aboutToFork.world.called 0 .fork ⟨0, ⟨0, ""⟩⟩ aboutToFork.world.kern.forked⟩

/-- This kernel has an answer to every call whose result type has an element. -/
theorem standing_answers (w : World Standing) (c : Call) (comesBack : Nonempty c.Res) :
    ∃ r w', standing.Answers w c r w' := by
  obtain ⟨r⟩ := comesBack
  cases c with
  | mem o => exact ⟨_, _, .mem (show standing.reads w.kern 0 from trivial)⟩
  | sys s =>
      have answered : ∃ (r : s.Res) (kern : Standing), Standing.Answer w.kern s r kern := by
        obtain ⟨r', promised⟩ := promised_result r
        cases s with
        | sigprocmask => exact ⟨⟨-1, ⟨0, ""⟩⟩, _, .notMasked (by decide)⟩
        | setsid =>
            cases leads : w.kern.leader with
            | true => exact ⟨⟨-1, ⟨0, ""⟩⟩, _, .noSession leads (by decide)⟩
            | false => exact ⟨⟨1, ⟨0, ""⟩⟩, _, .session leads (by decide)⟩
        | setCtty => exact ⟨⟨-1, ⟨0, ""⟩⟩, _, .noTerminal (by decide)⟩
        | _ => exact ⟨r', w.kern, .plain rfl promised⟩
      obtain ⟨r, kern, answer⟩ := answered
      exact ⟨r, _, .sys answer⟩

theorem aboutToFork_turns :
    Turns standing.semantics (boot CANDIDATES Standing.boot) aboutToFork :=
  allWell.driver.turns _ _ _

theorem aboutToExecute_reachable :
    Reaches standing.semantics ⟨(Proc.childMain ⟨"shell", "/bin/sh", ["sh"], true⟩ : Pid1 Unit),
      aboutToFork.world.called 0 .fork ⟨0, ⟨0, ""⟩⟩ aboutToFork.world.kern.forked⟩ aboutToExecute :=
  allWell.driver.reaches _ _ _

theorem signals_stay_with_pid_one_at_the_first_fork :
    (∀ signal ∈ WATCHED, aboutToFork.world.kern.blocked signal = true) ∧
      Stands ⟨"shell", "/bin/sh", ["sh"], true⟩ aboutToFork.world.kern aboutToExecute.world := by
  obtain ⟨rest⟩ := Execution.exists_of_answers (M := standing.semantics) standing_answers aboutToFork
  obtain ⟨e, n, same⟩ := Execution.exists_after aboutToFork_turns rest
  have here : e.conf n = aboutToFork := by rw [← Nat.add_zero n, same, rest.start]
  have holds := signals_stay_with_pid_one e n
  rw [here] at holds
  exact ⟨holds.1 (.sys .fork) (by decide +kernel) rfl,
    holds.2 _ ⟨0, ⟨0, ""⟩⟩ _ aboutToExecute_reachable "/bin/sh" ["sh"] (by decide +kernel)⟩

end Zevory
