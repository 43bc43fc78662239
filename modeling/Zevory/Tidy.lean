import Mathlib.Data.List.Nodup
import Zevory.Refinement

/-!
# The process table, place by place

What every place says about the running entries of the table, on any kernel: there is at
most one, none while a shell is being started, one while `supervise` waits without a limit,
and finished ones only inside `reap_all`.
-/

namespace Zevory

open Interaction Signal

namespace Place

/-- What each place says about the pids of the running entries of the table. -/
def demands (shells : List Int) : Place → Prop
  | .bringUp => shells = []
  | .asking _ => shells = []
  | .chosen _ _ => shells = []
  | .noFork => shells = []
  | .forked _ _ _ => shells = []
  | .idle => shells = []
  | .due _ => shells = []
  | .waiting millis => millis = UNTIL_SOMETHING_ARRIVES → shells ≠ []
  | .hangingUp _ leaders => leaders ⊆ shells
  | _ => True

/-- The places at which there may be finished entries in the table. -/
def keepsFinished : Place → Bool
  | .reaping _ _ => true
  | .crediting _ _ _ _ => true
  | .harvested _ _ _ => true
  | _ => false

variable {p : Place} {shells : List Int}

/-- The places that say nothing about the running entries. -/
def isPlain : Place → Bool
  | .bringUp => false
  | .asking _ => false
  | .chosen _ _ => false
  | .noFork => false
  | .forked _ _ _ => false
  | .idle => false
  | .due _ => false
  | .waiting _ => false
  | .crediting _ _ _ _ => false
  | .hangingUp _ _ => false
  | _ => true

theorem demands_of_plain (plain : p.isPlain) : p.demands shells := by
  cases p with
  | bringUp | asking | chosen | noFork | forked | idle | due | waiting | hangingUp => cases plain
  | _ => trivial

theorem afterPoll_plain (r : Ret) : (afterPoll r).isPlain := by
  unfold afterPoll
  split
  · split <;> rfl
  · split <;> rfl

theorem afterSignal_plain (signal : Int) : (afterSignal signal).isPlain := by
  unfold afterSignal
  split <;> rfl

theorem afterRead_plain (r : Ret × Int) : (afterRead r).isPlain := by
  unfold afterRead
  split
  · split <;> rfl
  · split
    · rfl
    · exact afterSignal_plain r.2

theorem afterHarvest_plain (why : Why) (shortestLife : Option ℕ) (childrenLeft : Bool) :
    (afterHarvest why shortestLife childrenLeft).isPlain := by
  cases why with
  | supervising =>
      cases shortestLife with
      | none => rfl
      | some ranFor =>
          simp only [afterHarvest]
          split <;> rfl
  | stopping => cases childrenLeft <;> rfl
  | silence => cases childrenLeft <;> rfl

theorem afterCheck_plain (action : Power.Action) (killed : Bool) (deadline now : ℕ) :
    (afterCheck action killed deadline now).isPlain := by
  unfold afterCheck
  split
  · split <;> rfl
  · rfl

theorem afterVerdict_plain (verdict : Option Verdict) : (afterVerdict verdict).isPlain := by
  unfold afterVerdict
  split <;> rfl

end Place

/-- The table is as the place says: at most one running entry, the running entries that the place
demands, and finished entries only where they may be. -/
structure Tidy (p : Place) (t : Table) : Prop where
  few : t.shells.length ≤ 1
  demands : p.demands t.shells
  finished : p.keepsFinished = false → ∀ e ∈ t.entries, e.isRunning

theorem Tidy.distinct {p : Place} {t : Table} (tidy : Tidy p t) : t.shells.Nodup := by
  have few := tidy.few
  match shells : t.shells with
  | [] => exact List.nodup_nil
  | [_] => exact List.nodup_singleton _
  | _ :: _ :: _ => simp [shells] at few

/-- The operations that change the entries of the table. -/
def Call.changesTable : Call → Bool
  | .mem .tableNew => true
  | .mem (.track _ _ _) => true
  | .mem (.recordExit _ _) => true
  | .mem .forgetFinished => true
  | _ => false

variable {K : Type} {k : Kernel K} {p q : Place} {w w' : World K} {c : Call}
  {f : c.Res → Place} {r : c.Res}

theorem table_of_answer (answer : k.Answers w c r w') (still : c.changesTable = false) :
    w'.mem.table = w.mem.table := by
  cases answer with
  | sys => rfl
  | @mem o => cases o <;> first | rfl | cases still

/-- A move that leaves the table alone, from a place where no entry is finished. -/
theorem Tidy.to (tidy : Tidy p w.mem.table) (answer : k.Answers w c r w')
    (still : c.changesTable = false) (clean : p.keepsFinished = false)
    (demands : q.demands w.mem.table.shells) : Tidy q w'.mem.table := by
  rw [table_of_answer answer still]
  exact ⟨tidy.few, demands, fun _ => tidy.finished clean⟩

theorem Tidy.toPlain (tidy : Tidy p w.mem.table) (answer : k.Answers w c r w')
    (still : c.changesTable = false) (clean : p.keepsFinished = false) (plain : q.isPlain) :
    Tidy q w'.mem.table :=
  tidy.to answer still clean (Place.demands_of_plain plain)

theorem Tidy.stay (tidy : Tidy p w.mem.table) (answer : k.Answers w c r w')
    (still : c.changesTable = false) : Tidy p w'.mem.table := by
  rw [table_of_answer answer still]
  exact tidy

theorem still_of_log (log : c.isLog) : c.changesTable = false := by
  cases c with
  | sys s => rfl
  | mem o => cases o <;> first | rfl | cases log

theorem still_of_bringUp (early : c.isBringUp) : c.changesTable = false := by
  cases c with
  | sys s => rfl
  | mem o => cases o <;> first | rfl | cases early

/-! ## The operations that change the table -/

theorem tidy_track {first : Bool} {spec : Spec} {pid : Int} {r : Unit}
    (tidy : Tidy (.forked first spec pid) w.mem.table)
    (answer : k.Answers w (.mem (.track spec.name pid spec.wantsOwnSession)) r w') :
    w'.mem.table.shells = [pid] ∧
      Tidy (if first then .up else .waiting BACKOFF_CHECK_MS) w'.mem.table := by
  have noShell : w.mem.table.shells = [] := tidy.demands
  cases answer with
  | @mem o now =>
      have shells : (w.mem.table.track spec.name pid spec.wantsOwnSession now).shells = [pid] := by
        rw [Table.shells_track, noShell]
        rfl
      have finished : ∀ e ∈ (w.mem.table.track spec.name pid spec.wantsOwnSession now).entries,
          e.isRunning := by
        intro e member
        rcases List.mem_append.mp member with old | new
        · exact tidy.finished rfl e old
        · rw [List.mem_singleton.mp new]
          rfl
      refine ⟨shells, ?_, ?_, fun _ => finished⟩
      · simp [World.updated, MemOp.run, shells]
      · cases first
        · intro waits
          cases waits
        · trivial

theorem tidy_recordExit {why : Why} {shortestLife : Option ℕ} {pid : Int} {status : Status}
    {r : Option Departed} (tidy : Tidy (.crediting why shortestLife pid status) w.mem.table)
    (answer : k.Answers w (.mem (.recordExit pid status)) r w') :
    Tidy (Place.afterCredit why shortestLife r) w'.mem.table := by
  have next : (Place.afterCredit why shortestLife r).isPlain := by cases r <;> rfl
  have keeps : (Place.afterCredit why shortestLife r).keepsFinished = true := by cases r <;> rfl
  cases answer with
  | @mem o now =>
      have shells := (w.mem.table.recordExit_shells pid status now).2
      refine ⟨?_, Place.demands_of_plain next, fun clean => ?_⟩
      · refine Nat.le_trans ?_ tidy.few
        simp only [World.updated, MemOp.run, shells]
        exact List.length_erase_le
      · rw [keeps] at clean
        cases clean

theorem tidy_forgetFinished {why : Why} {shortestLife : Option ℕ} {childrenLeft : Bool}
    {r : Unit} (tidy : Tidy (.harvested why shortestLife childrenLeft) w.mem.table)
    (answer : k.Answers w (.mem .forgetFinished) r w') :
    Tidy (Place.afterHarvest why shortestLife childrenLeft) w'.mem.table := by
  have next := Place.afterHarvest_plain why shortestLife childrenLeft
  cases answer with
  | @mem o now =>
      refine ⟨?_, Place.demands_of_plain next, fun _ => w.mem.table.forgetFinished_running⟩
      simp only [World.updated, MemOp.run, Table.shells_forgetFinished]
      exact tidy.few

/-- Every move from a place where the table is as it says leads to such a place. -/
theorem Tidy.kept (tidy : Tidy p w.mem.table) (move : Moves p c f)
    (answer : k.Answers w c r w') : Tidy (f r) w'.mem.table := by
  have demands := tidy.demands
  cases move with
  | log log => exact tidy.stay answer (still_of_log log)
  | bringUp early => exact tidy.stay answer (still_of_bringUp early)
  | tableNew =>
      cases answer with
      | mem => exact ⟨Nat.zero_le _, rfl, nofun⟩
  | ask =>
      cases r with
      | none => exact tidy.toPlain answer rfl rfl rfl
      | some spec => exact tidy.to answer rfl rfl demands
  | fork =>
      dsimp only
      split
      · exact tidy.to answer rfl rfl demands
      · split
        · exact tidy.toPlain answer rfl rfl rfl
        · exact tidy.to answer rfl rfl demands
  | noFork => cases r <;> exact tidy.toPlain answer rfl rfl rfl
  | track => exact (tidy_track tidy answer).2
  | running =>
      have counted : r = w.mem.table.shells.length := by
        cases answer with
        | mem => exact w.mem.table.running_eq
      dsimp only
      by_cases idle : r = 0
      · rw [if_pos idle]
        rw [counted] at idle
        exact tidy.to answer rfl rfl (List.length_eq_zero_iff.mp idle)
      · rw [if_neg idle]
        rw [counted] at idle
        exact tidy.to answer rfl rfl fun _ noShell => idle (List.length_eq_zero_iff.mpr noShell)
  | idle => exact tidy.to answer rfl rfl demands
  | @due now =>
      dsimp only
      by_cases timeIsUp : now ≥ r
      · rw [if_pos timeIsUp]
        exact tidy.to answer rfl rfl demands
      · rw [if_neg timeIsUp]
        exact tidy.to answer rfl rfl nofun
  | poll => exact tidy.toPlain answer rfl rfl (Place.afterPoll_plain r)
  | read => exact tidy.toPlain answer rfl rfl (Place.afterRead_plain r)
  | waitpid =>
      rw [table_of_answer answer rfl]
      unfold Place.afterWaitpid
      split <;> exact ⟨tidy.few, trivial, nofun⟩
  | recordExit => exact tidy_recordExit tidy answer
  | forgetFinished => exact tidy_forgetFinished tidy answer
  | dying => cases r <;> exact tidy.toPlain answer rfl rfl rfl
  | failed => exact tidy.toPlain answer rfl rfl (Place.afterVerdict_plain r)
  | sessionLeaders =>
      refine tidy.to answer rfl rfl ?_
      cases answer with
      | mem => exact w.mem.table.sessionLeaders_subset
  | hangUp =>
      have leaders : _ ⊆ w.mem.table.shells := demands
      exact tidy.to answer rfl rfl fun pid later => leaders (List.mem_cons_of_mem _ later)
  | check => exact tidy.toPlain answer rfl rfl (Place.afterCheck_plain _ _ _ r)
  | watch =>
      dsimp only
      split <;> exact tidy.toPlain answer rfl rfl rfl
  | _ => exact tidy.toPlain answer rfl rfl rfl

theorem tidy_boot : Tidy .bringUp Mem.boot.table :=
  ⟨Nat.zero_le _, rfl, nofun⟩

/-- In every reachable world, on any kernel, the table is as the place of pid 1 says. -/
theorem tidy_everywhere {candidates : List Spec} {kern : K} {conf : Config calls (World K) Unit}
    (reach : Reaches k.semantics (boot candidates kern) conf) (path : Path conf.world.hist p) :
    Tidy p conf.world.mem.table := by
  refine at_every_place (I := fun p w => Tidy p w.mem.table) tidy_boot ?_ ?_ reach path
  · exact fun p => Kernel.stable_private (P := fun mem _ => Tidy p mem.table)
  · exact fun p call f r w w' tidy move answer => tidy.kept move answer

end Zevory
