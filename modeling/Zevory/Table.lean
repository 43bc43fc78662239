import Zevory.Libc

/-!
# The process table

`proc.rs` without its system calls: what pid 1 knows about the shells it started.
Where the source reads the clock (`sys::monotonic_secs`) the reading is the
argument `now`.
-/

namespace Zevory

/-- `Spec`: a program that can be started, with its arguments and whether it wants a session of its
own. -/
structure Spec where
  name : String
  path : String
  argv : List String
  wantsOwnSession : Bool
  deriving DecidableEq, Repr

inductive State
  | running
  | exited (code : Int)
  | killed (signal : Int)
  deriving DecidableEq, Repr

structure Entry where
  name : String
  pid : Int
  state : State
  startedAt : ℕ
  ownsSession : Bool
  deriving DecidableEq, Repr

/-- What `record_exit` reports about a child that is gone. -/
structure Departed where
  name : String
  pid : Int
  state : State
  ranFor : ℕ
  deriving DecidableEq, Repr

structure Table where
  entries : List Entry
  deriving DecidableEq, Repr

/-- `sys::exit_code`: the exit code of a status, if the child has exited. -/
def exitCode (status : Status) : Option Int :=
  if status.WIFEXITED then some status.WEXITSTATUS else none

/-- `sys::termination_signal`: the signal of a status, if it has killed the child. -/
def terminationSignal (status : Status) : Option Int :=
  if status.WIFSIGNALED then some status.WTERMSIG else none

def stateFrom (status : Status) : State :=
  match exitCode status with
  | some code => .exited code
  | none =>
      match terminationSignal status with
      | some signal => .killed signal
      | none => .exited (-1)

theorem stateFrom_ne_running (status : Status) : stateFrom status ≠ .running := by
  unfold stateFrom
  split
  · nofun
  · split <;> nofun

namespace Entry

/-- The test `e.state == State::Running` of an entry. -/
def isRunning (e : Entry) : Bool :=
  e.state == .running

/-- The test of `record_exit`: `e.pid == pid && e.state == State::Running`. -/
def isLive (pid : Int) (e : Entry) : Bool :=
  e.pid == pid && e.isRunning

end Entry

/-- Find the first live entry of `pid` and put `state` into it. The result is the entry as it was
before, and all entries after that. -/
def markFirst (pid : Int) (state : State) : List Entry → Option (Entry × List Entry)
  | [] => none
  | e :: es =>
      if e.isLive pid then some (e, { e with state := state } :: es)
      else (markFirst pid state es).map fun found => (found.1, e :: found.2)

namespace Table

def new : Table := ⟨[]⟩

def track (t : Table) (name : String) (pid : Int) (ownsSession : Bool) (now : ℕ) : Table :=
  ⟨t.entries ++ [{ name, pid, state := .running, startedAt := now, ownsSession }]⟩

def sessionLeaders (t : Table) : List Int :=
  (t.entries.filter fun e => e.ownsSession && e.isRunning).map Entry.pid

def running (t : Table) : ℕ :=
  (t.entries.filter Entry.isRunning).length

/-- `record_exit` at the clock reading `now`. Its `saturating_sub` is the subtraction of `ℕ`. -/
def recordExit (t : Table) (pid : Int) (status : Status) (now : ℕ) :
    Option Departed × Table :=
  let state := stateFrom status
  match markFirst pid state t.entries with
  | none => (none, t)
  | some (entry, entries) =>
      (some { name := entry.name, pid, state, ranFor := now - entry.startedAt }, ⟨entries⟩)

def forgetFinished (t : Table) : Table :=
  ⟨t.entries.filter Entry.isRunning⟩

/-! ## The shells that are running -/

/-- The pids of the entries that are running. -/
def shells (t : Table) : List Int :=
  (t.entries.filter Entry.isRunning).map Entry.pid

theorem running_eq (t : Table) : t.running = t.shells.length := by
  rw [running, shells, List.length_map]

theorem sessionLeaders_subset (t : Table) : t.sessionLeaders ⊆ t.shells := by
  intro pid h
  simp only [sessionLeaders, List.mem_map, List.mem_filter, Bool.and_eq_true] at h
  obtain ⟨e, ⟨member, _, running⟩, rfl⟩ := h
  exact List.mem_map.mpr ⟨e, List.mem_filter.mpr ⟨member, running⟩, rfl⟩

theorem shells_track (t : Table) (name : String) (pid : Int) (owns : Bool) (now : ℕ) :
    (t.track name pid owns now).shells = t.shells ++ [pid] := by
  simp [shells, track, List.filter_append, Entry.isRunning]

@[simp] theorem shells_forgetFinished (t : Table) : t.forgetFinished.shells = t.shells := by
  simp [shells, forgetFinished]

theorem forgetFinished_running (t : Table) : ∀ e ∈ t.forgetFinished.entries, e.isRunning :=
  fun _ h => (List.mem_filter.mp h).2

/-- `markFirst` takes the first running entry of that pid out of the running ones, if there is one.
-/
theorem markFirst_shells (pid : Int) {state : State} (ended : state ≠ .running)
    (entries : List Entry) :
    match markFirst pid state entries with
    | none => pid ∉ (⟨entries⟩ : Table).shells
    | some found => pid ∈ (⟨entries⟩ : Table).shells ∧
        (⟨found.2⟩ : Table).shells = (⟨entries⟩ : Table).shells.erase pid := by
  induction entries with
  | nil => exact List.not_mem_nil
  | cons e es ih =>
      by_cases live : e.isLive pid
      · obtain ⟨rfl, running⟩ : e.pid = pid ∧ e.isRunning := by
          simpa [Entry.isLive] using live
        have done : ({ e with state := state } : Entry).isRunning = false := by
          simpa [Entry.isRunning] using ended
        simp [markFirst, live, shells, running, done]
      · rw [markFirst, if_neg live]
        have other : e.isRunning → e.pid ≠ pid := by
          intro running same
          exact live (by simp [Entry.isLive, running, same])
        cases marked : markFirst pid state es with
        | none =>
            rw [marked] at ih
            simp only [Option.map_none, shells, List.filter_cons]
            split
            · rename_i running
              rw [List.map_cons, List.mem_cons]
              rintro (rfl | member)
              · exact other running rfl
              · exact ih member
            · exact ih
        | some found =>
            rw [marked] at ih
            simp only [Option.map_some, shells, List.filter_cons]
            split
            · rename_i running
              rw [List.map_cons, List.map_cons,
                List.erase_cons_tail (by simpa using other running)]
              exact ⟨List.mem_cons_of_mem _ ih.1, congrArg _ ih.2⟩
            · exact ih

/-- `record_exit` reports a child exactly if a shell with that pid is running, and takes one such
shell out of the running ones. -/
theorem recordExit_shells (t : Table) (pid : Int) (status : Status) (now : ℕ) :
    (t.recordExit pid status now).1.isSome = decide (pid ∈ t.shells) ∧
      (t.recordExit pid status now).2.shells = t.shells.erase pid := by
  have marked := markFirst_shells pid (stateFrom_ne_running status) t.entries
  unfold recordExit
  dsimp only
  cases h : markFirst pid (stateFrom status) t.entries with
  | none =>
      rw [h] at marked
      exact ⟨(decide_eq_false marked).symm, (List.erase_of_not_mem marked).symm⟩
  | some found =>
      rw [h] at marked
      exact ⟨(decide_eq_true marked.1).symm, marked.2⟩

section RecordExit

variable {t : Table} {pid : Int} {status : Status} {now : ℕ}

theorem recordExit_known {gone : Departed} (found : (t.recordExit pid status now).1 = some gone) :
    pid ∈ t.shells := by
  have credited := (t.recordExit_shells pid status now).1
  rw [found] at credited
  exact of_decide_eq_true credited.symm

theorem recordExit_unknown (missed : (t.recordExit pid status now).1 = none) :
    (t.recordExit pid status now).2.shells = t.shells := by
  obtain ⟨credited, shells⟩ := t.recordExit_shells pid status now
  have absent : pid ∉ t.shells := by
    intro member
    rw [missed, decide_eq_true member] at credited
    cases credited
  exact shells.trans (List.erase_of_not_mem absent)

end RecordExit

end Table

end Zevory
