import Mathlib.Data.List.Infix
import Zevory.Boot
import Zevory.Script

/-!
# The ready marker

`diagnose-boot.sh` takes a boot for good when the log has `READY_MARKER`.  Pid 1 logs the
marker as soon as `fork` has returned, so it says that a shell is up only if the child has
got through its `execv` before pid 1 comes to write it.
-/

namespace Zevory

open Interaction

/-! ## `diagnose-boot.sh` -/

/-- `grep -q -- "$pattern" "$LOG"`, for a pattern without special characters: some line contains it.
-/
def grep (pattern : String) (log : List (List UInt8)) : Bool :=
  log.any fun line => decide (asBytes pattern <:+: line)

/-- What `check` leaves in the variable `fail`: 1 when the pattern is missing. -/
def check (fail : ℕ) (pattern : String) (log : List (List UInt8)) : ℕ :=
  if grep pattern log then fail else 1

/-- The exit status of `diagnose-boot.sh` for a log file, line by line, if there is one. -/
def diagnoseBoot : Option (List (List UInt8)) → ℕ
  | none => 1
  | some log =>
      if !grep "Linux version" log then 1
      else
        let fail := 0
        let fail := if grep "Kernel panic" log then 1 else fail
        let fail := check fail "Linux version" log
        let fail := check fail "Run /init as init process" log
        check fail "bootstrap OK, shell ready" log

/-- A log with which `diagnose-boot.sh` exits 0 has a line with the marker. -/
theorem marker_of_pass {log : List (List UInt8)} (pass : diagnoseBoot (some log) = 0) :
    ∃ line ∈ log, saysReady line := by
  cases marker : grep "bootstrap OK, shell ready" log with
  | true =>
      obtain ⟨line, member, found⟩ := List.any_eq_true.mp marker
      have marked : asBytes READY_MARKER <:+: line := of_decide_eq_true found
      exact ⟨line, member, marked⟩
  | false => simp [diagnoseBoot, check, marker] at pass

/-! ## What a boot leaves behind -/

namespace Boot

/-- What the processes of a boot have done, newest first, with the pid of each. -/
abbrev Trace := List (Int × Deed calls)

/-- The deed is a write that contains the marker. -/
def Marks : Deed calls → Prop
  | .called (.sys (.write _ bytes)) _ => saysReady bytes
  | _ => False

/-- The deed is an `execv` that has succeeded. -/
def isExec : Deed calls → Bool
  | .left (.sys (.execv _ _)) => true
  | _ => false

/-- The deed is an `execv` of a candidate, with its arguments, that has succeeded. -/
def isShell : Deed calls → Bool
  | .left (.sys (.execv path argv)) =>
      CANDIDATES.any fun spec => path == spec.path && argv == spec.argv
  | _ => false

def gotThrough (trace : Trace) : Bool := trace.any fun entry => isExec entry.2

def shellUp (trace : Trace) : Bool := trace.any fun entry => isShell entry.2

/-- At every write of the marker in the trace, a shell was up before. -/
def ReadyAfterShell (trace : Trace) : Prop :=
  ∀ later i d earlier, trace = later ++ (i, d) :: earlier → Marks d → shellUp earlier = true

/-- What a deed has put into the log, on the console or on standard error: the bytes a write has
taken. -/
def record : Int × Deed calls → Option (List UInt8)
  | (_, .called (.sys (.write _ bytes)) r) =>
      if 0 < Ret.rc r then some (bytes.take (Ret.rc r).toNat) else none
  | _ => none

/-- The log of a boot: every line in it with the marker was written by pid 1 or its children, or
there is a shell that could have written it. -/
def IsLog (trace : Trace) (log : List (List UInt8)) : Prop :=
  ∀ line ∈ log, line ∈ trace.filterMap record ∨ ¬ saysReady line ∨ shellUp trace = true

/-- The process may go on: pid 1 does not come to write something after it has entered its
first shell before the child has got through its `execv`. -/
def letsChildFirst (pool : Pool calls (World Unit) Int) (i : Int) : Bool :=
  i != 1 ||
    match pool.procs 1 with
    | some ⟨.call (.sys (.write _ _)) _, w⟩ => !entered w.hist || gotThrough pool.trace
    | _ => true

variable {trace : Trace} {i : Int} {d : Deed calls}

theorem shellUp_cons (up : shellUp trace = true) : shellUp ((i, d) :: trace) = true := by
  rw [shellUp, List.any_cons, ← shellUp, up, Bool.or_true]

theorem gotThrough_of_shellUp (up : shellUp trace = true) : gotThrough trace = true := by
  obtain ⟨entry, member, shell⟩ := List.any_eq_true.mp up
  refine List.any_eq_true.mpr ⟨entry, member, ?_⟩
  unfold isShell at shell
  split at shell
  · rename_i same
    rw [same]
    rfl
  · cases shell

theorem ReadyAfterShell.cons (ready : ReadyAfterShell trace) (now : Marks d → shellUp trace = true) :
    ReadyAfterShell ((i, d) :: trace) := by
  intro later j d' earlier split marks
  cases later with
  | nil =>
      cases split
      exact now marks
  | cons entry later =>
      cases split
      exact ready later j d' earlier rfl marks

/-- If the marker is only written when a shell is up, and none is, no line of the log has it. -/
theorem log_plain {log : List (List UInt8)} (ready : ReadyAfterShell trace) (isLog : IsLog trace log)
    (down : shellUp trace = false) : ∀ line ∈ log, ¬ saysReady line := by
  intro line member marked
  rcases isLog line member with written | plain | up
  · obtain ⟨⟨j, d⟩, there, is⟩ := List.mem_filterMap.mp written
    obtain ⟨later, earlier, rfl⟩ := List.append_of_mem there
    have marks : Marks d := by
      unfold record at is
      split at is
      · rename_i fd bytes r same
        cases same
        split at is
        · cases is
          exact marked.trans (List.take_prefix _ bytes).isInfix
        · cases is
      · cases is
    have before := ready later j d earlier rfl marks
    have up : shellUp (later ++ (j, d) :: earlier) = true := by
      rw [shellUp, List.any_append, Bool.or_eq_true]
      exact .inr (shellUp_cons before)
    rw [down] at up
    cases up
  · exact plain marked
  · rw [down] at up
    cases up

/-! ## The runs in which the child comes first -/

/-- The invariant of a boot: only pid 1 is no child, and what was written after a shell was entered
was written when a shell was up. -/
structure Heard (pool : Pool calls (World Unit) Int) : Prop where
  children : ∀ i c, pool.procs i = some c → i ≠ 1 → isChild c.world.hist = true
  spoken : ∀ i c, pool.procs i = some c → spoke c.world.hist = true → shellUp pool.trace = true
  execs : gotThrough pool.trace = true → shellUp pool.trace = true
  after : ReadyAfterShell pool.trace

theorem heard_start : Heard start := by
  have only : ∀ i c, start.procs i = some c → i = 1 ∧ c = Zevory.boot CANDIDATES () := by
    intro i c is
    by_cases one : i = 1
    · subst one
      cases is
      exact ⟨rfl, rfl⟩
    · simp [start, one] at is
  refine ⟨?_, ?_, nofun, fun later i d earlier split => ?_⟩
  · intro i c is other
    exact absurd (only i c is).1 other
  · intro i c is said
    rw [(only i c is).2] at said
    cases said
  · cases later <;> cases split

variable {pool pool' : Pool calls (World Unit) Int}

/-- When a process is about to write after the first shell was entered, or to write the marker, a
shell is up; when it is about to call `execv`, one is up or the call is that of a shell. -/
theorem Heard.speaks (heard : Heard pool) (lets : letsChildFirst pool i = true)
    {c : Call} {k : c.Res → Pid1 Unit} {w : World Unit}
    (here : pool.procs i = some ⟨.call c k, w⟩) (discreet : Discreet c w) :
    (∀ fd bytes, c = .sys (.write fd bytes) → entered w.hist = true → shellUp pool.trace = true) ∧
      (∀ fd bytes, c = .sys (.write fd bytes) → saysReady bytes → shellUp pool.trace = true) ∧
      ∀ path argv, c = .sys (.execv path argv) →
        shellUp pool.trace = true ∨ isShell (.left c) = true := by
  rcases discreet with said | ⟨child, before, quiet⟩ | ⟨parent, call⟩
  · have up := heard.spoken i _ here said
    exact ⟨fun _ _ _ _ => up, fun _ _ _ _ => up, fun _ _ _ => .inl up⟩
  · refine ⟨?_, ?_, ?_⟩
    · rintro fd bytes rfl after
      rw [before] at after
      cases after
    · rintro fd bytes rfl marked
      exact absurd marked quiet
    · rintro path argv rfl
      obtain ⟨spec, candidate, rfl, rfl⟩ := quiet
      exact .inr (List.any_eq_true.mpr ⟨spec, candidate, by simp⟩)
  · have one : i = 1 := by
      by_contra other
      have child := heard.children i _ here other
      rw [parent] at child
      cases child
    subst one
    have first : ∀ fd bytes, c = .sys (.write fd bytes) → entered w.hist = true →
        shellUp pool.trace = true := by
      rintro fd bytes rfl after
      unfold letsChildFirst at lets
      rw [here] at lets
      have got : (!entered w.hist || gotThrough pool.trace) = true := lets
      rw [after] at got
      exact heard.execs got
    refine ⟨first, ?_, ?_⟩
    · rintro fd bytes rfl marked
      exact first fd bytes rfl (call.mp marked)
    · rintro path argv rfl
      exact call.elim

theorem Heard.step (heard : Heard pool) (lets : letsChildFirst pool i = true)
    (discreet : ∀ {c : Call} {k : c.Res → Pid1 Unit} {w : World Unit},
      pool.procs i = some ⟨.call c k, w⟩ → Discreet c w)
    (step : Pool.Step family pool i pool') : Heard pool' := by
  have known := fun {c : Call} {k : c.Res → Pid1 Unit} {w : World Unit}
    (here : pool.procs i = some ⟨.call c k, w⟩) => heard.speaks lets here (discreet here)
  have grown : shellUp pool.trace = true → shellUp pool'.trace = true := by
    intro up
    rcases step.trace with same | ⟨o, k, w, -, ⟨r, same⟩ | ⟨-, same⟩⟩
    · rw [same]
      exact up
    · rw [same]
      exact shellUp_cons up
    · rw [same]
      exact shellUp_cons up
  have spoken : ∀ {c : Call} {k : c.Res → Pid1 Unit} {w w' : World Unit} {r : c.Res},
      pool.procs i = some ⟨.call c k, w⟩ → Answers w c r w' → spoke w'.hist = true →
      shellUp pool'.trace = true := by
    intro c k w w' r here answer said
    rw [answer.hist, spoke, Bool.or_eq_true, Bool.and_eq_true] at said
    rcases said with ⟨writes, after⟩ | before
    · have write : ∃ fd bytes, c = .sys (.write fd bytes) := by
        unfold Event.writes at writes
        split at writes
        · rename_i same
          cases same
          exact ⟨_, _, rfl⟩
        · cases writes
      obtain ⟨fd, bytes, is⟩ := write
      exact grown ((known here).1 fd bytes is after)
    · exact grown (heard.spoken i _ here before)
  refine ⟨?_, ?_, ?_, ?_⟩
  · refine step.each heard.children (fun here => ?_) (fun here answer _ => ?_)
      fun here copies answer => ?_
    · have child := heard.children i _ here
      exact child
    · intro other
      have child := heard.children i _ here other
      rw [Answers.hist answer, isChild, List.any_cons, ← isChild, child, Bool.or_true]
    · rename_i o k r r' j w w'
      intro _
      have born : Event.born ⟨o, r', 0⟩ = true := by
        unfold family Copies at copies
        dsimp only at copies
        split at copies
        · exact decide_eq_true copies.2.1
        · exact copies.elim
      rw [Answers.hist answer, isChild, List.any_cons, born, Bool.true_or]
  · refine step.each (fun j c is said => grown (heard.spoken j c is said)) (fun here => ?_)
      (fun here answer _ => spoken here answer) fun here _ answer => spoken here answer
    have before := heard.spoken i _ here
    exact fun said => grown (before said)
  · intro got
    rcases step.trace with same | ⟨o, k, w, here, ⟨r, same⟩ | ⟨-, same⟩⟩
    · rw [same] at got
      exact grown (heard.execs got)
    · rw [same] at got
      exact grown (heard.execs got)
    · rw [same, gotThrough, List.any_cons, Bool.or_eq_true] at got
      rcases got with now | before
      · have exec : ∃ path argv, o = .sys (.execv path argv) := by
          unfold isExec at now
          split at now
          · rename_i same
            cases same
            exact ⟨_, _, rfl⟩
          · cases now
        obtain ⟨path, argv, is⟩ := exec
        rcases (known here).2.2 path argv is with up | shell
        · exact grown up
        · rw [same, shellUp, List.any_cons, shell, Bool.true_or]
      · exact grown (heard.execs before)
  · rcases step.trace with same | ⟨o, k, w, here, ⟨r, same⟩ | ⟨-, same⟩⟩
    · rw [same]
      exact heard.after
    · rw [same]
      refine heard.after.cons fun marks => ?_
      have write : ∃ fd bytes, o = .sys (.write fd bytes) ∧ saysReady bytes := by
        unfold Marks at marks
        split at marks
        · rename_i same
          cases same
          exact ⟨_, _, rfl, marks⟩
        · exact marks.elim
      obtain ⟨fd, bytes, is, marked⟩ := write
      exact (known here).2.1 fd bytes is marked
    · rw [same]
      exact heard.after.cons fun marks => marks.elim

/-- The next call of every process of a boot is discreet. -/
theorem discreet_everywhere {may : Pool calls (World Unit) Int → Int → Prop}
    (runs : Pool.Runs family may start pool) {c : Call} {k : c.Res → Pid1 Unit} {w : World Unit}
    (here : pool.procs i = some ⟨.call c k, w⟩) : Discreet c w := by
  have begun : ∀ i c, start.procs i = some c → Reaches family.sem (Zevory.boot CANDIDATES ()) c := by
    intro i c is
    by_cases one : i = 1
    · subst one
      cases is
      exact .refl
    · simp [start, one] at is
  have early : Early (Zevory.boot CANDIDATES ()).world := ⟨rfl, rfl, List.nil_subset _⟩
  exact Safe.guarded (main_is_discreet _ early) (runs.reaches begun i _ here)

theorem heard_everywhere (runs : Pool.Runs family (fun pool i => letsChildFirst pool i) start pool) :
    Heard pool := by
  induction runs with
  | refl => exact heard_start
  | tail before step ih =>
      obtain ⟨i, lets, step⟩ := step
      exact ih.step lets (fun here => discreet_everywhere before here) step

/-- The write of pid 1 that is held back until the child has got through its `execv` is that of the
marker. -/
theorem Heard.exact (heard : Heard pool) {fd : Int} {bytes : List UInt8}
    {k : Ret → Pid1 Unit} {w : World Unit} {r : Ret}
    (here : pool.procs 1 = some ⟨.call (.sys (.write fd bytes)) k, w⟩)
    (discreet : Discreet (.sys (.write fd bytes)) w) :
    letsChildFirst pool 1 = true ↔
      ReadyAfterShell ((1, .called (.sys (.write fd bytes)) r) :: pool.trace) := by
  have lets : letsChildFirst pool 1 = (!entered w.hist || gotThrough pool.trace) := by
    unfold letsChildFirst
    rw [here]
    rfl
  constructor
  · intro goes
    exact heard.after.cons fun marks => (heard.speaks goes here discreet).2.1 fd bytes rfl marks
  · intro ready
    rw [lets]
    cases after : entered w.hist with
    | false => rfl
    | true =>
        have up : shellUp pool.trace = true := by
          rcases discreet with said | ⟨-, before, -⟩ | ⟨-, call⟩
          · exact heard.spoken 1 _ here said
          · rw [after] at before
            cases before
          · exact ready [] 1 _ pool.trace rfl (call.mpr after)
        exact gotThrough_of_shellUp up

/-- **The ready marker means a shell, if the child comes first.**  In every boot in which pid 1
comes to write nothing between entering its first shell and a successful `execv` of the child,
the marker is only written when a shell is up, and `diagnose-boot.sh` passes only then.  A
write that does not wait for the child writes the marker without a shell. -/
theorem ready_means_a_shell
    (runs : Pool.Runs family (fun pool i => letsChildFirst pool i) start pool) :
    ReadyAfterShell pool.trace ∧
      (∀ log, IsLog pool.trace log → diagnoseBoot (some log) = 0 → shellUp pool.trace = true) ∧
      ∀ {fd bytes k w}, pool.procs 1 = some ⟨.call (.sys (.write fd bytes)) k, w⟩ →
        ∀ r, letsChildFirst pool 1 = true ↔
          ReadyAfterShell ((1, .called (.sys (.write fd bytes)) r) :: pool.trace) := by
  have heard := heard_everywhere runs
  refine ⟨heard.after, fun log isLog pass => ?_, fun here r => ?_⟩
  · obtain ⟨line, member, marked⟩ := marker_of_pass pass
    by_contra down
    exact log_plain heard.after isLog (Bool.eq_false_iff.mpr down) line member marked
  · exact heard.exact here (discreet_everywhere runs here)

/-! ## Two boots -/

/-- The result of a system call in a boot where every `execv` that returns finds no file. -/
def result (trace : Trace) (w : World Unit) : (s : Syscall) → Option s.Res
  | .execv _ _ => some ⟨-1, ⟨2, "No such file or directory"⟩⟩
  | .waitpid =>
      if w.mem.table.shells ≠ [] then some (⟨100, ⟨0, ""⟩⟩, 0x7f00)
      else some (⟨-1, ⟨ECHILD, "No child process"⟩⟩, 0)
  | .poll _ _ => some ⟨1, ⟨0, ""⟩⟩
  | .read _ => some (⟨Sys.SIGINFO_SIZE, ⟨0, ""⟩⟩, SIGCHLD)
  | .clockGettime => if trace.length < 2 ^ 63 then some trace.length else none
  | s => s.smooth

theorem smooth_fits {s : Syscall} {r : s.Res} (h : s.smooth = some r) :
    Fits s r ∧ Alone (.sys s) r := by
  have promised := Syscall.smooth_promised h
  have silent : Plain "" := by decide
  cases s <;> cases h <;>
    first
      | exact ⟨⟨promised, silent⟩, trivial⟩
      | exact ⟨⟨promised, trivial⟩, trivial⟩
      | exact ⟨⟨promised, nofun⟩, trivial⟩

theorem result_fits {trace : Trace} {w : World Unit} {s : Syscall} {r : s.Res}
    (h : result trace w s = some r) : Fits s r ∧ Alone (.sys s) r := by
  have silent : Plain "" := by decide
  cases s with
  | execv =>
      have notFound : Plain "No such file or directory" := by decide
      cases h
      exact ⟨⟨trivial, notFound⟩, trivial⟩
  | waitpid =>
      have noChild : Plain "No child process" := by decide
      simp only [result] at h
      split at h
      · cases h
        exact ⟨⟨trivial, silent⟩, trivial⟩
      · cases h
        exact ⟨⟨trivial, noChild⟩, trivial⟩
  | poll =>
      cases h
      exact ⟨⟨trivial, silent⟩, trivial⟩
  | read =>
      cases h
      exact ⟨⟨trivial, silent⟩, trivial⟩
  | clockGettime =>
      simp only [result] at h
      split at h
      · rename_i early
        cases h
        exact ⟨⟨early, trivial⟩, trivial⟩
      · cases h
  | _ => exact smooth_fits h

/-- The schedule in which the child always goes first, and in which its first `execv` succeeds or
not. -/
def childFirst (works : Bool) : Schedule family where
  who pool := if (pool.procs 100).isSome then 100 else 1
  turn pool w
    | .mem o => some (.answer (o.run 0 w.mem).1 (w.updated 0 o 0))
    | .sys .fork =>
        if (pool.procs 100).isNone then
          some (.copy ⟨100, ⟨0, ""⟩⟩ (w.called 0 .fork ⟨100, ⟨0, ""⟩⟩ ()) ⟨0, ⟨0, ""⟩⟩
            (w.called 0 .fork ⟨0, ⟨0, ""⟩⟩ ()) 100)
        else none
    | .sys (.exitChild _) => some .leave
    | .sys (.execv path argv) =>
        if works then some .leave
        else (result pool.trace w (.execv path argv)).map fun r =>
          .answer r (w.called 0 (.execv path argv) r ())
    | .sys s => (result pool.trace w s).map fun r => .answer r (w.called 0 s r ())
  fits {pool w c t} h := by
    have silent : Plain "" := by decide
    have plain : ∀ {s : Syscall} {t : Turn calls (World Unit) Int (.sys s)},
        (result pool.trace w s).map (fun r => .answer r (w.called 0 s r ())) = some t →
        t.Fits family pool w := by
      intro s t h
      obtain ⟨r, is, rfl⟩ := Option.map_eq_some_iff.mp h
      obtain ⟨fits, alone⟩ := result_fits is
      exact ⟨alone, .sys fits⟩
    cases c with
    | mem o =>
        cases h
        exact ⟨trivial, .mem⟩
    | sys s =>
        cases s with
        | fork =>
            simp only at h
            split at h
            · rename_i free
              cases h
              refine ⟨⟨by decide, rfl, rfl⟩, Option.isNone_iff_eq_none.mp free, ?_, ?_⟩
              · exact .sys ⟨.inr (.inr (by decide)), silent⟩
              · exact .sys ⟨.inr (.inl rfl), silent⟩
            · cases h
        | exitChild =>
            cases h
            trivial
        | execv =>
            simp only at h
            split at h
            · cases h
              trivial
            · exact plain h
        | _ => exact plain h

/-- Pid 1 is about to call `pause`. -/
def paused (pool : Pool calls (World Unit) Int) : Bool :=
  match pool.procs 1 with
  | some ⟨.call (.sys .pause) _, _⟩ => true
  | _ => false

/-- A boot in which no `execv` succeeds, up to the point where pid 1 has parked. -/
def deadBoot : Pool calls (World Unit) Int :=
  (childFirst false).run (fun _ _ => true) paused 4000 start

/-- A boot in which the first `execv` succeeds, up to the point where pid 1 waits for a signal. -/
def goodBoot : Pool calls (World Unit) Int :=
  (childFirst true).run letsChildFirst (fun pool => match pool.procs 1 with
    | some ⟨.call (.sys (.poll _ _)) _, _⟩ => true
    | _ => false) 1000 start

/-- The log of a boot, with the lines of the kernel that `diagnose-boot.sh` looks for. -/
def bootLog (trace : Trace) : List (List UInt8) :=
  [asBytes "Linux version 7.1.9", asBytes "Run /init as init process"] ++ trace.filterMap record

theorem bootLog_isLog (trace : Trace) : IsLog trace (bootLog trace) := by
  intro line member
  rcases List.mem_append.mp member with own | written
  · have plain : ∀ line ∈ [asBytes "Linux version 7.1.9", asBytes "Run /init as init process"],
        plainBytes line := by decide
    exact .inr (.inl (not_ready_of_plain (plain line own)))
  · exact .inl written

/-- In a boot in which no `execv` succeeds the marker is written, and `diagnose-boot.sh` exits 0
although no shell was ever up. -/
theorem ready_without_a_shell :
    ¬ ∀ pool, Pool.Runs family (fun _ _ => True) start pool →
      ReadyAfterShell pool.trace ∧
        ∀ log, IsLog pool.trace log → diagnoseBoot (some log) = 0 → shellUp pool.trace = true := by
  intro always
  have runs : Pool.Runs family (fun _ _ => True) start deadBoot :=
    Pool.Runs.mono (fun _ _ _ => trivial) ((childFirst false).runs _ _ _ _)
  have dead : paused deadBoot = true ∧ shellUp deadBoot.trace = false ∧
      diagnoseBoot (some (bootLog deadBoot.trace)) = 0 := by
    decide +kernel
  have up := (always deadBoot runs).2 _ (bootLog_isLog _) dead.2.2
  rw [dead.2.1] at up
  cases up

theorem ready_means_a_shell_in_a_good_boot :
    diagnoseBoot (some (bootLog goodBoot.trace)) = 0 ∧ shellUp goodBoot.trace = true := by
  have pass : diagnoseBoot (some (bootLog goodBoot.trace)) = 0 := by
    decide +kernel
  have runs : Pool.Runs family (fun pool i => letsChildFirst pool i) start goodBoot :=
    (childFirst true).runs _ _ _ _
  exact ⟨pass, (ready_means_a_shell runs).2.1 _ (bootLog_isLog _) pass⟩

end Boot

end Zevory
