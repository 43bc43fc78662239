import Zevory.Interaction.Pool
import Zevory.Interaction.Triple
import Zevory.Kernel
import Zevory.Plain

/-!
# A boot with its children

Pid 1 and the children it forks run side by side: a child goes on with a copy of the program
and the memory of its parent, in which `fork` has returned 0, until its `execv` succeeds or
it exits.  Every result is possible that fits its call, so a boot here may see any failure
of `execv` and any order of the steps of its processes.

`main_is_discreet` says what a process may call, by its own history: before pid 1 has written
something after entering its first shell in the table, only pid 1 says that it is ready, and
only a child makes an `execv`, of a candidate.
-/

namespace Zevory

open Interaction

namespace Boot

/-- What is promised about the result of a call, in pid 1 or in a child. -/
def Fits : (s : Syscall) → s.Res → Prop
  | .fork, r => (r.rc = -1 ∨ r.rc = 0 ∨ 1 < r.rc) ∧ Texts (.sys .fork) r
  | s, r => Promised (.sys s) r ∧ Texts (.sys s) r

/-- How a call of a process is answered. The memory of a process is its own, so that an operation on
it sees no other process. -/
inductive Answers : World Unit → (c : Call) → c.Res → World Unit → Prop
  | sys {w : World Unit} {s : Syscall} {r : s.Res} :
      Fits s r → Answers w (.sys s) r (w.called 0 s r ())
  | mem {w : World Unit} {o : MemOp} {now : ℕ} :
      Answers w (.mem o) (o.run now w.mem).1 (w.updated 0 o now)

def sem : Semantics calls (World Unit) where
  interfere _ _ := False
  answer := Answers

/-- The results that make no other process: for a `fork`, that it has failed. -/
def Alone : (c : Call) → c.Res → Prop
  | .sys .fork, r => r.rc = -1
  | _, _ => True

/-- A `fork` that returns a pid has made a process of that pid, in which it returns 0. -/
def Copies : (c : Call) → c.Res → c.Res → Int → Prop
  | .sys .fork, r, r', pid => 1 < r.rc ∧ r'.rc = 0 ∧ pid = r.rc
  | _, _, _, _ => False

/-- The calls that may take a process out of the pool, because they do not return. -/
def Leaves : Call → Prop
  | .sys (.execv _ _) => True
  | .sys (.exitChild _) => True
  | .sys (.processExit _) => True
  | .sys (.panic _) => True
  | _ => False

def family : Family calls (World Unit) Int where
  sem := sem
  alone := Alone
  copies := Copies
  leaves := Leaves

/-- The pool at the start of a boot: pid 1 at the start of `main`, and no other process. -/
def start : Pool calls (World Unit) Int where
  procs := Function.update (fun _ => none) 1 (some (Zevory.boot CANDIDATES ()))
  trace := []

end Boot

/-! ## The history of a process -/

namespace Event

/-- The event is a `fork` that has returned 0, as it does in the child. -/
def born : Event → Bool
  | ⟨.sys .fork, r, _⟩ => decide (Ret.rc r = 0)
  | _ => false

/-- The event enters a shell in the table. -/
def enters : Event → Bool
  | ⟨.mem (.track _ _ _), _, _⟩ => true
  | _ => false

def writes : Event → Bool
  | ⟨.sys (.write _ _), _, _⟩ => true
  | _ => false

end Event

/-- The history is that of a child; it continues the history of its parent. -/
def isChild (h : List Event) : Bool := h.any Event.born

/-- The first shell has been entered in the table. -/
def entered (h : List Event) : Bool := h.any Event.enters

/-- Something was written after the first shell was entered in the table. -/
def spoke : List Event → Bool
  | [] => false
  | e :: h => e.writes && entered h || spoke h

/-- The calls that the child may make on its way to the first shell: no write with the marker, and
an `execv` of a candidate only. -/
def ChildCall : Call → Prop
  | .sys (.execv path argv) => ∃ spec ∈ CANDIDATES, path = spec.path ∧ argv = spec.argv
  | .sys (.write _ bytes) => ¬ saysReady bytes
  | .sys .fork => False
  | .mem (.track _ _ _) => False
  | _ => True

/-- The calls that pid 1 may make until it has written something after entering its first shell: it
writes the marker exactly if the shell is entered. -/
def ParentCall (entered : Bool) : Call → Prop
  | .sys (.execv _ _) => False
  | .sys (.write _ bytes) => saysReady bytes ↔ entered = true
  | .sys .fork => entered = false
  | _ => True

/-- The calls a process of the boot may make, by whether it is a child and what pid 1 has done
before. -/
def Discreet (c : Call) (w : World Unit) : Prop :=
  spoke w.hist = true ∨ isChild w.hist = true ∧ entered w.hist = false ∧ ChildCall c ∨
    isChild w.hist = false ∧ ParentCall (entered w.hist) c

namespace Boot

theorem stable (P : World Unit → Prop) : Stable sem P := by
  rintro w w' _ ⟨⟩

theorem Answers.texts {w w' : World Unit} {c : Call} {r : c.Res} (answer : Answers w c r w') :
    Texts c r := by
  cases answer with
  | sys fits =>
      unfold Fits at fits
      split at fits
      · exact fits.2
      · exact fits.2
  | mem => unfold Texts; trivial

theorem Answers.hist {w w' : World Unit} {c : Call} {r : c.Res} (answer : Answers w c r w') :
    w'.hist = ⟨c, r, 0⟩ :: w.hist := by
  cases answer <;> rfl

/-- Pid 1 before its first shell: nothing is entered in the table, and every usable shell is a
candidate. -/
structure Early (w : World Unit) : Prop where
  parent : isChild w.hist = false
  before : entered w.hist = false
  usable : w.mem.rescue.usable ⊆ CANDIDATES

/-- The process is pid 1, and it has entered its first shell in the table. -/
structure Entered (w : World Unit) : Prop where
  parent : isChild w.hist = false
  after : entered w.hist = true

/-- The child on its way to the first shell. -/
structure Child (w : World Unit) : Prop where
  child : isChild w.hist = true
  before : entered w.hist = false

theorem born_of_modest {c : Call} {r : c.Res} {t : ℕ} (modest : Modest c) :
    Event.born ⟨c, r, t⟩ = false ∧ Event.enters ⟨c, r, t⟩ = false := by
  cases c with
  | sys s => cases s <;> first | exact ⟨rfl, rfl⟩ | exact modest.elim
  | mem o => cases o <;> first | exact ⟨rfl, rfl⟩ | exact modest.elim

theorem parent_of_modest {c : Call} (modest : Modest c) : ParentCall false c := by
  unfold Modest at modest
  unfold ParentCall
  split
  · exact modest
  · exact ⟨fun marked => absurd marked modest, nofun⟩
  · exact modest.elim
  · trivial

theorem parent_of_silent {c : Call} {entered : Bool} (silent : Silent c) : ParentCall entered c := by
  obtain ⟨modest, noWrite⟩ := silent
  unfold Modest at modest
  unfold ParentCall
  split
  · exact modest
  · exact absurd rfl (noWrite _ _)
  · exact modest.elim
  · trivial

variable {w w' : World Unit} {c : Call} {r : c.Res}

theorem hist_of_modest (modest : Modest c) (answer : Answers w c r w') :
    isChild w'.hist = isChild w.hist ∧ entered w'.hist = entered w.hist := by
  obtain ⟨born, enters⟩ := born_of_modest (r := r) (t := 0) modest
  rw [answer.hist, isChild, entered, List.any_cons, List.any_cons, born, enters]
  exact ⟨rfl, rfl⟩

/-- A modest call of pid 1 before its first shell leaves it there. -/
theorem Early.kept (early : Early w) (modest : Modest c) (answer : Answers w c r w') : Early w' := by
  obtain ⟨same, same'⟩ := hist_of_modest modest answer
  refine ⟨same.trans early.parent, same'.trans early.before, ?_⟩
  have usable := early.usable
  cases answer with
  | sys => exact usable
  | @mem o now =>
      cases o with
      | rescueNew rescue => exact modest
      | failed =>
          have same : w.mem.rescue.failed.2.usable = w.mem.rescue.usable := by
            unfold Rescue.failed
            dsimp only
            split
            · rfl
            · split <;> rfl
          change w.mem.rescue.failed.2.usable ⊆ CANDIDATES
          rw [same]
          exact usable
      | _ => exact usable

theorem modest_early {α : Type} {p : Pid1 α} {Q : α → Prop} (modest : Only Modest Texts p Q) :
    Triple sem Discreet Early p fun a w => Q a ∧ Early w :=
  Only.triple (stable _)
    (fun _ _ modest early => .inr (.inr ⟨early.parent, early.before ▸ parent_of_modest modest⟩))
    (fun _ _ _ _ modest early answer => ⟨answer.texts, early.kept modest answer⟩) modest

theorem silent_entered {α : Type} {p : Pid1 α} {Q : α → Prop} (silent : Only Silent Texts p Q) :
    Triple sem Discreet Entered p fun _ => Entered :=
  Triple.post (Only.triple (stable _)
    (fun _ _ silent entered => .inr (.inr ⟨entered.parent, parent_of_silent silent⟩))
    (fun _ _ _ _ silent entered answer => by
      obtain ⟨same, same'⟩ := hist_of_modest silent.1 answer
      exact ⟨answer.texts, same.trans entered.parent, same'.trans entered.after⟩) silent)
    fun _ _ h => h.2

/-- After pid 1 has written something with the shell entered, every call is discreet. -/
theorem all_spoke {α : Type} {p : Pid1 α} :
    Triple sem Discreet (fun w => spoke w.hist = true) p fun _ w => spoke w.hist = true :=
  Triple.post (Only.triple (R := fun _ _ => True) (stable _) (fun _ _ _ said => .inl said)
    (fun _ _ _ _ _ said answer => by
      rw [answer.hist, spoke, said, Bool.or_true]
      exact ⟨trivial, rfl⟩) Only.all) fun _ _ h => h.2

/-! ## The child -/

theorem cstr_ok {s t : String} (passed : Sys.cstr s = .ok t) : t = s := by
  unfold Sys.cstr at passed
  split at passed
  · cases passed
  · cases passed
    rfl

theorem cstrs_ok {args argv : List String} (passed : Sys.cstrs args = .ok argv) : argv = args := by
  induction args generalizing argv with
  | nil =>
      cases passed
      rfl
  | cons a rest ih =>
      cases first : Sys.cstr a with
      | error => simp [Sys.cstrs, first, bind, Except.bind] at passed
      | ok a' =>
          cases others : Sys.cstrs rest with
          | error => simp [Sys.cstrs, first, others, bind, Except.bind] at passed
          | ok rest' =>
              simp only [Sys.cstrs, first, others, bind, Except.bind, pure, Except.pure,
                Except.ok.injEq] at passed
              rw [← passed, cstr_ok first, ih others]

theorem cstrs_plain (args : List String) : PlainError (Sys.cstrs args) := by
  induction args with
  | nil => exact nofun
  | cons a rest ih =>
      intro e failed
      cases first : Sys.cstr a with
      | error e' =>
          simp only [Sys.cstrs, first, bind, Except.bind, Except.error.injEq] at failed
          exact failed ▸ plainError_cstr a e' first
      | ok a' =>
          cases others : Sys.cstrs rest with
          | error e' =>
              simp only [Sys.cstrs, first, others, bind, Except.bind, Except.error.injEq] at failed
              exact failed ▸ ih e' others
          | ok rest' =>
              simp [Sys.cstrs, first, others, bind, Except.bind, pure, Except.pure] at failed

theorem exec_only {spec : Spec} (candidate : spec ∈ CANDIDATES) :
    Only ChildCall Texts (Sys.exec spec.path spec.argv) fun e => Plain (toString e) := by
  simp only [Sys.exec, Prog.bind_eq, Prog.pure_eq]
  split
  · exact Only.ret (show Plain (toString (IoError.invalidInput "nul byte in path")) by decide)
  · rename_i cpath path
    split
    · rename_i e failed
      exact Only.ret (cstrs_plain _ e failed)
    · rename_i argv args
      refine Only.bind (T := fun r : Ret => Plain r.errno.text) (Only.perform ?_ fun _ given => given)
        fun r plain => Only.ret (plain_os plain)
      exact ⟨spec, candidate, cstr_ok path, cstrs_ok args⟩

theorem plain_path : ∀ spec ∈ CANDIDATES, Plain spec.path := by
  decide

theorem child_of_modest {c : Call} (modest : Modest c) : ChildCall c := by
  unfold Modest at modest
  unfold ChildCall
  split
  · exact modest.elim
  · exact modest
  · exact modest.elim
  · exact modest.elim
  · trivial

/-- The child of a candidate never writes the marker, and does not return. -/
theorem childMain_only {α : Type} {spec : Spec} (candidate : spec ∈ CANDIDATES) :
    Only ChildCall Texts (Proc.childMain spec : Pid1 α) fun _ => False := by
  simp only [Proc.childMain, Sys.unblockAllSignals, Sys.newSession, Sys.setCtty, Sys.exitChild,
    Prog.bind_eq, Prog.pure_eq]
  have ignored : ∀ {s : Syscall} {β : Type} {f : s.Res → β}, ChildCall (.sys s) →
      Only ChildCall Texts ((sys s).bind fun r => .ret (f r)) fun _ => True := fun quiet =>
    Only.bind (T := fun _ => True) (Only.perform quiet fun _ _ => trivial) fun _ _ => Only.ret trivial
  have rest : ∀ never : Empty → Pid1 α, Only ChildCall Texts
      ((Sys.exec spec.path spec.argv).bind fun failure =>
        (Log.error s!"could not exec {spec.path}: {failure}").bind fun _ =>
          (sys (.exitChild 127)).bind never) fun _ => False := by
    intro never
    refine Only.bind (exec_only candidate) fun failure plain => ?_
    have line : Plain s!"could not exec {spec.path}: {failure}" :=
      (((show Plain "could not exec " by decide).append (plain_path spec candidate)).append
        (show Plain ": " by decide)).append plain
    refine Only.bind ((emit_modest line).subset fun _ => child_of_modest) fun _ _ => ?_
    exact ⟨trivial, fun gone => gone.elim⟩
  refine Only.bind (T := fun _ => True) (ignored (by trivial)) fun _ _ => ?_
  split
  · refine Only.bind (T := fun _ => True) (ignored (by trivial)) fun _ _ => ?_
    exact Only.bind (T := fun _ => True) (ignored (by trivial)) fun _ _ => rest _
  · exact rest _

theorem childMain_discreet {α : Type} {spec : Spec} (candidate : spec ∈ CANDIDATES)
    {Q : α → World Unit → Prop} : Triple sem Discreet Child (Proc.childMain spec) Q :=
  Triple.post (Only.triple (stable _)
    (fun _ _ quiet child => .inr (.inl ⟨child.child, child.before, quiet⟩))
    (fun c r w w' quiet child answer => by
      have enters : Event.enters ⟨c, r, 0⟩ = false := by
        cases c with
        | sys => rfl
        | mem o => cases o <;> first | rfl | exact quiet.elim
      refine ⟨answer.texts, ?_, ?_⟩
      · rw [answer.hist, isChild, List.any_cons, Bool.or_eq_true]
        exact .inr child.child
      · rw [answer.hist, entered, List.any_cons, enters]
        exact child.before) (childMain_only candidate)) fun _ _ h => h.1.elim

/-! ## Pid 1 -/

/-- The rule for a program that has returned. -/
theorem done {α : Type} {P : World Unit → Prop} {a : α} {Q : α → World Unit → Prop}
    (h : ∀ w, P w → Q a w) : Triple sem Discreet P (.ret a) Q :=
  Triple.pre (Triple.ret (stable _)) h

/-- A modest program that does not return is discreet before the first shell. -/
theorem modest_never {α : Type} {p : Pid1 α} {Q : α → World Unit → Prop}
    (modest : Only Modest Texts p fun _ => False) : Triple sem Discreet Early p Q :=
  Triple.post (modest_early modest) fun _ _ h => h.1.elim

theorem rescueShell_discreet :
    Triple sem Discreet Early rescueShell fun spec w => spec ∈ CANDIDATES ∧ Early w := by
  simp only [rescueShell, Prog.bind_eq, Prog.pure_eq]
  refine Triple.bind
    (R := fun found w => (∀ spec, found = some spec → spec ∈ CANDIDATES) ∧ Early w)
    (Triple.perform (stable _) (fun _ early => .inr (.inr ⟨early.parent, trivial⟩))
      (fun w found w' early answer => ⟨?_, early.kept (by trivial) answer⟩) fun _ => stable _)
    fun found => ?_
  · cases answer with
    | mem => exact fun spec is => early.usable (List.mem_of_getElem? is)
  · cases found with
    | none => exact Triple.pre (modest_never ⟨trivial, nofun⟩) fun _ h => h.2
    | some spec => exact done fun w h => ⟨h.1 spec rfl, h.2⟩

/-- A `fork` of pid 1 before its first shell leads to a child in one process, and leaves pid 1
before its first shell in the other. -/
theorem fork_discreet :
    Triple sem Discreet Early Sys.fork fun forked w =>
      match forked with
      | .error e => Plain (toString e) ∧ Early w
      | .ok .child => Child w
      | .ok (.parent _) => Early w := by
  simp only [Sys.fork, Prog.bind_eq, Prog.pure_eq]
  refine Triple.bind
    (R := fun (r : Ret) w => Plain r.errno.text ∧ (r.rc = 0 → Child w) ∧ (r.rc ≠ 0 → Early w))
    (Triple.perform (stable _) (fun _ early => .inr (.inr ⟨early.parent, early.before⟩))
      (fun w r w' early answer => ?_) fun _ => stable _) fun r => ?_
  · have born : isChild w'.hist = decide (r.rc = 0) := by
      rw [answer.hist, isChild, List.any_cons, ← isChild, early.parent, Bool.or_false]
      rfl
    have before : entered w'.hist = false := by
      rw [answer.hist, entered, List.any_cons, ← entered, early.before]
      rfl
    refine ⟨answer.texts, fun zero => ⟨?_, before⟩, fun other => ⟨?_, before, ?_⟩⟩
    · exact born.trans (decide_eq_true zero)
    · exact born.trans (decide_eq_false other)
    · cases answer with
      | sys => exact early.usable
  · by_cases failed : r.rc = -1
    · rw [if_pos failed]
      have parent : r.rc ≠ 0 := by omega
      exact done fun w h => ⟨plain_os h.1, h.2.2 parent⟩
    · rw [if_neg failed]
      by_cases zero : r.rc = 0
      · rw [if_pos zero]
        exact done fun w h => h.2.1 zero
      · rw [if_neg zero]
        exact done fun w h => h.2.2 zero

theorem spawn_discreet {spec : Spec} (candidate : spec ∈ CANDIDATES) :
    Triple sem Discreet Early (Table.spawn spec) fun spawned w =>
      match spawned with
      | .error e => Plain (toString e) ∧ Early w
      | .ok _ => Entered w := by
  simp only [Table.spawn, Proc.spawn, Prog.bind_eq, Prog.bind_assoc, Prog.pure_eq]
  refine Triple.bind fork_discreet fun forked => ?_
  obtain e | pid | _ := forked
  · exact done fun _ h => h
  · simp only [Prog.ret_bind]
    refine Triple.bind (R := fun _ => Entered) (Triple.perform (stable _)
      (fun _ early => .inr (.inr ⟨early.parent, trivial⟩)) (fun w r w' early answer => ?_)
      fun _ => stable _) fun _ => done fun _ h => h
    refine ⟨?_, ?_⟩
    · rw [answer.hist, isChild, List.any_cons, ← isChild, early.parent]
      rfl
    · rw [answer.hist]
      rfl
  · exact Triple.bind (R := fun _ _ => False) (childMain_discreet candidate)
      fun _ _ never => never.elim

theorem startShell_discreet : Triple sem Discreet Early startShell fun _ => Entered := by
  simp only [startShell, Prog.bind_eq, Prog.pure_eq]
  refine Triple.bind rescueShell_discreet fun spec w h => ?_
  refine Triple.bind (spawn_discreet h.1) (fun spawned => ?_) w h.2
  cases spawned with
  | ok => exact done fun _ h => h
  | error e =>
      intro w h
      refine Triple.bind rescueShell_discreet (fun shell w' there => ?_) w h.2
      have why : Plain s!"cannot start {shell.path} ({e})" :=
        ((((show Plain "cannot start " by decide).append (plain_path shell there.1)).append
          (show Plain " (" by decide)).append h.1).append (show Plain ")" by decide)
      exact modest_never (park_modest why) w' there.2

/-- The write of the ready line is something written after the shell was entered. -/
theorem writeFd_discreet {fd : Int} {bytes : List UInt8} (marked : saysReady bytes) :
    Triple sem Discreet (fun w => spoke w.hist = true ∨ Entered w) (Sys.writeFd fd bytes) fun _ w =>
      spoke w.hist = true := by
  refine Triple.pre (Triple.iterate (fun done w => spoke w.hist = true ∨ done = 0 ∧ Entered w)
    (fun _ => stable _) (fun _ => stable _) fun written => ?_) fun w h => h.imp_right fun e => ⟨rfl, e⟩
  have some_ : bytes ≠ [] := by
    rintro rfl
    exact absurd (List.infix_nil.mp marked) (by decide)
  simp only [Sys.writeRound, Prog.bind_eq, Prog.pure_eq]
  split
  · rename_i more
    rw [if_pos (Nat.le_of_lt more)]
    refine Triple.bind (R := fun _ w => spoke w.hist = true) (Triple.perform (stable _)
      (fun w h => ?_) (fun w r w' h answer => ?_) fun _ => stable _) fun n => ?_
    · rcases h with said | ⟨rfl, entered⟩
      · exact .inl said
      · exact .inr (.inr ⟨entered.parent, fun _ => entered.after, fun _ => marked⟩)
    · rw [answer.hist, spoke, Bool.or_eq_true]
      rcases h with said | ⟨-, entered⟩
      · exact .inr said
      · exact .inl entered.after
    · split
      · exact done fun _ said => said
      · exact done fun _ said => .inl said
  · rename_i ended
    refine done fun w h => ?_
    rcases h with said | ⟨rfl, -⟩
    · exact said
    · exact absurd (List.length_pos_iff.mpr some_) ended

theorem info_discreet {msg : String} (line : saysReady (asBytes (Log.lineFor .info msg)))
    (stderrLine : saysReady (asBytes (Log.stderrLine msg))) :
    Triple sem Discreet Entered (Log.info msg) fun _ w => spoke w.hist = true := by
  simp only [Log.info, Log.emit, Log.writeToKmsg, Prog.bind_eq, Prog.pure_eq]
  refine Triple.bind (R := fun sent w => spoke w.hist = true ∨ sent = false ∧ Entered w) ?_
    fun sent => ?_
  · refine Triple.bind (silent_entered kmsg_silent) fun fd => ?_
    split
    · exact done fun w entered => .inr ⟨rfl, entered⟩
    · exact Triple.conseq (writeFd_discreet line) (fun _ entered => .inr entered)
        fun _ _ said => .inl said
  · cases sent with
    | true => exact done fun w h => h.elim id fun never => Bool.noConfusion never.1
    | false =>
        refine Triple.bind (Triple.pre (writeFd_discreet stderrLine) fun w h => ?_)
          fun _ => done fun _ said => said
        exact h.imp_right fun entered => entered.2

/-- Every process of a boot, pid 1 or a child, makes discreet calls only. -/
theorem main_is_discreet : Triple sem Discreet Early main fun _ _ => True := by
  have refuse : ∀ pid, Only Modest Texts (refuseToRun pid) fun _ => True := by
    intro pid
    simp only [refuseToRun, Prog.bind_eq]
    exact ⟨trivial, fun _ _ => ⟨trivial, fun _ _ => ⟨trivial, nofun⟩⟩⟩
  simp only [main, mainWith, run, Prog.bind_eq]
  refine Triple.bind (modest_early (Only.perform (by trivial) (fun _ _ => trivial))) fun pid => ?_
  split
  · exact Triple.conseq (modest_early (refuse pid)) (fun _ h => h.2) fun _ _ _ => trivial
  · refine Triple.bind (Triple.pre (modest_early bringUp_modest) fun _ h => h.2) fun signals => ?_
    refine Triple.bind (Triple.pre (modest_early newRescue_modest) fun _ h => h.2) fun _ => ?_
    refine Triple.bind (Triple.pre (modest_early (Only.perform (by trivial) fun _ _ => trivial))
      fun _ h => h.2) fun _ => ?_
    refine Triple.bind (Triple.pre startShell_discreet fun _ h => h.2) fun _ => ?_
    have line : saysReady (asBytes (Log.lineFor .info READY_MARKER)) := by
      unfold saysReady
      decide
    have stderrLine : saysReady (asBytes (Log.stderrLine READY_MARKER)) := by
      unfold saysReady
      decide
    refine Triple.bind (info_discreet line stderrLine) fun _ => ?_
    exact Triple.post all_spoke fun _ _ _ => trivial

end Boot

end Zevory
