import Zevory.Brief
import Zevory.Queues

/-!
# The harvest

What `reap_all` makes of the children that `waitpid` hands over.  The kernel here hands over
a given list of them, orphans and shells in any order, and then says that there is nothing
more to reap; nothing else that pid 1 calls tells it anything.  Which shells are gone, and
the shortest of their lives, are said of the list as a whole.
-/

namespace Zevory

open Interaction Signal

/-- A child that `waitpid` hands over, and the reading of the clock when its exit is recorded. -/
structure ReapedChild where
  pid : Int
  status : Status
  now : ℕ
  positive : 0 < pid
  deriving DecidableEq

/-- The children that are still to be handed over, whether any are left after the last of them, and
the clock. -/
structure Handing where
  children : List ReapedChild
  childrenLeft : Bool
  reading : ℕ
  deriving DecidableEq

/-- `waitpid` hands over the next child, or says that there is none. -/
def Handing.waitpid (k : Handing) (r : Ret × Status) (k' : Handing) : Prop :=
  match k.children with
  | child :: rest =>
      r.1.rc = child.pid ∧ r.2 = child.status ∧ k' = ⟨rest, k.childrenLeft, child.now⟩
  | [] => Sys.reapedOf r = (if k.childrenLeft then .stillRunning else .noChildrenLeft) ∧ k' = k

def Handing.answer (k : Handing) : (s : Syscall) → s.Res → Handing → Prop
  | .waitpid, r, k' => k.waitpid r k'
  | s, r, k' => Promised (.sys s) r ∧ k' = k

def handing : Kernel Handing where
  others _ _ := False
  answer := Handing.answer
  reads k now := now = k.reading
  time _ := 0
  promised {k s r k'} h := by
    cases s with
    | waitpid => trivial
    | _ => exact h.1

/-! ## What is left, and the shortest life -/

/-- The running entries of the table whose pid is not among those of the children. -/
def Table.without (t : Table) (children : List ReapedChild) : Table :=
  ⟨t.live.filter fun e => !(children.map ReapedChild.pid).contains e.pid⟩

/-- How long each reaped entry has lived, up to the first child with its pid. -/
def livesOf (children : List ReapedChild) (es : List Entry) : List ℕ :=
  es.filterMap fun e =>
    (Keyed.first? ReapedChild.pid e.pid children).map fun child => child.now - e.startedAt

/-- What `reap_all` returns on the table `t` when these children are handed over. -/
def Table.harvest (t : Table) (children : List ReapedChild) (childrenLeft : Bool) : Harvest :=
  ⟨(livesOf children t.live).min?, childrenLeft⟩

theorem Table.shells_live (t : Table) : t.shells = t.live.map Entry.pid := rfl

section Children

variable {child : ReapedChild} {children : List ReapedChild} {es : List Entry}

theorem livesOf_others (others : ∀ e ∈ es, e.pid ≠ child.pid) :
    livesOf (child :: children) es = livesOf children es := by
  apply List.filterMap_congr
  intro e member
  have other : ¬ (child.pid == e.pid) = true := by simpa using (others e member).symm
  simp only [Keyed.first?]
  rw [List.find?_cons_of_neg (a := child) other]

/-- The lives with one child more: the running entry of its pid ends with it, if there is one, and
all others as before. -/
theorem livesOf_cons (child : ReapedChild) (children : List ReapedChild)
    (distinct : (es.map Entry.pid).Nodup) :
    (livesOf (child :: children) es).Perm
      ((Keyed.first? Entry.pid child.pid es).toList.map (fun e => child.now - e.startedAt) ++
        livesOf children (Keyed.pop Entry.pid child.pid es)) := by
  cases found : Keyed.first? Entry.pid child.pid es with
  | none =>
      rw [Keyed.pop_of_none found, livesOf_others]
      · exact .refl _
      · intro e member
        simpa using List.find?_eq_none.mp found e member
  | some e =>
      have ofPid : e.pid = child.pid := Keyed.key_of_first? found
      have perm := Keyed.perm_pop found
      have apart : ∀ e' ∈ Keyed.pop Entry.pid child.pid es, e'.pid ≠ child.pid := by
        have nodup := (perm.map Entry.pid).nodup_iff.mp distinct
        rw [List.map_cons, List.nodup_cons, ofPid] at nodup
        intro e' member same
        exact nodup.1 (List.mem_map.mpr ⟨e', member, same⟩)
      refine (perm.filterMap _).trans ?_
      have life : ((Keyed.first? ReapedChild.pid e.pid (child :: children)).map
          fun child => child.now - e.startedAt) = some (child.now - e.startedAt) := by
        rw [Keyed.first?, List.find?_cons_of_pos (by simpa using ofPid.symm)]
        rfl
      rw [List.filterMap_cons]
      simp only [life]
      exact (List.Perm.of_eq (livesOf_others apart)).cons _

/-- The entries that are left after one child more: the one it ends is taken out first. -/
theorem without_cons (child : ReapedChild) (distinct : (es.map Entry.pid).Nodup) :
    (es.filter fun e => !((child :: children).map ReapedChild.pid).contains e.pid) =
      (Keyed.pop Entry.pid child.pid es).filter
        fun e => !(children.map ReapedChild.pid).contains e.pid := by
  rw [Keyed.pop_of_nodup distinct, List.filter_filter]
  apply List.filter_congr
  intro e _
  rw [List.map_cons, List.contains_cons, Bool.not_or, Bool.and_comm, bne]

end Children

theorem least_of_perm {xs ys : List ℕ} (perm : xs.Perm ys) : xs.min? = ys.min? := by
  cases least : ys.min? with
  | none =>
      rw [List.min?_eq_none_iff] at least ⊢
      rw [least] at perm
      exact perm.eq_nil
  | some least' =>
      obtain ⟨member, lower⟩ := List.min?_eq_some_iff.mp least
      exact List.min?_eq_some_iff.mpr
        ⟨perm.mem_iff.mpr member, fun x inside => lower x (perm.mem_iff.mp inside)⟩

theorem least_of_shorter (shortestLife : Option ℕ) (ranFor : ℕ) (lives : List ℕ) :
    (shortestLife.toList ++ ranFor :: lives).min? =
      (shorter shortestLife ranFor :: lives).min? := by
  cases shortestLife <;> rfl

/-- The shortest life after one child more, which may be an orphan. -/
def credited (shortestLife : Option ℕ) : Option Departed → Option ℕ
  | none => shortestLife
  | some gone => some (shorter shortestLife gone.ranFor)

/-- The least life of the children so far and of those to come does not depend on whether the next
child was credited already. -/
theorem least_credited {t : Table} (distinct : t.shells.Nodup) (shortestLife : Option ℕ)
    (child : ReapedChild) (children : List ReapedChild) :
    ((credited shortestLife (t.recordExit child.pid child.status child.now).1).toList ++
        livesOf children (t.recordExit child.pid child.status child.now).2.live).min? =
      (shortestLife.toList ++ livesOf (child :: children) t.live).min? := by
  obtain ⟨gone, live⟩ := t.recordExit_live child.pid child.status child.now
  have perm := livesOf_cons child children (show (t.live.map Entry.pid).Nodup from distinct)
  rw [gone, live, least_of_perm (perm.append_left _)]
  cases Keyed.first? Entry.pid child.pid t.live with
  | none => rfl
  | some e => exact (least_of_shorter shortestLife _ _).symm

/-! ## An execution of `reap_all` -/

theorem handing_alone : ∀ w w' : World Handing, ¬ handing.semantics.interfere w w' :=
  Kernel.alone fun _ _ impossible => impossible

/-- The calls of the log leave the children that are still to come as they are. -/
theorem log_spares_children {k k' : Handing} {s : Syscall} {r : s.Res} (log : (Call.sys s).isLog)
    (answer : handing.answer k s r k') : k' = k := by
  cases s with
  | openPath | write => exact answer.2
  | _ => cases log

section Followed

variable {α : Type} {c₀ : Config calls (World Handing) α} {e : Execution handing.semantics c₀}
  {n : ℕ} {w : World Handing} {f : Harvest → Pid1 α} {shortestLife : Option ℕ}

/-- A `waitpid` is answered with the next child, or with what is said after the last of them. -/
theorem waits {f : Ret × Status → Pid1 α} (here : e.conf n = ⟨(sys .waitpid).bind f, w⟩) :
    ∃ r kern t, w.kern.waitpid r kern ∧ e.conf (n + 1) = ⟨f r, w.called t .waitpid r kern⟩ := by
  obtain ⟨r, w', -, answer, there⟩ := Execution.call_alone handing_alone
    (S := calls) (o := Call.sys .waitpid) ⟨(⟨0, ⟨0, ""⟩⟩, 0)⟩ here
  cases answer with
  | sys answer => exact ⟨r, _, _, answer, there⟩

/-- `record_exit` is run on the table with the clock reading of the child that was handed over last.
-/
theorem records {pid : Int} {status : Status} {f : Option Departed → Pid1 α}
    (here : e.conf n = ⟨(mem (.recordExit pid status)).bind f, w⟩) :
    ∃ w', e.conf (n + 1) = ⟨f (w.mem.table.recordExit pid status w.kern.reading).1, w'⟩ ∧
      w'.kern = w.kern ∧
      w'.mem.table = (w.mem.table.recordExit pid status w.kern.reading).2 := by
  obtain ⟨gone?, w', -, answer, there⟩ := Execution.call_alone handing_alone
    (S := calls) (o := Call.mem (.recordExit pid status)) ⟨(none : Option Departed)⟩ here
  cases answer with
  | mem reads =>
      subst reads
      exact ⟨_, there, rfl, rfl⟩

/-- A program that only logs changes neither the table nor the children that are still to come. -/
theorem logged {p : Pid1 Unit} (logs : OnlyLogs Promised p) {f : Unit → Pid1 α}
    (here : e.conf n = ⟨p.bind f, w⟩) :
    ∃ m w', e.conf m = ⟨f (), w'⟩ ∧ w'.kern = w.kern ∧ w'.mem.table = w.mem.table := by
  obtain ⟨m, ⟨⟩, w', there, same⟩ := logs.passes handing_alone log_spares_children here
  exact ⟨m, w', there, same⟩

/-- When no child is left to come, the loop of `reap_all` ends in this round. -/
theorem reaped_last (last : w.kern.children = [])
    (here : e.conf n = ⟨.loop reapRound shortestLife f, w⟩) :
    ∃ m w', e.conf m = ⟨f ⟨shortestLife, w.kern.childrenLeft⟩, w'⟩ ∧ w'.kern = w.kern ∧
      w'.mem.table = w.mem.table := by
  obtain ⟨-, asks⟩ := Execution.loop_alone handing_alone here
  simp only [reapRound, Sys.reapOne, Prog.bind_eq, Prog.bind_assoc, Prog.pure_eq,
    Prog.ret_bind] at asks
  obtain ⟨r, kern, t, answer, next⟩ := waits asks
  rw [Handing.waitpid, last] at answer
  obtain ⟨nothing, rfl⟩ := answer
  cases left : w.kern.childrenLeft with
  | true =>
      rw [left, if_pos rfl] at nothing
      rw [nothing] at next
      exact ⟨_, _, next, rfl, rfl⟩
  | false =>
      rw [left, if_neg (by decide)] at nothing
      rw [nothing] at next
      exact ⟨_, _, next, rfl, rfl⟩

/-- When a child is handed over, the loop goes round once more with that child credited. -/
theorem reaped_next {child : ReapedChild} {rest : List ReapedChild}
    (first : w.kern.children = child :: rest)
    (here : e.conf n = ⟨.loop reapRound shortestLife f, w⟩) :
    ∃ m w', e.conf m = ⟨.loop reapRound
        (credited shortestLife (w.mem.table.recordExit child.pid child.status child.now).1) f, w'⟩ ∧
      w'.kern = ⟨rest, w.kern.childrenLeft, child.now⟩ ∧
      w'.mem.table = (w.mem.table.recordExit child.pid child.status child.now).2 := by
  obtain ⟨-, asks⟩ := Execution.loop_alone handing_alone here
  simp only [reapRound, Sys.reapOne, Prog.bind_eq, Prog.bind_assoc, Prog.pure_eq,
    Prog.ret_bind] at asks
  obtain ⟨r, kern, t, answer, credits⟩ := waits asks
  rw [Handing.waitpid, first] at answer
  obtain ⟨pid, status, rfl⟩ := answer
  have reaped : Sys.reapedOf r = .child child.pid child.status := by
    rw [Sys.reapedOf, pid, if_pos child.positive, status]
  simp only [reaped, Prog.bind_assoc] at credits
  obtain ⟨w₁, logs, kern, table⟩ := records credits
  rw [show (w.called t .waitpid r ⟨rest, w.kern.childrenLeft, child.now⟩).mem = w.mem from rfl,
    show (w.called t .waitpid r ⟨rest, w.kern.childrenLeft, child.now⟩).kern.reading = child.now
      from rfl] at logs table
  cases gone : (w.mem.table.recordExit child.pid child.status child.now).1 with
  | none =>
      simp only [gone, Prog.bind_assoc] at logs
      obtain ⟨m, w', there, kern', table'⟩ := logged emit_logs logs
      exact ⟨m, w', there, kern'.trans kern, table'.trans table⟩
  | some gone' =>
      simp only [gone, Prog.bind_assoc] at logs
      obtain ⟨m, w', there, kern', table'⟩ := logged logDeparted_logs logs
      exact ⟨m, w', there, kern'.trans kern, table'.trans table⟩

/-- The loop of `reap_all` to its end, by induction on the children that are still to come. -/
theorem reaping {children : List ReapedChild} (coming : w.kern.children = children)
    (distinct : w.mem.table.shells.Nodup)
    (here : e.conf n = ⟨.loop reapRound shortestLife f, w⟩) :
    ∃ m w', e.conf m = ⟨f ⟨(shortestLife.toList ++ livesOf children w.mem.table.live).min?,
        w.kern.childrenLeft⟩, w'⟩ ∧
      w'.kern.children = [] ∧ w'.mem.table.live = (w.mem.table.without children).entries := by
  induction children generalizing n w shortestLife with
  | nil =>
      obtain ⟨m, w', there, kern, table⟩ := reaped_last coming here
      have noLives : livesOf [] w.mem.table.live = [] := by
        apply List.filterMap_eq_nil_iff.mpr
        intro e _
        rfl
      refine ⟨m, w', ?_, by rw [kern, coming], ?_⟩
      · rw [noLives, List.append_nil, there]
        cases shortestLife <;> rfl
      · rw [table]
        exact (List.filter_eq_self.mpr fun e _ => rfl).symm
  | cons child rest ih =>
      obtain ⟨m, w₁, round, kern, table⟩ := reaped_next coming here
      obtain ⟨-, live⟩ := w.mem.table.recordExit_live child.pid child.status child.now
      have distinct' : w₁.mem.table.shells.Nodup := by
        rw [Table.shells_live, table, live]
        exact (List.eraseP_sublist.map Entry.pid).nodup distinct
      obtain ⟨m', w', there, allIn, left⟩ := ih (by rw [kern]) distinct' round
      refine ⟨m', w', ?_, allIn, ?_⟩
      · rw [there, table, kern, least_credited distinct]
      · rw [left, Table.without, table, live]
        exact (without_cons child (show (w.mem.table.live.map Entry.pid).Nodup from distinct)).symm

/-- `reap_all` returns the harvest of the children that are handed over, and leaves the entries that
are not theirs. -/
theorem reapAll_harvests (distinct : w.mem.table.shells.Nodup)
    (here : e.conf n = ⟨reapAll.bind f, w⟩) :
    ∃ m w', e.conf m = ⟨f (w.mem.table.harvest w.kern.children w.kern.childrenLeft), w'⟩ ∧
      w'.kern.children = [] ∧ w'.mem.table = w.mem.table.without w.kern.children := by
  simp only [reapAll, Prog.bind_eq, Prog.pure_eq, Prog.iterate_bind, Prog.loop_bind,
    Prog.bind_assoc] at here
  obtain ⟨m, w₁, forgets, allIn, left⟩ := reaping rfl distinct here
  obtain ⟨done, w₂, -, answer, there⟩ := Execution.call_alone handing_alone
    (S := calls) (o := Call.mem .forgetFinished) ⟨()⟩ forgets
  cases answer with
  | mem reads =>
      refine ⟨_, _, there, allIn, ?_⟩
      show w₁.mem.table.forgetFinished = _
      exact congrArg Table.mk left

end Followed

/-- In every execution in which `reap_all` is called on `table` and these children are handed over,
it returns `harvest` and leaves `table'`. -/
def ReapsAll (table : Table) (children : List ReapedChild) (childrenLeft : Bool)
    (harvest : Harvest) (table' : Table) : Prop :=
  ∀ (w : World Handing) (e : Execution handing.semantics ⟨reapAll, w⟩),
    w.mem.table = table → w.kern.children = children → w.kern.childrenLeft = childrenLeft →
      ∃ n w', e.conf n = ⟨.ret harvest, w'⟩ ∧ w'.kern.children = [] ∧ w'.mem.table = table'

theorem reapsAll (t : Table) (distinct : t.shells.Nodup) (children : List ReapedChild)
    (childrenLeft : Bool) :
    ReapsAll t children childrenLeft (t.harvest children childrenLeft) (t.without children) := by
  rintro w e rfl rfl rfl
  have here : e.conf 0 = ⟨reapAll.bind .ret, w⟩ := by
    rw [Prog.bind_ret]
    exact e.start
  exact reapAll_harvests distinct here

/-! ## Children that are not shells -/

section Unnoticed

variable {t : Table} {before after : List ReapedChild} {child : ReapedChild}

/-- If a running entry has the pid of a child that is unknown by now, a child of that pid was handed
over before. -/
theorem reaped_before (unknown : child.pid ∉ (t.without before).shells) {e : Entry}
    (live : e ∈ t.live) (same : e.pid = child.pid) : e.pid ∈ before.map ReapedChild.pid := by
  by_contra left
  refine unknown (List.mem_map.mpr ⟨e, List.mem_filter.mpr ⟨?_, ?_⟩, same⟩)
  · exact List.mem_filter.mpr ⟨live, by simpa using left⟩
  · exact (List.mem_filter.mp live).2

theorem without_unnoticed (unknown : child.pid ∉ (t.without before).shells) :
    t.without (before ++ child :: after) = t.without (before ++ after) := by
  refine congrArg Table.mk (List.filter_congr fun e live => ?_)
  rw [Bool.not_inj_iff, Bool.eq_iff_iff]
  simp only [List.contains_iff_mem, List.map_append, List.map_cons, List.mem_append, List.mem_cons]
  constructor
  · rintro (early | same | late)
    · exact .inl early
    · exact .inl (reaped_before unknown live same)
    · exact .inr late
  · rintro (early | late)
    · exact .inl early
    · exact .inr (.inr late)

theorem livesOf_unnoticed (unknown : child.pid ∉ (t.without before).shells) :
    livesOf (before ++ child :: after) t.live = livesOf (before ++ after) t.live := by
  refine List.filterMap_congr fun e live => ?_
  congr 1
  simp only [Keyed.first?, List.find?_append]
  by_cases same : e.pid = child.pid
  · obtain ⟨first, member, ofPid⟩ := List.mem_map.mp (reaped_before unknown live same)
    have found : (before.find? fun c => c.pid == e.pid).isSome :=
      List.find?_isSome.mpr ⟨first, member, by simpa using ofPid⟩
    obtain ⟨first', found⟩ := Option.isSome_iff_exists.mp found
    rw [found]
    rfl
  · rw [List.find?_cons_of_neg (a := child) (by simpa using Ne.symm same)]

end Unnoticed

/-- **`reap_all` harvests exactly what is handed over.**  Of the entries, those that were
running and of which no child came are left, in order; the shortest life is the least of the
others', each up to the first child with its pid; and a child whose pid is not that of an entry
still running when it comes makes no difference. -/
theorem reap_all_harvests_exactly (t : Table) (distinct : t.shells.Nodup)
    (children : List ReapedChild) (childrenLeft : Bool) :
    ReapsAll t children childrenLeft (t.harvest children childrenLeft) (t.without children) ∧
      ∀ before child after, children = before ++ child :: after →
        child.pid ∉ (t.without before).shells →
          ReapsAll t (before ++ after) childrenLeft (t.harvest children childrenLeft)
            (t.without children) := by
  refine ⟨reapsAll t distinct children childrenLeft, ?_⟩
  rintro before child after rfl unknown
  have same := reapsAll t distinct (before ++ after) childrenLeft
  rw [Table.harvest, ← livesOf_unnoticed unknown, ← without_unnoticed unknown] at same
  exact same

/-! ## A harvest -/

theorem promised_result {s : Syscall} (r : s.Res) : ∃ r' : s.Res, Promised (.sys s) r' := by
  cases s with
  | getpid => exact ⟨(1 : Int), rfl⟩
  | fork => exact ⟨⟨-1, ⟨0, ""⟩⟩, .inl rfl⟩
  | clockGettime => exact ⟨(0 : ℕ), by show 0 < 2 ^ 63; decide⟩
  | write => exact ⟨⟨0, ⟨0, ""⟩⟩, Int.natCast_nonneg _⟩
  | openPath => exact ⟨⟨-1, ⟨0, ""⟩⟩, .inl (by decide)⟩
  | _ => exact ⟨r, trivial⟩

/-- This kernel answers every call that comes back. -/
theorem handing_answers (w : World Handing) (c : Call) (comesBack : Nonempty c.Res) :
    ∃ r w', handing.Answers w c r w' := by
  obtain ⟨r⟩ := comesBack
  cases c with
  | mem o => exact ⟨_, _, .mem rfl⟩
  | sys s =>
      have answered : ∃ (r : s.Res) (kern : Handing), handing.answer w.kern s r kern := by
        obtain ⟨r', promised⟩ := promised_result r
        cases s with
        | waitpid =>
            obtain ⟨⟨children, childrenLeft, reading⟩, mem, hist⟩ := w
            cases children with
            | cons child rest => exact ⟨(⟨child.pid, ⟨0, ""⟩⟩, child.status), _, rfl, rfl, rfl⟩
            | nil =>
                cases childrenLeft with
                | true => exact ⟨(⟨0, ⟨0, ""⟩⟩, 0), _, rfl, rfl⟩
                | false => exact ⟨(⟨-1, ⟨ECHILD, ""⟩⟩, 0), _, rfl, rfl⟩
        | _ => exact ⟨r', w.kern, promised, rfl⟩
      obtain ⟨r, kern, answer⟩ := answered
      exact ⟨r, _, .sys answer⟩

/-- Two shells, and three children that are handed over: an orphan, the first shell, and the pid of
the first shell again. -/
theorem reap_all_harvests_exactly_one_of_two :
    let t : Table := ⟨[⟨"first", 7, .running, 3, true⟩, ⟨"gone", 9, .exited 0, 1, true⟩,
      ⟨"second", 8, .running, 5, true⟩]⟩
    let children : List ReapedChild :=
      [⟨100, 0, 8, by decide⟩, ⟨7, 0, 9, by decide⟩, ⟨7, 0, 4, by decide⟩]
    ReapsAll t children true ⟨some 6, true⟩ ⟨[⟨"second", 8, .running, 5, true⟩]⟩ ∧
      ReapsAll t [⟨100, 0, 8, by decide⟩, ⟨7, 0, 9, by decide⟩] true ⟨some 6, true⟩
        ⟨[⟨"second", 8, .running, 5, true⟩]⟩ ∧
      ∀ c : Config calls (World Handing) Harvest, Nonempty (Execution handing.semantics c) := by
  intro t children
  obtain ⟨reaps, unnoticed⟩ := reap_all_harvests_exactly t (by decide) children true
  refine ⟨reaps, ?_, Execution.exists_of_answers handing_answers⟩
  exact unnoticed [⟨100, 0, 8, by decide⟩, ⟨7, 0, 9, by decide⟩] _ [] rfl (by decide)

end Zevory
