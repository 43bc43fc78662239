import Zevory.Lull
import Zevory.Play

/-!
# Zombies are reaped

Every zombie child of pid 1 is handed over by some `waitpid` in the end, on the kernel of
processes.  `Told` says that SIGCHLD is pending beside a zombie; here it follows for every
execution in which pid 1 does not give up that the zombie is reaped.  The conditions on the
execution are that children do not keep coming, that waits do not fail for ever beside a
pending signal, and that not only lower signals such as SIGHUP are taken.
-/

namespace Zevory

open Interaction Signal Power Processes

/-! ## Zombies stay -/

namespace Processes

variable {m m' : Processes} {pid : Int} {started : Bool}

theorem proc_of_set {other : Int} {x y : Process} (zombie : m.proc pid = x) (was : m.proc other = y)
    (differs : x ≠ y) (z : Process) : (m.set other z).proc pid = x := by
  have ne : pid ≠ other := by
    rintro rfl
    exact differs (zombie.symm.trans was)
  rw [set_proc_other ne, zombie]

/-- A zombie child of pid 1 stays one, whatever the others do. -/
theorem Others.keeps_zombie (others : Others m m') (zombie : m.proc pid = .child started true) :
    m'.proc pid = .child started true := by
  cases others with
  | born _ free => exact proc_of_set zombie free nofun _
  | strangerDied was => exact proc_of_set zombie was nofun _
  | strangerReaped was => exact proc_of_set zombie was nofun _
  | orphaned was => exact proc_of_set zombie was nofun _
  | died was => exact proc_of_set zombie was nofun _
  | raised => exact zombie

end Processes

section Execution

variable {candidates : List Spec} {e : Execution kernel.semantics (boot candidates Processes.boot)}
  {n m : ℕ} {p q : Place} {pid : Int} {started : Bool}

/-- At the `n`-th turn `waitpid` hands over the child `pid`. -/
def Reaps (e : Execution kernel.semantics (boot candidates Processes.boot)) (n : ℕ) (pid : Int) :
    Prop :=
  ∃ errno status, e.did n = some ⟨.sys .waitpid, (⟨pid, errno⟩, status)⟩

/-- A zombie is still there after a turn, unless that turn reaps it. -/
theorem zombie_turn (zombie : (e.conf n).world.kern.proc pid = .child started true) :
    (e.conf (n + 1)).world.kern.proc pid = .child started true ∨ Reaps e n pid := by
  rcases kernel_turn (P := fun m => m.proc pid = .child started true)
    (fun _ _ here others => others.keeps_zombie here) zombie with
    kept | ⟨s, r, kern, did, there, answer⟩
  · exact .inl kept
  generalize (e.conf (n + 1)).world.kern = after at answer ⊢
  cases answer with
  | fork _ free => exact .inl (proc_of_set there free nofun _)
  | @reaped other started' errno status was =>
      by_cases same : other = pid
      · subst same
        exact .inr ⟨errno, status, did⟩
      · refine .inl ?_
        show (Processes.set _ other .none).proc pid = _
        rw [set_proc_other (Ne.symm same), there]
  | _ => exact .inl there

theorem zombie_stays (zombie : (e.conf n).world.kern.proc pid = .child started true)
    (never : ∀ i, n ≤ i → i < m → ¬ Reaps e i pid) (later : n ≤ m) :
    (e.conf m).world.kern.proc pid = .child started true :=
  stays_unless (P := fun i => (e.conf i).world.kern.proc pid = .child started true)
    (fun _ => zombie_turn) zombie never later

/-- While there is a zombie, no `waitpid` returns without a child. -/
theorem brings_some (zombie : (e.conf n).world.kern.proc pid = .child started true) :
    ¬ BringsNone e n := by
  rintro ⟨r, waits, noChild⟩
  obtain ⟨p, here, -⟩ := exists_here e n
  obtain ⟨kern, after, others, told, answer, -⟩ := turn_kernel here waits
  have there : kern.proc pid = .child started true := by
    clear told answer
    induction others with
    | refl => exact zombie
    | tail _ others ih => exact others.keeps_zombie ih
  cases answer with
  | @reaped other _ errno status was =>
      have positive : 1 < other := told.pids other (by simp [was])
      exact noChild other status (by simp [Sys.reapedOf, show (0 : Int) < other by omega])
  | noZombie empty => exact empty ⟨pid, started, there⟩
  | noChild empty => exact empty ⟨pid, started, true, there⟩
  | plain plain => cases plain

/-! ## The promise -/

section Unreaped

variable (zombie : (e.conf n).world.kern.proc pid = .child started true)
  (never : ∀ m, n ≤ m → ¬ Reaps e m pid)

include zombie never

/-- While a zombie is never reaped, pid 1 is not in the loop of `reap_all`. -/
theorem unreaped_idle (calm : ¬ ReapsForever e) (later : n ≤ m) (here : Here e m p) (why : Why) :
    ¬ p.reapsFor why := by
  intro reaps
  obtain ⟨i, -, -, later', ⟨noChild, -⟩, -⟩ := here.harvests reaps calm
  exact brings_some (zombie_stays zombie (fun i from_ _ => never i from_)
    (Nat.le_trans later later')) noChild

theorem unreaped_told (calm : ¬ ReapsForever e) (later : n ≤ m) {kern : Processes}
    (others : Relation.ReflTransGen Others (e.conf m).world.kern kern) :
    SIGCHLD ∈ kern.pending := by
  obtain ⟨p, here, -⟩ := exists_here e m
  have outside : p.reaps = false := by
    have idle := unreaped_idle zombie never calm later here
    cases p with
    | reaping why | crediting why => exact absurd rfl (idle why)
    | _ => rfl
  have there := zombie_stays zombie (fun i from_ _ => never i from_) later
  suffices h : Told p kern ∧ kern.proc pid = .child started true from
    h.1.told outside ⟨pid, started, h.2⟩
  induction others with
  | refl => exact ⟨here.told, there⟩
  | tail _ others ih => exact ⟨ih.1.others others, others.keeps_zombie ih.2⟩

/-- While a zombie is never reaped, a pid 1 that never gives up polls again and again. -/
theorem unreaped_polls (stays : StaysUp e) (calm : ¬ ReapsForever e) : PollsForever e := by
  intro i
  obtain ⟨m, p, later, here, up⟩ := stays.comes_up (max n i)
  obtain ⟨m', later', waits⟩ := stays.waits here up
  have idle : ∀ {j q why}, m' ≤ j → Here e j q → ¬ q.reapsFor why :=
    fun from_ there => unreaped_idle zombie never calm (by omega) there _
  cases waits with
  | polls _ did => exact ⟨m', _, _, _, by omega, did⟩
  | watches _ did => exact ⟨m', _, _, _, by omega, did⟩
  | reaps there => exact absurd rfl (idle (Nat.le_refl m') there)

/-- If a zombie is never reaped, signals are taken again and again, but from some turn on only ones
lower than SIGCHLD that ask for nothing. -/
theorem unreaped_starves (stays : StaysUp e) (calm : ¬ ReapsForever e) (hears : Hears e) :
    Starves e SIGCHLD := by
  have takes : ∀ i, ∃ m other, i ≤ m ∧ Takes e m other := by
    intro i
    obtain ⟨m, other, later, takes⟩ := hears (max n i)
      (fun m later => ⟨SIGCHLD, unreaped_told zombie never calm (by omega) .refl⟩)
      (unreaped_polls zombie never stays calm)
    exact ⟨m, other, by omega, takes⟩
  refine ⟨⟨n, fun m other later took => ?_⟩, takes⟩
  have lowest : other ≤ SIGCHLD :=
    takes_lowest took fun kern others => unreaped_told zombie never calm later others
  -- it leads to no place where children are reaped
  obtain ⟨p, here, -⟩ := exists_here e m
  have idle : ∀ {q} why, Here e (m + 1) q → ¬ q.reapsFor why :=
    fun why there => unreaped_idle zombie never calm (by omega) there why
  rcases takes_leads here took with ⟨-, next⟩ | ⟨action, killed, deadline, next⟩
  · constructor
    · rcases Int.lt_or_eq_of_le lowest with lower | rfl
      · exact lower
      · exact absurd rfl (idle .supervising next)
    · intro action asks
      rw [Place.afterSignal, asks] at next
      exact absurd rfl (idle (.stopping action) next)
  · exact absurd rfl (idle _ next)

end Unreaped

/-- **Zombies are reaped.**  In every execution of `main` on the kernel of processes in which
pid 1 never gives up, children do not keep coming, waits do not fail for ever beside a
pending signal, and signals lower than SIGCHLD that ask for nothing are not all that is ever
taken, every zombie child of pid 1, its own or an orphan, is handed over by a `waitpid`. -/
theorem every_zombie_is_reaped (stays : StaysUp e) (calm : ¬ ReapsForever e) (hears : Hears e)
    (heard : ¬ Starves e SIGCHLD)
    (zombie : (e.conf n).world.kern.proc pid = .child started true) :
    ∃ m, n ≤ m ∧ Reaps e m pid := by
  by_contra unreaped
  have never : ∀ m, n ≤ m → ¬ Reaps e m pid := fun m later reaps => unreaped ⟨m, later, reaps⟩
  exact heard (unreaped_starves zombie never stays calm hears)

end Execution

/-- The plan in which an orphan dies beside the first shell, when pid 1 first waits. -/
def orphanDies : Plan kernel :=
  play fun w c =>
    if c = .sys (.poll 4 UNTIL_SOMETHING_ARRIVES) ∧ w.kern.reaped = [] then .orphanDies
    else .nothing

def besideAnOrphan : Config calls (World Processes) Unit :=
  orphanDies.driver.run (fun c => c.prog.next == some (Call.sys (.read 4))) 400
    (boot CANDIDATES Processes.boot)

/-- Pid 1 at its next wait. -/
def afterTheOrphan : Config calls (World Processes) Unit :=
  orphanDies.driver.run (fun c => c.world.kern.reaped == [(200, false)] &&
    c.prog.next == some (Call.sys (.poll 4 UNTIL_SOMETHING_ARRIVES))) 400 besideAnOrphan

theorem besideAnOrphan_turns :
    Turns kernel.semantics (boot CANDIDATES Processes.boot) besideAnOrphan ∧
      Few besideAnOrphan.world.kern :=
  orphanDies.turns _ _ few_boot

theorem afterTheOrphan_turns :
    Turns kernel.semantics besideAnOrphan afterTheOrphan ∧ Few afterTheOrphan.world.kern :=
  orphanDies.turns _ _ besideAnOrphan_turns.2

theorem every_zombie_is_reaped_even_an_orphan :
    ∃ (e : Execution kernel.semantics (boot CANDIDATES Processes.boot)) (n m : ℕ),
      (e.conf n).world.kern.proc 200 = .child false true ∧ n ≤ m ∧ Reaps e m 200 := by
  obtain ⟨turns₁, -⟩ := besideAnOrphan_turns
  obtain ⟨turns₂, few⟩ := afterTheOrphan_turns
  have next : afterTheOrphan.prog.next = some (Call.sys (.poll 4 UNTIL_SOMETHING_ARRIVES)) := by
    decide +kernel
  have lull : Lull CANDIDATES afterTheOrphan.world.kern afterTheOrphan :=
    .of_next (Turns.reaches (turns₁.trans turns₂)) next (by decide +kernel)
  have lives : afterTheOrphan.world.kern.HasChild := ⟨100, true, false, by decide +kernel⟩
  obtain ⟨e, n₁, n, there, after, lulls⟩ := lull.exists_execution turns₁ turns₂
    (few.noZombie (by decide +kernel) (by decide +kernel)) lives
  have zombie : (e.conf n₁).world.kern.proc 200 = .child false true := by
    rw [there]
    decide +kernel
  have stays : StaysUp e := lull_stays lulls (by rw [after]; decide +kernel)
  obtain ⟨m, later, reaps⟩ := every_zombie_is_reaped stays (lull_calm lulls)
    (lull_hears lulls (by decide +kernel)) (lull_heard lulls SIGCHLD) zombie
  exact ⟨e, n₁, m, zombie, later, reaps⟩

end Zevory
