import Mathlib.Algebra.Ring.Nat
import Mathlib.Data.List.Induction
import Zevory.Rescue

/-!
# Three chances each

The rescue machine in closed form: after any reports of failures and survivals it is at
the candidate whose number is how often three failures came in a row.  `Tracks` is what one
report keeps; `three_chances_each` is what it comes to over all of them.
-/

namespace Zevory

/-- What the rescue machine is told about a shell: that it has failed, or that it has survived. -/
inductive Report
  | failed
  | survived
  deriving DecidableEq, Repr

/-- How many candidates some reports use up: one for every three failures in a row. -/
def spent (reports : List Report) : ℕ :=
  ((reports.splitOn .survived).map fun run => run.length / 3).sum

/-- The number of failures since the last survival. -/
def lastRun (reports : List Report) : ℕ :=
  ((reports.splitOn .survived).getLastD []).length

/-- When an element that is not the separator is appended to a list, it goes to the last piece. -/
theorem splitOn_concat {α : Type} [BEq α] [LawfulBEq α] {a b : α} (other : b ≠ a)
    (xs : List α) :
    ∃ past run, xs.splitOn a = past ++ [run] ∧ (xs ++ [b]).splitOn a = past ++ [run ++ [b]] := by
  induction xs with
  | nil =>
      refine ⟨[], [], List.splitOn_nil a, ?_⟩
      apply List.splitOn_eq_singleton
      rw [List.nil_append, List.mem_singleton]
      exact other.symm
  | cons x xs ih =>
      obtain ⟨past, run, before, after⟩ := ih
      rw [List.cons_append, List.splitOn_cons_eq_if_modifyHead, List.splitOn_cons_eq_if_modifyHead,
        before, after]
      split
      · exact ⟨[] :: past, run, rfl, rfl⟩
      · cases past with
        | nil => exact ⟨[], x :: run, rfl, rfl⟩
        | cons first past => exact ⟨(x :: first) :: past, run, rfl, rfl⟩

section Reports

variable (reports : List Report)

theorem spent_survived : spent (reports ++ [.survived]) = spent reports := by
  simp [spent, List.splitOn_append_cons_self]

theorem lastRun_survived : lastRun (reports ++ [.survived]) = 0 := by
  simp [lastRun, List.splitOn_append_cons_self]

theorem lastRun_failed : lastRun (reports ++ [.failed]) = lastRun reports + 1 := by
  obtain ⟨past, run, before, after⟩ :=
    splitOn_concat (a := .survived) (b := .failed) (by decide) reports
  simp [lastRun, before, after]

/-- A failure uses up a candidate exactly if it is the third of three in a row. -/
theorem spent_failed :
    spent (reports ++ [.failed]) =
      spent reports + if lastRun reports % 3 = 2 then 1 else 0 := by
  obtain ⟨past, run, before, after⟩ :=
    splitOn_concat (a := .survived) (b := .failed) (by decide) reports
  simp only [spent, lastRun, before, after, List.map_append, List.sum_append, List.map_cons,
    List.map_nil, List.sum_cons, List.sum_nil, List.length_append, List.length_cons,
    List.length_nil, List.getLastD_concat]
  split <;> omega

end Reports

namespace Rescue

def report (r : Rescue) : Report → Rescue
  | .failed => r.failed.2
  | .survived => r.survived

/-- The machine after some reports, oldest first. -/
def told (r : Rescue) (reports : List Report) : Rescue := reports.foldl report r

theorem told_concat (r : Rescue) (reports : List Report) (last : Report) :
    r.told (reports ++ [last]) = (r.told reports).report last := by
  rw [told, List.foldl_append]
  rfl

/-- The verdicts that the failures among some reports are answered with. -/
def answers (r : Rescue) : List Report → List (Option Verdict)
  | [] => []
  | .survived :: rest => r.survived.answers rest
  | .failed :: rest => r.failed.1 :: r.failed.2.answers rest

/-- None of the reports was answered with `OutOfOptions`. -/
def InTime (r : Rescue) (reports : List Report) : Prop :=
  some .outOfOptions ∉ r.answers reports

instance (r : Rescue) (reports : List Report) : Decidable (r.InTime reports) :=
  inferInstanceAs (Decidable (_ ∉ _))

theorem answers_append (r : Rescue) (before after : List Report) :
    r.answers (before ++ after) = r.answers before ++ (r.told before).answers after := by
  induction before generalizing r with
  | nil => rfl
  | cons first before ih =>
      cases first with
      | survived => exact ih r.survived
      | failed => exact congrArg _ (ih r.failed.2)

/-! ## One failure -/

theorem failed_first {r : Rescue} (few : r.strikes + 1 < 3) :
    r.failed = (some .keepTrying, { r with strikes := r.strikes + 1 }) :=
  if_pos few

theorem failed_last {r : Rescue} (many : ¬ r.strikes + 1 < 3) (last : r.usable.length ≤ r.at_ + 1) :
    r.failed = (some .outOfOptions, { r with strikes := r.strikes + 1 }) :=
  (if_neg many).trans (if_pos last)

theorem failed_moves {r : Rescue} (many : ¬ r.strikes + 1 < 3)
    (more : r.at_ + 1 < r.usable.length) :
    r.failed = (some (.movedOn r.usable[r.at_ + 1]), { r with at_ := r.at_ + 1, strikes := 0 }) := by
  have next : ({ r with at_ := r.at_ + 1, strikes := 0 } : Rescue).shell = some r.usable[r.at_ + 1] :=
    List.getElem?_eq_getElem more
  refine (if_neg many).trans ((if_neg (Nat.not_le.mpr more)).trans ?_)
  dsimp only
  rw [next]
  rfl

/-! ## Any reports -/

/-- After the reports the machine stands where the closed form says: at the candidate that `spent`
counts, and the strikes are the failures since it came there. -/
structure Tracks (candidates : List Spec) (reports : List Report) (r : Rescue) : Prop where
  usable : r.usable = candidates
  candidate : r.at_ = spent reports
  inRange : spent reports < candidates.length
  strikes : r.strikes = lastRun reports % 3

variable {candidates : List Spec} {reports : List Report} {r : Rescue}

theorem Tracks.survived (tracks : Tracks candidates reports r) :
    Tracks candidates (reports ++ [.survived]) r.survived := by
  refine ⟨tracks.usable, ?_, ?_, ?_⟩
  · rw [spent_survived]
    exact tracks.candidate
  · rw [spent_survived]
    exact tracks.inRange
  · rw [lastRun_survived]
    rfl

/-- After a failure that leaves an option the machine still stands where the closed form says. -/
theorem Tracks.failed (tracks : Tracks candidates reports r)
    (inTime : r.failed.1 ≠ some .outOfOptions) :
    Tracks candidates (reports ++ [.failed]) r.failed.2 := by
  have strikes := tracks.strikes
  have bound : lastRun reports % 3 < 3 := Nat.mod_lt _ (by decide)
  by_cases few : r.strikes + 1 < 3
  · have same : spent (reports ++ [.failed]) = spent reports := by
      rw [spent_failed, if_neg (by omega)]
      rfl
    rw [failed_first few]
    refine ⟨tracks.usable, ?_, ?_, ?_⟩
    · rw [same]
      exact tracks.candidate
    · rw [same]
      exact tracks.inRange
    · rw [lastRun_failed]
      show r.strikes + 1 = (lastRun reports + 1) % 3
      omega
  · have next : spent (reports ++ [.failed]) = spent reports + 1 := by
      rw [spent_failed, if_pos (by omega)]
    rcases Nat.lt_or_ge (r.at_ + 1) r.usable.length with more | last
    · rw [failed_moves few more]
      refine ⟨tracks.usable, ?_, ?_, ?_⟩
      · rw [next, ← tracks.candidate]
      · rw [next, ← tracks.candidate, ← tracks.usable]
        exact more
      · rw [lastRun_failed]
        show 0 = (lastRun reports + 1) % 3
        omega
    · rw [failed_last few last] at inTime
      exact absurd rfl inTime

theorem tracks_told (nonempty : candidates ≠ []) (inTime : InTime ⟨candidates, 0, 0⟩ reports) :
    Tracks candidates reports (told ⟨candidates, 0, 0⟩ reports) := by
  induction reports using List.reverseRecOn with
  | nil => exact ⟨rfl, rfl, List.length_pos_iff.mpr nonempty, rfl⟩
  | append_singleton reports last ih =>
      rw [InTime, answers_append, List.mem_append, not_or] at inTime
      have before := ih inTime.1
      rw [told_concat]
      cases last with
      | survived => exact before.survived
      | failed => exact before.failed fun last => inTime.2 (last ▸ List.mem_cons_self)

theorem Tracks.shell (tracks : Tracks candidates reports r) :
    r.shell = candidates[spent reports]? := by
  rw [Rescue.shell, tracks.usable, tracks.candidate]

/-- What a failure is answered with, depending on whether it raises `spent` and whether there is a
candidate left. -/
theorem Tracks.verdict (tracks : Tracks candidates reports r) :
    (r.failed.1 = some .keepTrying ∧ spent (reports ++ [.failed]) = spent reports) ∨
      spent (reports ++ [.failed]) = spent reports + 1 ∧
        ((∃ more : spent reports + 1 < candidates.length,
            r.failed.1 = some (.movedOn candidates[spent reports + 1])) ∨
          spent reports + 1 = candidates.length ∧ r.failed.1 = some .outOfOptions) := by
  have strikes := tracks.strikes
  have bound : lastRun reports % 3 < 3 := Nat.mod_lt _ (by decide)
  have inRange := tracks.inRange
  rw [spent_failed]
  by_cases few : r.strikes + 1 < 3
  · rw [failed_first few, if_neg (by omega)]
    exact .inl ⟨rfl, rfl⟩
  · rw [if_pos (by omega)]
    refine .inr ⟨rfl, ?_⟩
    obtain ⟨usable, at_, _⟩ := r
    obtain ⟨rfl, rfl, -, -⟩ := tracks
    rcases Nat.lt_or_ge (spent reports + 1) usable.length with more | last
    · exact .inl ⟨more, by rw [failed_moves few more]⟩
    · have length : spent reports + 1 = usable.length := Nat.le_antisymm inRange last
      exact .inr ⟨length, by rw [failed_last few last]⟩

theorem Tracks.few_strikes (tracks : Tracks candidates reports r) :
    r.strikes < 3 ∧ r.failed.2.strikes ≤ 3 := by
  have strikes := tracks.strikes
  have bound : lastRun reports % 3 < 3 := Nat.mod_lt _ (by decide)
  refine ⟨by omega, ?_⟩
  by_cases few : r.strikes + 1 < 3
  · rw [failed_first few]
    exact Nat.le_of_lt few
  · rcases Nat.lt_or_ge (r.at_ + 1) r.usable.length with more | last
    · rw [failed_moves few more]
      exact Nat.zero_le 3
    · rw [failed_last few last]
      show r.strikes + 1 ≤ 3
      omega

end Rescue

/-- **Every candidate has three chances in a row, and no more.** After any reports none of which has
exhausted the candidates, the machine stands at the candidate that the number of used-up ones names,
and the next failure is answered accordingly. -/
theorem three_chances_each {candidates : List Spec} (nonempty : candidates ≠ []) :
    ∃ r, Rescue.over candidates = some r ∧ ∀ reports, r.InTime reports →
      let now := r.told reports
      let m := spent reports
      let m' := spent (reports ++ [.failed])
      m < candidates.length ∧ now.shell = candidates[m]? ∧
        now.strikes < 3 ∧ now.failed.2.strikes ≤ 3 ∧
        (spent (reports ++ [.survived]) = m ∧ now.survived.shell = candidates[m]?) ∧
        m ≤ m' ∧ m' ≤ m + 1 ∧ m' ≤ candidates.length ∧
        (∀ spec, now.failed.1 = some (.movedOn spec) ↔ m < m' ∧ candidates[m']? = some spec) ∧
        (now.failed.1 = some .outOfOptions ↔ m < m' ∧ m' = candidates.length) ∧
        (now.failed.1 = some .keepTrying ↔ m' = m) := by
  refine ⟨⟨candidates, 0, 0⟩, ?_, fun reports inTime => ?_⟩
  · rw [Rescue.over, if_neg (by simpa using nonempty)]
  have tracks := Rescue.tracks_told nonempty inTime
  obtain ⟨strikes, after⟩ := tracks.few_strikes
  have inRange := tracks.inRange
  refine ⟨inRange, tracks.shell, strikes, after, ⟨spent_survived reports, tracks.shell⟩, ?_⟩
  rcases tracks.verdict with ⟨keeps, same⟩ | ⟨next, ⟨more, moves⟩ | ⟨last, noNext⟩⟩
  · rw [same, keeps]
    simp [Nat.le_of_lt inRange]
  · rw [next, moves]
    simp [more, Nat.le_of_lt more, Nat.ne_of_lt more]
  · rw [next, noNext]
    simp [last, inRange, Nat.le_of_lt inRange, Nat.ne_of_gt inRange]

theorem three_chances_each_of_two :
    ∃ r, Rescue.over CANDIDATES = some r ∧
      (r.told [.failed, .failed, .survived, .failed, .failed]).failed.1 =
        CANDIDATES[1]?.map .movedOn := by
  obtain ⟨r, first, chances⟩ := three_chances_each (show CANDIDATES ≠ [] by decide)
  refine ⟨r, first, ?_⟩
  cases Rescue.over_fresh first
  have now := chances [.failed, .failed, .survived, .failed, .failed] (by decide)
  exact (now.2.2.2.2.2.2.2.2.1 _).mpr ⟨by decide, by decide⟩

end Zevory
