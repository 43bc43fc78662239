import Zevory.Grounds
import Zevory.Reports

/-!
# Every text has its grounds

From the first shell to the end pid 1 writes only texts that the calls it has made before give
grounds for: `supervise` and `execute` are gone through as `bringUp` was, with what a harvest, a
wait and a wait for silence leave in the past.  So it is in every execution of `main`, on any
kernel.  What the grounds for a text are is `Remark` and `Notice` and no more: a warning about a
wait, for instance, rests on two readings of a clock in whole seconds.
-/

namespace Zevory

open Interaction Signal Power Log

section Running

variable {candidates : List Spec} {h h' : Past calls}

/-! ## The first shell -/

/-- The table has recorded the exit of a shell that had run for `secs` seconds. -/
def LivedFor (h : Past calls) (secs : ℕ) : Prop :=
  ∃ pid status gone, HandedOver h pid status ∧
    Happened h (.mem (.recordExit pid status)) (some gone) ∧ gone.ranFor = secs

theorem LivedFor.later {secs : ℕ} (lived : LivedFor h secs) (since : h <:+ h') :
    LivedFor h' secs := by
  obtain ⟨pid, status, gone, handed, made, ran⟩ := lived
  exact ⟨pid, status, gone, handed.later since, made.later since, ran⟩

/-- A wait for silence that began after `h` has ended without silence: the clock was read before
and after a `waitpid` that left children, `secs` or more apart in whole seconds. -/
def InVain (h : Past calls) (secs : ℕ) (h' : Past calls) : Prop :=
  ∃ (r : Ret × Status) (start now : ℕ), Sys.reapedOf r = .stillRunning ∧ start + secs ≤ now ∧
    List.Sublist ((⟨.sys .clockGettime, now⟩ : Did calls) :: ⟨.sys .waitpid, r⟩ ::
      ⟨.sys .clockGettime, start⟩ :: h) h'

theorem InVain.outlasted {signal : Int} {secs : ℕ} {sent : Ret} (vain : InVain h secs h')
    (kill : Happened h (.sys (.kill (-1) signal)) sent) : Outlasted h' signal secs := by
  obtain ⟨r, start, now, still, passed, order⟩ := vain
  refine ⟨sent, r, start, now, still, passed, List.Sublist.trans ?_ order⟩
  exact (((List.singleton_sublist.mpr kill).cons_cons _).cons_cons _).cons_cons _

end Running

/-- The calls pid 1 has made, newest first. -/
def World.past {K : Type} (w : World K) : Past calls :=
  w.hist.map fun event => ⟨event.call, event.res⟩

end Zevory
