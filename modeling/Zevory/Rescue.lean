import Zevory.Table

/-!
# Which shell to try

`shell.rs`: the candidates and the machine that moves from one to the next after
three strikes.  `Rescue.shell` indexes a vector in the source; here it is `none`
where that index would be out of range.
-/

namespace Zevory

def STRIKES_BEFORE_MOVING_ON : ℕ := 3

def CANDIDATES : List Spec :=
  [{ name := "shell", path := "/bin/sh", argv := ["sh"], wantsOwnSession := true },
   { name := "shell", path := "/bin/busybox", argv := ["busybox", "sh"],
     wantsOwnSession := true }]

inductive Verdict
  | keepTrying
  | movedOn (next : Spec)
  | outOfOptions
  deriving DecidableEq, Repr

structure Rescue where
  usable : List Spec
  at_ : ℕ
  strikes : ℕ
  deriving DecidableEq, Repr

def Rescue.over (usable : List Spec) : Option Rescue :=
  if usable.isEmpty then none else some { usable, at_ := 0, strikes := 0 }

namespace Rescue

def shell (r : Rescue) : Option Spec :=
  r.usable[r.at_]?

def survived (r : Rescue) : Rescue :=
  { r with strikes := 0 }

/-- `Rescue::failed`: the verdict, which is `none` where the index of `self.shell()` is out of
range, and the machine after the call. -/
def failed (r : Rescue) : Option Verdict × Rescue :=
  let r := { r with strikes := r.strikes + 1 }
  if r.strikes < STRIKES_BEFORE_MOVING_ON then
    (some .keepTrying, r)
  else if r.at_ + 1 ≥ r.usable.length then
    (some .outOfOptions, r)
  else
    let r := { r with at_ := r.at_ + 1, strikes := 0 }
    (r.shell.map .movedOn, r)

/-! ## The index stays in range -/

/-- The index that `shell` uses is in range, so that it does not panic. -/
def InRange (r : Rescue) : Prop := r.at_ < r.usable.length

theorem over_inRange {usable : List Spec} {r : Rescue} (h : Rescue.over usable = some r) :
    r.InRange := by
  unfold Rescue.over at h
  split at h
  · cases h
  · rename_i nonempty
    cases h
    exact List.length_pos_iff.mpr fun empty => nonempty (List.isEmpty_iff.mpr empty)

/-- A new machine stands at the first candidate and has no strike. -/
theorem over_fresh {usable : List Spec} {r : Rescue} (h : Rescue.over usable = some r) :
    r = { usable, at_ := 0, strikes := 0 } := by
  unfold Rescue.over at h
  split at h
  · cases h
  · cases h
    rfl

theorem InRange.shell {r : Rescue} (h : r.InRange) : ∃ spec, r.shell = some spec :=
  ⟨_, List.getElem?_eq_getElem h⟩

theorem InRange.survived {r : Rescue} (h : r.InRange) : r.survived.InRange := h

theorem InRange.failed {r : Rescue} (h : r.InRange) : r.failed.2.InRange := by
  unfold Rescue.failed
  dsimp only
  split
  · exact h
  · split
    · exact h
    · rename_i more
      exact Nat.lt_of_not_ge more

theorem InRange.verdict {r : Rescue} (h : r.InRange) : ∃ verdict, r.failed.1 = some verdict := by
  have after := h.failed
  unfold Rescue.failed at after ⊢
  dsimp only at after ⊢
  split
  · exact ⟨_, rfl⟩
  · split
    · exact ⟨_, rfl⟩
    · rename_i strikes more
      rw [if_neg strikes, if_neg more] at after
      obtain ⟨spec, found⟩ := after.shell
      exact ⟨.movedOn spec, by rw [found]; rfl⟩

end Rescue

end Zevory
