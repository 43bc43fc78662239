import Zevory.BringUp

/-!
# Device numbers

`makedev` packs a major and a minor number of 32 bits into the 64 bits of a `dev_t`, in
four fields.  `getLsbD_makedev` says which bit goes where; the decoding of musl is read
the same way, and what is packed comes out again.
-/

namespace Zevory

/-- The bits from `lo` up to but not including `hi`. -/
def mask (w lo hi : ℕ) : BitVec w :=
  ((BitVec.allOnes hi).setWidth w >>> lo) <<< lo

theorem getLsbD_mask {w lo hi i : ℕ} (inside : hi ≤ w) :
    (mask w lo hi).getLsbD i = (decide (lo ≤ i) && decide (i < hi)) := by
  simp only [mask, BitVec.getLsbD_shiftLeft, BitVec.getLsbD_ushiftRight, BitVec.getLsbD_setWidth,
    BitVec.getLsbD_allOnes]
  rcases Nat.lt_or_ge i lo with below | above
  · simp [below, Nat.not_le.mpr below]
  · rw [Nat.add_sub_cancel' above]
    rcases Nat.lt_or_ge i hi with below | beyond
    · have fits : i < w := by omega
      simp [above, below, fits]
    · simp [Nat.not_lt.mpr beyond]

/-- The major number of a `dev_t`, decoded as musl does it. -/
def major (d : BitVec 64) : BitVec 32 :=
  (((d >>> 32) &&& 0xfffff000#64) ||| ((d >>> 8) &&& 0x00000fff#64)).setWidth 32

def minor (d : BitVec 64) : BitVec 32 :=
  (((d >>> 12) &&& 0xffffff00#64) ||| (d &&& 0x000000ff#64)).setWidth 32

/-! ## Bit by bit -/

section Bits

theorem high_of_major : 0xfffff000#64 = mask 64 12 32 := by decide

theorem low_of_major : 0x00000fff#64 = mask 64 0 12 := by decide

theorem high_of_minor : 0xffffff00#64 = mask 64 8 32 := by decide

theorem low_of_minor : 0x000000ff#64 = mask 64 0 8 := by decide

/-- Which bit of the two numbers each bit of the `dev_t` of `makedev` is. -/
theorem getLsbD_makedev (M m : BitVec 32) (i : ℕ) :
    (Sys.makedev M m).getLsbD i =
      if i < 8 then m.getLsbD i
      else if i < 20 then M.getLsbD (i - 8)
      else if i < 44 then m.getLsbD (i - 12)
      else M.getLsbD (i - 32) := by
  have beyond : 32 ≤ i - 32 → M.getLsbD (i - 32) = false := BitVec.getLsbD_of_ge M (i - 32)
  simp only [Sys.makedev, high_of_major, low_of_major, high_of_minor, low_of_minor,
    BitVec.getLsbD_or, BitVec.getLsbD_shiftLeft, BitVec.getLsbD_and,
    BitVec.getLsbD_setWidth, getLsbD_mask (show 32 ≤ 64 by decide),
    getLsbD_mask (show 12 ≤ 64 by decide),
    getLsbD_mask (show 8 ≤ 64 by decide)]
  rcases Nat.lt_or_ge i 8 with byte | high
  · grind
  rcases Nat.lt_or_ge i 20 with low | high'
  · grind
  rcases Nat.lt_or_ge i 44 with low' | high''
  · grind
  · grind

theorem getLsbD_major (d : BitVec 64) {i : ℕ} (inside : i < 32) :
    (major d).getLsbD i = if i < 12 then d.getLsbD (i + 8) else d.getLsbD (i + 32) := by
  simp only [major, high_of_major, low_of_major, BitVec.getLsbD_setWidth, BitVec.getLsbD_or,
    BitVec.getLsbD_and, BitVec.getLsbD_ushiftRight, getLsbD_mask (show 32 ≤ 64 by decide),
    getLsbD_mask (show 12 ≤ 64 by decide)]
  grind

theorem getLsbD_minor (d : BitVec 64) {i : ℕ} (inside : i < 32) :
    (minor d).getLsbD i = if i < 8 then d.getLsbD i else d.getLsbD (i + 12) := by
  simp only [minor, high_of_minor, low_of_minor, BitVec.getLsbD_setWidth, BitVec.getLsbD_or,
    BitVec.getLsbD_and, BitVec.getLsbD_ushiftRight, getLsbD_mask (show 32 ≤ 64 by decide),
    getLsbD_mask (show 8 ≤ 64 by decide)]
  grind

/-! ## What is packed comes out again -/

variable (M m : BitVec 32) (d : BitVec 64)

theorem major_makedev : major (Sys.makedev M m) = M := by
  apply BitVec.eq_of_getLsbD_eq
  intro i inside
  rw [getLsbD_major _ inside]
  split
  · rw [getLsbD_makedev, if_neg (by omega), if_pos (by omega), Nat.add_sub_cancel]
  · rw [getLsbD_makedev, if_neg (by omega), if_neg (by omega), if_neg (by omega),
      Nat.add_sub_cancel]

theorem minor_makedev : minor (Sys.makedev M m) = m := by
  apply BitVec.eq_of_getLsbD_eq
  intro i inside
  rw [getLsbD_minor _ inside]
  split
  · rw [getLsbD_makedev, if_pos (by omega)]
  · rw [getLsbD_makedev, if_neg (by omega), if_neg (by omega), if_pos (by omega),
      Nat.add_sub_cancel]

theorem makedev_major_minor : Sys.makedev (major d) (minor d) = d := by
  apply BitVec.eq_of_getLsbD_eq
  intro i inside
  rw [getLsbD_makedev]
  split
  · rw [getLsbD_minor d (by omega), if_pos (by omega)]
  · split
    · rw [getLsbD_major d (by omega), if_pos (by omega), Nat.sub_add_cancel (by omega)]
    · split
      · rw [getLsbD_minor d (by omega), if_neg (by omega), Nat.sub_add_cancel (by omega)]
      · rw [getLsbD_major d (by omega), if_neg (by omega), Nat.sub_add_cancel (by omega)]

variable {M m}

/-- With a major number of 12 bits and a minor number of 20 bits the upper half of the `dev_t` is
empty. -/
theorem makedev_small (smallMajor : M.toNat < 2 ^ 12) (smallMinor : m.toNat < 2 ^ 20) :
    (Sys.makedev M m).toNat < 2 ^ 32 := by
  have noMajor : ∀ i, 12 ≤ i → M.getLsbD i = false := fun i high =>
    Nat.testBit_lt_two_pow (Nat.lt_of_lt_of_le smallMajor (Nat.pow_le_pow_right (by decide) high))
  have noMinor : ∀ i, 20 ≤ i → m.getLsbD i = false := fun i high =>
    Nat.testBit_lt_two_pow (Nat.lt_of_lt_of_le smallMinor (Nat.pow_le_pow_right (by decide) high))
  apply Nat.lt_pow_two_of_testBit
  intro i upper
  have bit := getLsbD_makedev M m i
  rw [if_neg (by omega), if_neg (by omega)] at bit
  rw [← BitVec.getLsbD, bit]
  split
  · exact noMinor _ (by omega)
  · exact noMajor _ (by omega)

end Bits

/-- What the 32-bit device argument of the kernel's `mknod` keeps of a `dev_t`. -/
def deviceArgument (d : BitVec 64) : BitVec 32 := d.setWidth 32

/-- **Device numbers are packed without loss**: decoding undoes `makedev`, `makedev` undoes
decoding, and small numbers fit the argument of the kernel's `mknod`. -/
theorem packed_without_loss :
    (∀ M m : BitVec 32, major (Sys.makedev M m) = M ∧ minor (Sys.makedev M m) = m) ∧
      (∀ d : BitVec 64, Sys.makedev (major d) (minor d) = d) ∧
      ∀ M m : BitVec 32, M.toNat < 2 ^ 12 → m.toNat < 2 ^ 20 →
        (Sys.makedev M m).toNat < 2 ^ 32 ∧
          (deviceArgument (Sys.makedev M m)).setWidth 64 = Sys.makedev M m := by
  refine ⟨fun M m => ⟨major_makedev M m, minor_makedev M m⟩, makedev_major_minor, ?_⟩
  intro M m smallMajor smallMinor
  have small := makedev_small smallMajor smallMinor
  refine ⟨small, ?_⟩
  apply BitVec.eq_of_toNat_eq
  rw [deviceArgument, BitVec.toNat_setWidth, BitVec.toNat_setWidth, Nat.mod_eq_of_lt small,
    Nat.mod_eq_of_lt (Sys.makedev M m).isLt]

theorem packed_without_loss_on_a_disk :
    (Sys.makedev 259 0x12345).toNat < 2 ^ 32 ∧
      (deviceArgument (Sys.makedev 259 0x12345)).setWidth 64 = Sys.makedev 259 0x12345 :=
  packed_without_loss.2.2 259 0x12345 (by decide) (by decide)

end Zevory
