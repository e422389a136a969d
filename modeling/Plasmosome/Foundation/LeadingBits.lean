import Mathlib

/-!
# The leading bits of a word

A shift that reports a count past the width, and the mask of the first bits of a word.
Bits are counted from the most significant.
-/

namespace Foundation

variable {width : Nat}

/-- The word moved up by `count` bits, or `none` when the count is not below the width. -/
def checkedShl (word : BitVec width) (count : Nat) : Option (BitVec width) :=
  if count < width then some (word <<< count) else none

/-- The mask of the first `count` bits. `none` stands for the panic of the subtraction. -/
def leadingMask (width count : Nat) : Option (BitVec width) :=
  if count ≤ width then some ((checkedShl (BitVec.allOnes width) (width - count)).getD 0) else none

theorem leadingMask_of_le {count : Nat} (hcount : count ≤ width) :
    ∃ mask, leadingMask width count = some mask ∧
      ∀ index, mask.getLsbD index = decide (width - count ≤ index ∧ index < width) := by
  refine ⟨_, if_pos hcount, fun index => ?_⟩
  unfold checkedShl
  split
  next hshift =>
    rw [Option.getD_some, BitVec.getLsbD_shiftLeft, BitVec.getLsbD_allOnes, Bool.eq_iff_iff]
    simp only [Bool.and_eq_true, Bool.not_eq_true', decide_eq_true_eq, decide_eq_false_iff_not]
    omega
  next hshift =>
    rw [Option.getD_none]
    simp only [BitVec.ofNat_eq_ofNat, BitVec.getLsbD_zero, Bool.false_eq, decide_eq_false_iff_not]
    omega

theorem leadingMask_eq_none {count : Nat} : leadingMask width count = none ↔ width < count := by
  unfold leadingMask
  split <;> simp <;> omega

/-- The word with every bit after the first `count` clear. -/
def leadingBits (count : Nat) (word : BitVec width) : Option (BitVec width) :=
  (leadingMask width count).map (word &&& ·)

theorem leadingBits_eq_none {count : Nat} {word : BitVec width} :
    leadingBits count word = none ↔ width < count := by
  rw [leadingBits, Option.map_eq_none_iff, leadingMask_eq_none]

section Kept

variable {count : Nat} {word kept : BitVec width} (hkept : leadingBits count word = some kept)

include hkept

theorem leadingBits_fits : count ≤ width := by
  by_contra hlong
  rw [leadingBits_eq_none.mpr (by omega)] at hkept
  cases hkept

theorem getLsbD_leadingBits (index : Nat) :
    kept.getLsbD index = (word.getLsbD index && decide (width - count ≤ index ∧
      index < width)) := by
  obtain ⟨mask, hmask, hbits⟩ := leadingMask_of_le (leadingBits_fits hkept)
  rw [leadingBits, hmask, Option.map_some, Option.some.injEq] at hkept
  rw [← hkept, BitVec.getLsbD_and, hbits]

/-- The first bits are kept and the others clear. -/
theorem getMsbD_leadingBits (index : Nat) :
    kept.getMsbD index = (word.getMsbD index && decide (index < count)) := by
  have hcount := leadingBits_fits hkept
  rw [BitVec.getMsbD, BitVec.getMsbD, getLsbD_leadingBits hkept]
  by_cases hindex : index < width
  · have hsame :
        (width - count ≤ width - 1 - index ∧ width - 1 - index < width) ↔ index < count := by
      omega
    simp only [hindex, decide_true, Bool.true_and, hsame]
  · simp [hindex]

theorem leadingBits_leadingBits : leadingBits count kept = some kept := by
  obtain ⟨mask, hmask, hbits⟩ := leadingMask_of_le (leadingBits_fits hkept)
  rw [leadingBits, hmask, Option.map_some, Option.some.injEq] at hkept ⊢
  rw [← hkept, BitVec.and_assoc, BitVec.and_self]

/-- As a number, the word loses what is below the first bits. -/
theorem toNat_leadingBits :
    kept.toNat = word.toNat / 2 ^ (width - count) * 2 ^ (width - count) := by
  refine Nat.eq_of_testBit_eq fun index => ?_
  rw [BitVec.testBit_toNat, getLsbD_leadingBits hkept, Nat.testBit_mul_two_pow]
  by_cases hlow : width - count ≤ index
  · rw [Nat.testBit_div_two_pow, Nat.sub_add_cancel hlow, BitVec.testBit_toNat]
    by_cases hhigh : index < width
    · simp [hlow, hhigh]
    · simp [BitVec.getLsbD_of_ge word index (by omega)]
  · simp [hlow]

end Kept

/-- Two words with the same leading bits, the others clear, agree in their first bits. -/
theorem leadingBits_eq_iff {count : Nat} {word other : BitVec width}
    (hother : leadingBits count other = some other) :
    leadingBits count word = some other ↔
      ∀ index < count, word.getMsbD index = other.getMsbD index := by
  constructor
  · intro hword index hindex
    rw [getMsbD_leadingBits hword, decide_eq_true hindex, Bool.and_true]
  · intro hagree
    obtain ⟨mask, hmask, -⟩ := leadingMask_of_le (leadingBits_fits hother)
    have hkept : leadingBits count word = some (word &&& mask) := by
      rw [leadingBits, hmask, Option.map_some]
    rw [hkept, Option.some.injEq]
    refine BitVec.eq_of_getMsbD_eq fun index _ => ?_
    rw [getMsbD_leadingBits hkept, getMsbD_leadingBits hother]
    by_cases hindex : index < count
    · rw [hagree index hindex]
    · simp [hindex]

end Foundation
