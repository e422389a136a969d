import Mathlib

/-!
# Checked 64-bit arithmetic

Sums that report overflow instead of wrapping, and casts that are exact on the
numbers that fit.
-/

namespace Foundation

/-- The sum of two 64-bit numbers, or `none` when it does not fit. -/
def checkedAdd (first second : UInt64) : Option UInt64 :=
  if first.toNat + second.toNat < UInt64.size then some (first + second) else none

theorem checkedAdd_eq_some {first second sum : UInt64} :
    checkedAdd first second = some sum ↔ sum.toNat = first.toNat + second.toNat := by
  have hsum := sum.toNat_lt
  unfold checkedAdd
  split
  next hfits =>
    have hadd : (first + second).toNat = first.toNat + second.toNat := by
      rw [UInt64.toNat_add, Nat.mod_eq_of_lt hfits]
    rw [Option.some.injEq, ← UInt64.toNat_inj, hadd, eq_comm]
  next hlarge =>
    constructor
    · rintro ⟨⟩
    · intro heq
      exact absurd (heq ▸ hsum) hlarge

theorem checkedAdd_eq_none {first second : UInt64} :
    checkedAdd first second = none ↔ UInt64.size ≤ first.toNat + second.toNat := by
  unfold checkedAdd
  split <;> simp <;> omega

theorem toNat_ofNat_of_fits {value : Nat} (hvalue : value < UInt64.size) :
    (UInt64.ofNat value).toNat = value :=
  UInt64.toNat_ofNat_of_lt' hvalue

/-- The sum of two 64-bit numbers, or the largest when it does not fit. -/
def saturatingAdd (first second : UInt64) : UInt64 :=
  (checkedAdd first second).getD (UInt64.ofNat (UInt64.size - 1))

theorem toNat_saturatingAdd (first second : UInt64) :
    (saturatingAdd first second).toNat = min (first.toNat + second.toNat) (UInt64.size - 1) := by
  rw [saturatingAdd]
  cases hsum : checkedAdd first second with
  | some sum =>
      have hfits := sum.toNat_lt
      have hadd := checkedAdd_eq_some.mp hsum
      rw [Option.getD_some]
      simp only [UInt64.size] at *
      omega
  | none =>
      have hlarge := checkedAdd_eq_none.mp hsum
      have hmax := toNat_ofNat_of_fits (show UInt64.size - 1 < UInt64.size by decide)
      rw [Option.getD_none, hmax]
      omega

end Foundation
