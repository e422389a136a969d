import Mathlib

/-!
# Arithmetic within 64 bits

Sums, differences and products of numbers held in 64 bits, `none` where one
does not fit.
-/

namespace Foundation.Words

def add (first second : Nat) : Option Nat :=
  if first + second < UInt64.size then some (first + second) else none

def sub (first second : Nat) : Option Nat :=
  if second ≤ first then some (first - second) else none

def mul (first second : Nat) : Option Nat :=
  if first * second < UInt64.size then some (first * second) else none

theorem add_fits {first second : Nat} (hfits : first + second < 2 ^ 64) :
    add first second = some (first + second) := if_pos hfits

theorem sub_fits {first second : Nat} (hfits : second ≤ first) :
    sub first second = some (first - second) := if_pos hfits

theorem mul_fits {first second : Nat} (hfits : first * second < 2 ^ 64) :
    mul first second = some (first * second) := if_pos hfits

variable {α : Type} {next : Nat → Option α}

theorem add_bind {first second : Nat} (hfits : first + second < 2 ^ 64) :
    (add first second >>= next) = next (first + second) := by
  rw [add_fits hfits]
  rfl

theorem sub_bind {first second : Nat} (hfits : second ≤ first) :
    (sub first second >>= next) = next (first - second) := by
  rw [sub_fits hfits]
  rfl

theorem mul_bind {first second : Nat} (hfits : first * second < 2 ^ 64) :
    (mul first second >>= next) = next (first * second) := by
  rw [mul_fits hfits]
  rfl

end Foundation.Words
