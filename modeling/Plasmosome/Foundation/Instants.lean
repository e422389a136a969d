import Mathlib

/-!
# Signed words and instants

Checked arithmetic within 128 signed bits, spans of time in seconds and nanoseconds, and
instants of a clock that holds signed 64-bit seconds.
-/

namespace Foundation

/-! ## Signed words -/

namespace I128

/-- The number itself when 128 signed bits hold it. -/
def check (value : Int) : Option Int :=
  if -2 ^ 127 ≤ value ∧ value < 2 ^ 127 then some value else none

def add (first second : Int) : Option Int := check (first + second)

def sub (first second : Int) : Option Int := check (first - second)

def mul (first second : Int) : Option Int := check (first * second)

variable {first second : Int}

theorem add_fits (hlow : -2 ^ 127 ≤ first + second) (hhigh : first + second < 2 ^ 127) :
    add first second = some (first + second) := if_pos ⟨hlow, hhigh⟩

theorem sub_fits (hlow : -2 ^ 127 ≤ first - second) (hhigh : first - second < 2 ^ 127) :
    sub first second = some (first - second) := if_pos ⟨hlow, hhigh⟩

theorem mul_fits (hlow : -2 ^ 127 ≤ first * second) (hhigh : first * second < 2 ^ 127) :
    mul first second = some (first * second) := if_pos ⟨hlow, hhigh⟩

end I128

/-! ## Spans of time -/

def nsPerSecond : Nat := 1000000000

structure Duration where
  seconds : UInt64
  nanos : UInt32
  carried : nanos.toNat < nsPerSecond

namespace Duration

def asNanos (duration : Duration) : Nat :=
  duration.seconds.toNat * nsPerSecond + duration.nanos.toNat

/-- A span of so many nanoseconds, its seconds cut off at the largest of 64 bits. -/
def ofNs (ns : Nat) : Duration where
  seconds :=
    if ns / nsPerSecond < UInt64.size then UInt64.ofNat (ns / nsPerSecond)
    else UInt64.ofNat (UInt64.size - 1)
  nanos := UInt32.ofNat (ns % nsPerSecond)
  carried := by
    have hrest := Nat.mod_lt ns (show 0 < nsPerSecond by decide)
    rw [UInt32.toNat_ofNat_of_lt' (hrest.trans (by decide))]
    exact hrest

theorem asNanos_ofNs {ns : Nat}
    (hns : ns / nsPerSecond < UInt64.size) : (ofNs ns).asNanos = ns := by
  have hrest := Nat.mod_lt ns (show 0 < nsPerSecond by decide)
  rw [asNanos, ofNs, if_pos hns, UInt64.toNat_ofNat_of_lt' hns,
    UInt32.toNat_ofNat_of_lt' (hrest.trans (by decide)), Nat.div_add_mod']

end Duration

/-! ## Instants -/

/-- The nanoseconds whose seconds a signed 64-bit number holds. -/
def Representable (ns : Int) : Prop := -2 ^ 63 * nsPerSecond ≤ ns ∧ ns < 2 ^ 63 * nsPerSecond

instance (ns : Int) : Decidable (Representable ns) := inferInstanceAs (Decidable (_ ∧ _))

structure WaitInstant where
  ns : Int
  held : Representable ns

namespace WaitInstant

def ofNs (ns : Int) : Option WaitInstant :=
  if held : Representable ns then some ⟨ns, held⟩ else none

def checkedAdd (instant : WaitInstant) (duration : Duration) : Option WaitInstant :=
  ofNs (instant.ns + duration.asNanos)

def checkedSub (instant : WaitInstant) (duration : Duration) : Option WaitInstant :=
  ofNs (instant.ns - duration.asNanos)

theorem ofNs_held {ns : Int} (held : Representable ns) : ofNs ns = some ⟨ns, held⟩ := dif_pos held

theorem ofNs_eq_none {ns : Int} (hlarge : ¬Representable ns) : ofNs ns = none := dif_neg hlarge

end WaitInstant

end Foundation
