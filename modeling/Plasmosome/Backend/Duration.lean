import Plasmosome.Backend.Contract

/-!
# Arithmetic of durations

Durations are compared, divided and subtracted as their numbers of nanoseconds.
Division truncates to a nanosecond, and subtraction stops at zero.
-/

namespace Plasmosome.Backend

namespace Duration

/-- The nanoseconds of the longest duration. -/
def maxNanos : Nat := UInt64.size * 1000000000 - 1

/-- The duration of a number of nanoseconds, or the longest one. -/
def ofNanos (nanos : Nat) : Duration :=
  ⟨UInt64.ofNat (min nanos maxNanos / 1000000000),
    ⟨min nanos maxNanos % 1000000000, Nat.mod_lt _ (by decide)⟩⟩

def MS : Duration := ⟨0, ⟨1000000, by decide⟩⟩

theorem asNanos_le (duration : Duration) : duration.asNanos ≤ maxNanos := by
  have hsecs := duration.secs.toNat_lt
  have hnanos := duration.subsecNanos.isLt
  simp only [asNanos, maxNanos, UInt64.size]
  omega

theorem asNanos_ofNanos_eq_min (nanos : Nat) : (ofNanos nanos).asNanos = min nanos maxNanos := by
  have hfits : min nanos maxNanos / 1000000000 < UInt64.size := by
    simp only [maxNanos, UInt64.size]
    omega
  simp only [ofNanos, asNanos, UInt64.toNat_ofNat_of_lt' hfits]
  omega

theorem asNanos_ofNanos {nanos : Nat} (hnanos : nanos ≤ maxNanos) :
    (ofNanos nanos).asNanos = nanos := by
  rw [asNanos_ofNanos_eq_min, min_eq_left hnanos]

theorem asNanos_injective : Function.Injective asNanos := by
  rintro ⟨secs, nanos⟩ ⟨secs', nanos'⟩ h
  have hnanos := nanos.isLt
  have hnanos' := nanos'.isLt
  simp only [asNanos] at h
  have hsecs : secs = secs' := UInt64.toNat_inj.mp (by omega)
  have hsub : nanos = nanos' := Fin.ext (by omega)
  rw [hsecs, hsub]

@[simp] theorem asNanos_MS : MS.asNanos = 1000000 := rfl

/-! Durations order as their nanoseconds do. -/

instance : LE Duration := ⟨fun first second => first.asNanos ≤ second.asNanos⟩
instance : LT Duration := ⟨fun first second => first.asNanos < second.asNanos⟩
instance : DecidableLE Duration := fun _ _ => Nat.decLe _ _
instance : DecidableLT Duration := fun _ _ => Nat.decLt _ _
instance : Min Duration := ⟨fun first second => if first ≤ second then first else second⟩
instance : Max Duration := ⟨fun first second => if first ≤ second then second else first⟩

theorem le_iff {first second : Duration} : first ≤ second ↔ first.asNanos ≤ second.asNanos :=
  Iff.rfl

theorem lt_iff {first second : Duration} : first < second ↔ first.asNanos < second.asNanos :=
  Iff.rfl

@[simp] theorem asNanos_min (first second : Duration) :
    (min first second).asNanos = min first.asNanos second.asNanos := by
  change (if first ≤ second then first else second).asNanos = _
  split
  next hle => exact (min_eq_left (le_iff.mp hle)).symm
  next hgt => exact (min_eq_right (Nat.le_of_lt (Nat.lt_of_not_le hgt))).symm

@[simp] theorem asNanos_max (first second : Duration) :
    (max first second).asNanos = max first.asNanos second.asNanos := by
  change (if first ≤ second then second else first).asNanos = _
  split
  next hle => exact (max_eq_right (le_iff.mp hle)).symm
  next hgt => exact (max_eq_left (Nat.le_of_lt (Nat.lt_of_not_le hgt))).symm

def clamp (duration low high : Duration) : Duration :=
  if duration < low then low else if high < duration then high else duration

def div (duration : Duration) (divisor : Nat) : Duration :=
  ofNanos (duration.asNanos / divisor)

@[simp] theorem asNanos_div (duration : Duration) (divisor : Nat) :
    (duration.div divisor).asNanos = duration.asNanos / divisor :=
  asNanos_ofNanos ((Nat.div_le_self _ _).trans duration.asNanos_le)

def saturatingSub (duration less : Duration) : Duration :=
  ofNanos (duration.asNanos - less.asNanos)

@[simp] theorem asNanos_saturatingSub (duration less : Duration) :
    (duration.saturatingSub less).asNanos = duration.asNanos - less.asNanos :=
  asNanos_ofNanos ((Nat.sub_le _ _).trans duration.asNanos_le)

def subsecMillis (duration : Duration) : Nat := duration.subsecNanos / 1000000

/-- The whole milliseconds of a duration. -/
def wholeMs (duration : Duration) : Duration :=
  ⟨duration.secs, ⟨duration.subsecMillis * 1000000, by
    have hnanos := duration.subsecNanos.isLt
    simp only [subsecMillis]
    omega⟩⟩

@[simp] theorem asNanos_wholeMs (duration : Duration) :
    duration.wholeMs.asNanos = duration.asNanos / 1000000 * 1000000 := by
  simp only [wholeMs, asNanos, subsecMillis]
  omega

/-- A whole number of milliseconds, at least one. -/
def WholeMillis (duration : Duration) : Prop :=
  ∃ millis, 1 ≤ millis ∧ duration.asNanos = millis * 1000000

theorem wholeMillis_MS : WholeMillis MS := ⟨1, le_rfl, rfl⟩

theorem wholeMillis_wholeMs {duration : Duration} (hduration : MS ≤ duration) :
    WholeMillis duration.wholeMs := by
  rw [le_iff, asNanos_MS] at hduration
  exact ⟨duration.asNanos / 1000000, by omega, duration.asNanos_wholeMs⟩

end Duration

namespace DrainSpec

open Duration

/-- The deadline a stop under this drain sends ahead of it, if it sends one. -/
def shutdownDeadline (drain : DrainSpec) : Option Duration :=
  match drain.policy with
  | .force => none
  | .graceful =>
      let left := drain.deadline.saturatingSub (max MS (drain.deadline.div 10))
      let whole := left.wholeMs
      if MS ≤ whole then some whole else none

/-- What is sent is whole milliseconds strictly below a deadline of its own. -/
theorem shutdownDeadline_eq_some {drain : DrainSpec} {shutdown : Duration}
    (hshutdown : drain.shutdownDeadline = some shutdown) :
    WholeMillis shutdown ∧ shutdown < drain.deadline := by
  unfold shutdownDeadline at hshutdown
  split at hshutdown
  · cases hshutdown
  · obtain ⟨hleast, heq⟩ := Option.ite_none_right_eq_some.mp hshutdown
    cases heq
    simp only [le_iff, lt_iff, asNanos_wholeMs, asNanos_saturatingSub, asNanos_max, asNanos_MS,
      asNanos_div] at hleast ⊢
    refine ⟨⟨_, ?_, asNanos_wholeMs _⟩, by omega⟩
    simp only [asNanos_saturatingSub, asNanos_max, asNanos_MS, asNanos_div]
    omega

end DrainSpec

end Plasmosome.Backend
