import Plasmosome.Backend.Bound

/-!
# One deadline in four readings

The time left on a bound is one integer. Whether the bound passed, how many
milliseconds remain and where it falls on the wait clock all read that integer.
-/

namespace Plasmosome.Backend.Lifetime

open Foundation

/-- The nanoseconds left on the reading with less time left, as an exact integer. -/
def timeLeft (bound : Bound) (now : ClockReading) : Int :=
  let wall := ((bound.notAfter.unixMs.toNat : Int) - now.wall.unixMs.toNat) * nsPerMs
  if now.continuous.boot = bound.continuous.boot then
    min wall ((bound.continuous.ns.toNat : Int) - now.continuous.ns.toNat)
  else wall

/-- Where a bound and so many milliseconds fall on the wait clock. -/
def fallsAt (bound : Bound) (now : ClockReading) (extraMs : UInt64) : Int :=
  now.wait.ns + (timeLeft bound now + extraMs.toNat * nsPerMs)

/-- The later reading is of the same boot session and not behind on the continuous clock. -/
def NotBefore (earlier later : ClockReading) : Prop :=
  later.continuous.boot = earlier.continuous.boot ∧ earlier.continuous.ns ≤ later.continuous.ns

namespace Bound

/-! ## The time left -/

theorem timeLeft_bounds (bound : Bound) (now : ClockReading) :
    -2 ^ 64 * nsPerMs ≤ timeLeft bound now ∧ timeLeft bound now ≤ 2 ^ 64 * nsPerMs := by
  have hafter := bound.notAfter.unixMs.toNat_lt
  have hwall := now.wall.unixMs.toNat_lt
  have hdeadline := bound.continuous.ns.toNat_lt
  have hreading := now.continuous.ns.toNat_lt
  unfold timeLeft nsPerMs
  dsimp only
  split <;> omega

theorem remainingNs_eq (bound : Bound) (now : ClockReading) :
    bound.remainingNs now = some (timeLeft bound now) := by
  have hafter := bound.notAfter.unixMs.toNat_lt
  have hwall := now.wall.unixMs.toNat_lt
  have hdeadline := bound.continuous.ns.toNat_lt
  have hreading := now.continuous.ns.toNat_lt
  have hms : I128.sub bound.notAfter.unixMs.toNat now.wall.unixMs.toNat =
      some ((bound.notAfter.unixMs.toNat : Int) - now.wall.unixMs.toNat) :=
    I128.sub_fits (by omega) (by omega)
  have hns : I128.mul ((bound.notAfter.unixMs.toNat : Int) - now.wall.unixMs.toNat) nsPerMs =
      some (((bound.notAfter.unixMs.toNat : Int) - now.wall.unixMs.toNat) * nsPerMs) := by
    refine I128.mul_fits ?_ ?_ <;> rw [nsPerMs] <;> omega
  have hleft : I128.sub bound.continuous.ns.toNat now.continuous.ns.toNat =
      some ((bound.continuous.ns.toNat : Int) - now.continuous.ns.toNat) :=
    I128.sub_fits (by omega) (by omega)
  simp only [remainingNs, timeLeft, hms, hns, hleft, Option.bind_eq_bind, Option.bind_some]
  by_cases hboot : now.continuous.boot = bound.continuous.boot
  · rw [if_neg (not_not_intro hboot), if_pos hboot]
  · rw [if_pos hboot, if_neg hboot]

/-- A bound has passed when no time is left. -/
theorem passed_iff {bound : Bound} {now : ClockReading} :
    bound.passed now = true ↔ timeLeft bound now ≤ 0 := by
  unfold passed timeLeft nsPerMs
  rw [Bool.or_eq_true, Bool.and_eq_true, decide_eq_true_eq, decide_eq_true_eq, decide_eq_true_eq,
    UInt64.le_iff_toNat_le, UInt64.le_iff_toNat_le]
  dsimp only
  split
  next hboot => simp only [hboot, true_and]; omega
  next hboot => simp only [hboot, false_and, or_false]; omega

theorem remainingMs_eq_zero (bound : Bound) (now : ClockReading) :
    ∃ ms, bound.remainingMs now = some ms ∧ (ms = 0 ↔ bound.passed now = true) := by
  rw [passed_iff, remainingMs, remainingNs_eq]
  refine ⟨_, rfl, ?_⟩
  rw [← UInt64.toNat_inj]
  have hzero :
      ((timeLeft bound now).toNat + (nsPerMs - 1)) / nsPerMs = 0 ↔ timeLeft bound now ≤ 0 := by
    rw [nsPerMs]
    omega
  rw [← hzero]
  split
  next hfits => rw [UInt64.toNat_ofNat_of_lt' hfits]; rfl
  next hlarge =>
    rw [UInt64.toNat_ofNat_of_lt' (by decide)]
    simp only [UInt64.size] at hlarge ⊢
    constructor
    · intro hmax
      cases hmax
    · intro hnone
      omega

/-! ## The wait clock -/

theorem waitDeadline_eq (bound : Bound) (now : ClockReading) (extraMs : UInt64) :
    bound.waitDeadline now extraMs =
      some ((WaitInstant.ofNs (fallsAt bound now extraMs)).getD now.wait) := by
  have hleft := timeLeft_bounds bound now
  have hextra := extraMs.toNat_lt
  have hmul : I128.mul extraMs.toNat nsPerMs = some ((extraMs.toNat : Int) * nsPerMs) := by
    refine I128.mul_fits ?_ ?_ <;> rw [nsPerMs] <;> omega
  have hadd : I128.add (timeLeft bound now) ((extraMs.toNat : Int) * nsPerMs) =
      some (timeLeft bound now + extraMs.toNat * nsPerMs) := by
    rw [nsPerMs] at hleft ⊢
    exact I128.add_fits (by omega) (by omega)
  simp only [waitDeadline, remainingNs_eq, hmul, hadd, Option.bind_eq_bind, Option.bind_some]
  obtain ⟨shift, hshift⟩ : ∃ shift, timeLeft bound now + extraMs.toNat * nsPerMs = shift := ⟨_, rfl⟩
  have hnanos : (Duration.ofNs shift.natAbs).asNanos = shift.natAbs := by
    refine Duration.asNanos_ofNs ?_
    rw [nsPerMs] at hleft hshift
    rw [nsPerSecond, UInt64.size]
    omega
  rw [fallsAt, hshift]
  split
  next hahead =>
    rw [WaitInstant.checkedAdd, hnanos, Int.natAbs_of_nonneg hahead]
  next hbehind =>
    rw [WaitInstant.checkedSub, hnanos, Int.ofNat_natAbs_of_nonpos (by omega), Int.sub_neg]

theorem waitDeadline_held {bound : Bound} {now : ClockReading} {extraMs : UInt64}
    (held : Representable (fallsAt bound now extraMs)) :
    bound.waitDeadline now extraMs = some ⟨fallsAt bound now extraMs, held⟩ := by
  rw [waitDeadline_eq, WaitInstant.ofNs_held held, Option.getD_some]

theorem waitDeadline_unheld {bound : Bound} {now : ClockReading} {extraMs : UInt64}
    (hlarge : ¬Representable (fallsAt bound now extraMs)) :
    bound.waitDeadline now extraMs = some now.wait := by
  rw [waitDeadline_eq, WaitInstant.ofNs_eq_none hlarge, Option.getD_none]

/-- Every deadline seen from an instant in the middle half of the range is an instant. -/
theorem fallsAt_held {bound : Bound} {now : ClockReading} {extraMs : UInt64}
    (hlow : -2 ^ 62 * nsPerSecond ≤ now.wait.ns) (hhigh : now.wait.ns ≤ 2 ^ 62 * nsPerSecond) :
    Representable (fallsAt bound now extraMs) := by
  have hleft := timeLeft_bounds bound now
  have hextra := extraMs.toNat_lt
  simp only [Representable, fallsAt, nsPerMs, nsPerSecond] at *
  omega

theorem fallsAt_zero_le {bound : Bound} {now : ClockReading} :
    fallsAt bound now 0 ≤ now.wait.ns ↔ bound.passed now = true := by
  rw [passed_iff, fallsAt, UInt64.toNat_zero]
  omega

/-! ## The earlier of two bounds -/

section Earlier

variable {first second : Bound} (hboot : first.continuous.boot = second.continuous.boot)

include hboot

theorem timeLeft_earlier (now : ClockReading) :
    timeLeft (first.earlier second) now = min (timeLeft first now) (timeLeft second now) := by
  have hmin : (min first.continuous.ns second.continuous.ns).toNat =
      min first.continuous.ns.toNat second.continuous.ns.toNat := by
    change (if first.continuous.ns ≤ second.continuous.ns then first.continuous.ns
      else second.continuous.ns).toNat = _
    rw [min_def]
    simp only [UInt64.le_iff_toNat_le]
    split <;> rfl
  unfold earlier
  rw [if_neg (not_not_intro hboot)]
  simp only [timeLeft, hmin, ← hboot, UInt64.lt_iff_toNat_lt, nsPerMs]
  split <;> split <;> omega

theorem passed_earlier (now : ClockReading) :
    (first.earlier second).passed now = (first.passed now || second.passed now) := by
  rw [Bool.eq_iff_iff, Bool.or_eq_true, passed_iff, passed_iff, passed_iff,
    timeLeft_earlier hboot, min_le_iff]

theorem fallsAt_earlier (now : ClockReading) (extraMs : UInt64) :
    fallsAt (first.earlier second) now extraMs =
      min (fallsAt first now extraMs) (fallsAt second now extraMs) := by
  rw [fallsAt, fallsAt, fallsAt, timeLeft_earlier hboot]
  omega

end Earlier

/-! ## A kept fence -/

section Fence

variable {bound kept : Bound} {fence : ClockReading} (hkept : bound.fenced fence = some kept)

include hkept

/-- A kept bound keeps its wall deadline, and its continuous deadline is reached at the fence. -/
theorem fenced_reached : kept.notAfter = bound.notAfter ∧
    kept.continuous.boot = fence.continuous.boot ∧ kept.continuous.ns ≤ fence.continuous.ns := by
  rw [fenced, waitDeadline_eq] at hkept
  cases hkept
  refine ⟨rfl, rfl, ?_⟩
  have hfence := fence.continuous.ns.toNat_lt
  rw [UInt64.le_iff_toNat_le, UInt64.toNat_ofNat_of_lt' (by rw [UInt64.size]; omega)]
  omega

theorem passed_fenced {later : ClockReading} (hlater : NotBefore fence later) :
    kept.passed later = true := by
  obtain ⟨-, hboot, hreached⟩ := fenced_reached hkept
  rw [passed, Bool.or_eq_true, Bool.and_eq_true, decide_eq_true_eq, decide_eq_true_eq,
    decide_eq_true_eq]
  exact Or.inr ⟨hlater.1.trans hboot.symm, UInt64.le_trans hreached hlater.2⟩

/-- Unless it saturates, the continuous deadline is where the bound fell. -/
theorem fenced_ns (hheld : Representable (fallsAt bound fence 0))
    (hroom : -timeLeft bound fence ≤ fence.continuous.ns.toNat) :
    (kept.continuous.ns.toNat : Int) ≤ fence.continuous.ns.toNat + timeLeft bound fence ∨
      (kept.continuous.ns = fence.continuous.ns ∧ 0 ≤ timeLeft bound fence) := by
  have hfence := fence.continuous.ns.toNat_lt
  have hreached := (fenced_reached hkept).2.2
  rw [fenced, waitDeadline_held hheld] at hkept
  cases hkept
  rw [← UInt64.toNat_inj, UInt64.toNat_ofNat_of_lt' (by rw [UInt64.size]; omega)]
  simp only [fallsAt, UInt64.toNat_zero]
  omega

/-- On an awake host a kept bound falls no later than it did at the fence. -/
theorem fallsAt_fenced (hheld : Representable (fallsAt bound fence 0))
    (hroom : -timeLeft bound fence ≤ fence.continuous.ns.toNat) {later : ClockReading}
    (hlater : NotBefore fence later)
    (hawake : later.wait.ns - fence.wait.ns =
      (later.continuous.ns.toNat : Int) - fence.continuous.ns.toNat) (extraMs : UInt64) :
    fallsAt kept later extraMs ≤ fallsAt bound fence extraMs := by
  have hns := fenced_ns hkept hheld hroom
  have hboot := hlater.1.trans (fenced_reached hkept).2.1.symm
  have hleft : timeLeft kept later ≤
      (kept.continuous.ns.toNat : Int) - later.continuous.ns.toNat := by
    unfold timeLeft
    dsimp only
    rw [if_pos hboot]
    exact min_le_right _ _
  rw [fallsAt, fallsAt]
  rcases hns with hns | ⟨hsame, hahead⟩
  · omega
  · rw [hsame] at hleft
    omega

end Fence

/-- No reading of a bound overflows. Milliseconds remain until it has passed, and its wait
deadline is the exact instant, at or before the reading when it has passed. Within one boot
session the earlier of two bounds passes with either and has the earlier deadline. A fence kept
where the bound fell stays passed, and on an awake host its wait deadline is never later. -/
theorem bound_is_one_deadline :
    (∀ bound now, ∃ ms, remainingMs bound now = some ms ∧ (ms = 0 ↔ passed bound now = true)) ∧
    (∀ bound now extraMs, ∃ deadline, waitDeadline bound now extraMs = some deadline ∧
      deadline.ns = if Representable (fallsAt bound now extraMs) then fallsAt bound now extraMs
        else now.wait.ns) ∧
    (∀ bound now, Representable (fallsAt bound now 0) →
      ∃ deadline, waitDeadline bound now 0 = some deadline ∧
        (deadline.ns ≤ now.wait.ns ↔ passed bound now = true)) ∧
    (∀ (bound : Bound) (now : ClockReading) extraMs, -2 ^ 62 * nsPerSecond ≤ now.wait.ns →
      now.wait.ns ≤ 2 ^ 62 * nsPerSecond → Representable (fallsAt bound now extraMs)) ∧
    (∀ first second : Bound, first.continuous.boot = second.continuous.boot → ∀ now,
      (first.earlier second).passed now = (first.passed now || second.passed now) ∧
      ∀ extraMs, Representable (fallsAt first now extraMs) →
        Representable (fallsAt second now extraMs) →
        ∃ firstAt secondAt earlierAt, first.waitDeadline now extraMs = some firstAt ∧
          second.waitDeadline now extraMs = some secondAt ∧
          (first.earlier second).waitDeadline now extraMs = some earlierAt ∧
          earlierAt.ns = min firstAt.ns secondAt.ns) ∧
    (∀ bound fence, ∃ kept, fenced bound fence = some kept ∧
      (∀ later, NotBefore fence later → kept.passed later = true) ∧
      (Representable (fallsAt bound fence 0) →
        -timeLeft bound fence ≤ fence.continuous.ns.toNat →
        ∀ later, NotBefore fence later →
          later.wait.ns - fence.wait.ns =
            (later.continuous.ns.toNat : Int) - fence.continuous.ns.toNat →
          ∀ extraMs, Representable (fallsAt bound fence extraMs) →
            Representable (fallsAt kept later extraMs) →
            ∃ before after, bound.waitDeadline fence extraMs = some before ∧
              kept.waitDeadline later extraMs = some after ∧ after.ns ≤ before.ns)) := by
  refine ⟨remainingMs_eq_zero, fun bound now extraMs => ?_, fun bound now held => ?_,
    fun bound now extraMs => fallsAt_held, fun first second hboot now => ?_,
    fun bound fence => ?_⟩
  · by_cases held : Representable (fallsAt bound now extraMs)
    · exact ⟨_, waitDeadline_held held, by rw [if_pos held]⟩
    · exact ⟨_, waitDeadline_unheld held, by rw [if_neg held]⟩
  · exact ⟨_, waitDeadline_held held, fallsAt_zero_le⟩
  · refine ⟨passed_earlier hboot now, fun extraMs hfirst hsecond => ?_⟩
    have hmin := fallsAt_earlier hboot now extraMs
    have hheld : Representable (fallsAt (first.earlier second) now extraMs) := by
      rw [hmin, min_def]
      split
      · exact hfirst
      · exact hsecond
    exact ⟨_, _, _, waitDeadline_held hfirst, waitDeadline_held hsecond, waitDeadline_held hheld,
      hmin⟩
  · have hsome : ∃ kept, fenced bound fence = some kept := by
      rw [fenced, waitDeadline_eq]
      exact ⟨_, rfl⟩
    obtain ⟨kept, hkept⟩ := hsome
    refine ⟨kept, hkept, fun later => passed_fenced hkept,
      fun hzero hroom later hlater hawake extraMs hbefore hafter => ?_⟩
    exact ⟨_, _, waitDeadline_held hbefore, waitDeadline_held hafter,
      fallsAt_fenced hkept hzero hroom hlater hawake extraMs⟩

end Bound

end Plasmosome.Backend.Lifetime
