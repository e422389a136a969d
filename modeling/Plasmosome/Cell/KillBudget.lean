import Plasmosome.Backend.Duration

/-!
# The budget of a kill

A kill has one deadline, counted from the arrival of its request. Each of its
steps is granted a share of what is left past a fixed reserve when the step
asks, so a run in which every step keeps to its share leaves the reserve whole.
-/

namespace Plasmosome.Cell

open Backend Duration

/-- A clock reading, in nanoseconds from the earliest a platform can hold to its latest. -/
@[ext]
structure Instant (latest : Nat) where
  nanos : Nat
  held : nanos ≤ latest
deriving DecidableEq

namespace Instant

variable {latest : Nat}

instance : LE (Instant latest) := ⟨fun first second => first.nanos ≤ second.nanos⟩

def saturatingDurationSince (later earlier : Instant latest) : Duration :=
  ofNanos (later.nanos - earlier.nanos)

def checkedAdd (instant : Instant latest) (span : Duration) : Option (Instant latest) :=
  if held : instant.nanos + span.asNanos ≤ latest then some ⟨_, held⟩ else none

end Instant

theorem noNanos : 0 < 1000000000 := by decide

def mostLockReserve : Duration := ⟨3, ⟨0, noNanos⟩⟩
def mostWorkloadStop : Duration := ⟨5, ⟨0, noNanos⟩⟩

def atLeastOneMs (duration : Duration) : Option Duration :=
  let whole := duration.wholeMs
  if whole < MS then none else some whole

inductive Share (Parts : Type) where
  | run (parts : Parts)
  | noBudget
deriving DecidableEq, Repr

inductive WorkloadStop where
  | run (share : Duration)
  | noBudget
  | skipped
deriving DecidableEq, Repr

structure Withdrawal where
  share : Duration
  drain : Duration
  effect : Duration
  publication : Duration
deriving DecidableEq, Repr

def WorkloadStop.granted : WorkloadStop → Duration
  | .run share => share
  | .noBudget | .skipped => Duration.zero

def Share.granted : Share Withdrawal → Duration
  | .run parts => parts.share
  | .noBudget => Duration.zero

structure GuestStop where
  drain : DrainSpec
  answerWait : Duration
deriving DecidableEq, Repr

/-- The deadline of one kill. Its clock is the reading each call takes. -/
structure KillBudget (latest : Nat) where
  arrival : Instant latest
  total : Duration
  now : Bool

namespace KillBudget

variable {latest : Nat}

def remaining (budget : KillBudget latest) (clock : Instant latest) : Duration :=
  let elapsed := clock.saturatingDurationSince budget.arrival
  budget.total.saturatingSub elapsed

def lockReserve (budget : KillBudget latest) : Duration :=
  (budget.total.div 10).clamp MS mostLockReserve

def spendable (budget : KillBudget latest) (clock : Instant latest) : Duration :=
  (budget.remaining clock).saturatingSub budget.lockReserve

def workloadStop (budget : KillBudget latest) (clock : Instant latest) : WorkloadStop :=
  if budget.now then .skipped
  else
    let cap := (budget.total.div 10).clamp MS mostWorkloadStop
    (atLeastOneMs (min cap ((budget.spendable clock).div 3))).elim .noBudget .run

/-- The parts of a withdrawal's share, if each has a millisecond. A half and a quarter are at
most the whole, so no subtraction falls below zero. -/
def withdrawalParts (share : Duration) : Option Withdrawal := do
  let drain := share.div 2
  let effect := share.div 4
  let drainPart ← atLeastOneMs drain
  let effectPart ← atLeastOneMs effect
  let publicationPart ← atLeastOneMs ((share.saturatingSub drain).saturatingSub effect)
  return { share := share.wholeMs, drain := drainPart, effect := effectPart
           publication := publicationPart }

def withdrawal (budget : KillBudget latest) (clock : Instant latest) : Share Withdrawal :=
  (withdrawalParts ((budget.spendable clock).div 2)).elim .noBudget .run

def guestStop (budget : KillBudget latest) (clock : Instant latest) : GuestStop :=
  let answerWait := (max (budget.spendable clock) MS).wholeMs
  let drain :=
    if budget.now then ⟨MS, .force⟩
    else
      let teardown := max MS (answerWait.div 4)
      DrainSpec.graceful (max (answerWait.saturatingSub teardown) MS).wholeMs
  { drain, answerWait }

/-- Halves the span until the instant it reaches can be held, or the fuel is out. -/
def lockWaitFrom (arrival : Instant latest) : Nat → Duration → Option (Instant latest)
  | 0, _ => none
  | fuel + 1, span =>
      (arrival.checkedAdd span).orElse fun _ => lockWaitFrom arrival fuel (span.div 2)

def lockWaitUntil (budget : KillBudget latest) (fuel : Nat) : Option (Instant latest) :=
  lockWaitFrom budget.arrival fuel budget.total

/-! ## What each share is -/

theorem atLeastOneMs_eq_some {duration share : Duration}
    (hshare : atLeastOneMs duration = some share) :
    MS ≤ duration ∧ WholeMillis share ∧ share.asNanos = duration.asNanos / 1000000 * 1000000 := by
  unfold atLeastOneMs at hshare
  obtain ⟨hleast, heq⟩ := Option.ite_none_left_eq_some.mp hshare
  cases heq
  have hduration : MS ≤ duration := by
    simp only [lt_iff, le_iff, asNanos_wholeMs, asNanos_MS] at hleast ⊢
    omega
  exact ⟨hduration, wholeMillis_wholeMs hduration, asNanos_wholeMs _⟩

/-- With time to spend, that much and the reserve are left before the deadline. -/
theorem spendable_fits (budget : KillBudget latest) (clock : Instant latest)
    (hspendable : MS ≤ budget.spendable clock) :
    (clock.nanos - budget.arrival.nanos) + (budget.spendable clock).asNanos +
      budget.lockReserve.asNanos ≤ budget.total.asNanos := by
  have htotal := budget.total.asNanos_le
  simp only [spendable, remaining, Instant.saturatingDurationSince, le_iff, asNanos_MS,
    asNanos_saturatingSub, asNanos_ofNanos_eq_min] at hspendable ⊢
  omega

theorem workloadStop_eq_run {budget : KillBudget latest} {clock : Instant latest}
    {share : Duration} (hstop : budget.workloadStop clock = .run share) :
    WholeMillis share ∧ share ≤ budget.spendable clock := by
  rw [workloadStop] at hstop
  split at hstop
  · cases hstop
  · dsimp only at hstop
    cases hshare : atLeastOneMs (min ((budget.total.div 10).clamp MS mostWorkloadStop)
        ((budget.spendable clock).div 3)) with
    | none =>
        rw [hshare] at hstop
        cases hstop
    | some found =>
        rw [hshare] at hstop
        cases hstop
        obtain ⟨-, hwhole, hnanos⟩ := atLeastOneMs_eq_some hshare
        refine ⟨hwhole, ?_⟩
        rw [asNanos_min, asNanos_div] at hnanos
        rw [le_iff]
        omega

theorem withdrawalParts_eq_some {share : Duration} {parts : Withdrawal}
    (hparts : withdrawalParts share = some parts) :
    (WholeMillis parts.share ∧ WholeMillis parts.drain ∧ WholeMillis parts.effect ∧
      WholeMillis parts.publication) ∧
      parts.drain.asNanos + parts.effect.asNanos + parts.publication.asNanos ≤
        parts.share.asNanos ∧
      parts.share ≤ share := by
  simp only [withdrawalParts, Option.bind_eq_bind, Option.bind_eq_some_iff] at hparts
  obtain ⟨drain, hdrain, effect, heffect, publication, hpublication, hparts⟩ := hparts
  obtain ⟨hleast, hdrainWhole, hdrainNanos⟩ := atLeastOneMs_eq_some hdrain
  obtain ⟨-, heffectWhole, heffectNanos⟩ := atLeastOneMs_eq_some heffect
  obtain ⟨-, hpublicationWhole, hpublicationNanos⟩ := atLeastOneMs_eq_some hpublication
  rw [le_iff, asNanos_MS, asNanos_div] at hleast
  rw [asNanos_div] at hdrainNanos heffectNanos
  rw [asNanos_saturatingSub, asNanos_saturatingSub, asNanos_div, asNanos_div] at hpublicationNanos
  have hshare : MS ≤ share := by
    rw [le_iff, asNanos_MS]
    omega
  cases hparts
  refine ⟨⟨wholeMillis_wholeMs hshare, hdrainWhole, heffectWhole, hpublicationWhole⟩, ?_, ?_⟩
  · -- whole milliseconds of the parts are at most those of their sum
    dsimp only
    rw [asNanos_wholeMs, hdrainNanos, heffectNanos, hpublicationNanos]
    omega
  · rw [le_iff, asNanos_wholeMs]
    omega

theorem withdrawal_eq_run {budget : KillBudget latest} {clock : Instant latest}
    {parts : Withdrawal} (hwithdrawal : budget.withdrawal clock = .run parts) :
    (WholeMillis parts.share ∧ WholeMillis parts.drain ∧ WholeMillis parts.effect ∧
      WholeMillis parts.publication) ∧
      parts.drain.asNanos + parts.effect.asNanos + parts.publication.asNanos ≤
        parts.share.asNanos ∧
      parts.share ≤ budget.spendable clock := by
  rw [withdrawal] at hwithdrawal
  cases hparts : withdrawalParts ((budget.spendable clock).div 2) with
  | none =>
      rw [hparts] at hwithdrawal
      cases hwithdrawal
  | some found =>
      rw [hparts] at hwithdrawal
      cases hwithdrawal
      obtain ⟨hwhole, hsum, hshare⟩ := withdrawalParts_eq_some hparts
      refine ⟨hwhole, hsum, ?_⟩
      rw [le_iff, asNanos_div] at hshare
      rw [le_iff]
      omega

theorem guestStop_answerWait (budget : KillBudget latest) (clock : Instant latest) :
    WholeMillis (budget.guestStop clock).answerWait ∧
      (MS ≤ budget.spendable clock →
        (budget.guestStop clock).answerWait ≤ budget.spendable clock) := by
  refine ⟨wholeMillis_wholeMs ?_, fun hspendable => ?_⟩
  · rw [le_iff, asNanos_max]
    omega
  · simp only [guestStop, le_iff, asNanos_wholeMs, asNanos_max, asNanos_MS] at hspendable ⊢
    omega

theorem guestStop_drain (budget : KillBudget latest) (clock : Instant latest) :
    WholeMillis (budget.guestStop clock).drain.deadline ∧
      (budget.guestStop clock).drain.deadline ≤ (budget.guestStop clock).answerWait := by
  obtain ⟨⟨millis, hmillis, hwait⟩, -⟩ := budget.guestStop_answerWait clock
  cases hnow : budget.now with
  | true =>
      simp only [guestStop, hnow, if_true] at hwait ⊢
      refine ⟨wholeMillis_MS, ?_⟩
      rw [le_iff, hwait, asNanos_MS]
      omega
  | false =>
      simp only [guestStop, hnow, Bool.false_eq_true, if_false, DrainSpec.graceful] at hwait ⊢
      refine ⟨wholeMillis_wholeMs ?_, ?_⟩
      · rw [le_iff, asNanos_max]
        omega
      · rw [le_iff, asNanos_wholeMs, asNanos_max, asNanos_saturatingSub, hwait, asNanos_MS]
        omega

theorem checkedAdd_of_fits {arrival : Instant latest} {span : Duration}
    (hfits : arrival.nanos + span.asNanos ≤ latest) :
    arrival.checkedAdd span = some ⟨arrival.nanos + span.asNanos, hfits⟩ := by
  rw [Instant.checkedAdd, dif_pos hfits]

theorem checkedAdd_of_overflows {arrival : Instant latest} {span : Duration}
    (hover : ¬arrival.nanos + span.asNanos ≤ latest) : arrival.checkedAdd span = none := by
  rw [Instant.checkedAdd, dif_neg hover]

theorem lockWaitFrom_of_fits {arrival : Instant latest} {span : Duration}
    (hfits : arrival.nanos + span.asNanos ≤ latest) (fuel : Nat) :
    lockWaitFrom arrival (fuel + 1) span = some ⟨arrival.nanos + span.asNanos, hfits⟩ := by
  rw [lockWaitFrom, checkedAdd_of_fits hfits, Option.orElse_some]

/-- The wait ends: an empty span reaches the arrival itself. Where the whole span cannot be
held it still reaches half as far as the latest instant that can be. -/
theorem lockWaitFrom_eq_some (arrival : Instant latest) (fuel : Nat) (span : Duration)
    (hfuel : span.asNanos < fuel) :
    ∃ until_, (∀ more, lockWaitFrom arrival (fuel + more) span = some until_) ∧
      (arrival.nanos + span.asNanos ≤ latest → until_.nanos = arrival.nanos + span.asNanos) ∧
      (latest < arrival.nanos + span.asNanos →
        latest - arrival.nanos ≤ 2 * (until_.nanos - arrival.nanos)) := by
  induction fuel generalizing span with
  | zero => exact absurd hfuel (Nat.not_lt_zero _)
  | succ fuel ih =>
      by_cases hfits : arrival.nanos + span.asNanos ≤ latest
      · refine ⟨⟨_, hfits⟩, fun more => ?_, fun _ => rfl, fun hover => ?_⟩
        · rw [Nat.add_right_comm]
          exact lockWaitFrom_of_fits hfits (fuel + more)
        · exact absurd hfits (Nat.not_le.mpr hover)
      · have hadd := checkedAdd_of_overflows hfits
        have hheld := arrival.held
        have hhalf := asNanos_div span 2
        generalize hnanos : span.asNanos = nanos at *
        obtain ⟨until_, huntil, hreached, hfar⟩ := ih (span.div 2) (by omega)
        refine ⟨until_, fun more => ?_, fun h => absurd h hfits, fun _ => ?_⟩
        · rw [Nat.add_right_comm, lockWaitFrom, hadd, Option.orElse_none]
          exact huntil more
        · rw [hhalf] at hreached hfar
          by_cases hhalfFits : arrival.nanos + nanos / 2 ≤ latest
          · have hend := hreached hhalfFits
            omega
          · exact hfar (Nat.lt_of_not_le hhalfFits)

end KillBudget

/-! ## Runs of a kill -/

inductive KillStep where
  | workloadStop
  | withdrawal
  | guestStop
deriving DecidableEq, Repr

namespace KillBudget

variable {latest : Nat}

/-- What a step asking at a reading is granted, zero when it has no budget or is skipped. -/
def granted (budget : KillBudget latest) (clock : Instant latest) : KillStep → Duration
  | .workloadStop => (budget.workloadStop clock).granted
  | .withdrawal => (budget.withdrawal clock).granted
  | .guestStop => (budget.guestStop clock).answerWait

/-- The three steps ask in order, each after any queueing, and each ends within its share. -/
structure Kept (budget : KillBudget latest) (asked ended : KillStep → Instant latest) : Prop where
  arrived : budget.arrival ≤ asked .workloadStop
  consumed : ∀ step, asked step ≤ ended step ∧
    (ended step).nanos ≤ (asked step).nanos + (budget.granted (asked step) step).asNanos
  withdrawn : ended .workloadStop ≤ asked .withdrawal
  stopped : ended .withdrawal ≤ asked .guestStop

theorem granted_le_spendable (budget : KillBudget latest) (clock : Instant latest)
    (hspendable : MS ≤ budget.spendable clock) (step : KillStep) :
    budget.granted clock step ≤ budget.spendable clock := by
  cases step with
  | workloadStop =>
      rw [granted]
      cases hstop : budget.workloadStop clock with
      | run share => exact (workloadStop_eq_run hstop).2
      | noBudget => exact Nat.zero_le _
      | skipped => exact Nat.zero_le _
  | withdrawal =>
      rw [granted]
      cases hwithdrawal : budget.withdrawal clock with
      | run parts => exact (withdrawal_eq_run hwithdrawal).2.2
      | noBudget => exact Nat.zero_le _
  | guestStop => exact (budget.guestStop_answerWait clock).2 hspendable

/-- A kill whose steps keep to their shares never overspends its deadline: at each step with a
millisecond to spend, the share and the reserve fit in what is left, when it asks and when it
ends. The parts of a share fit in it, and every duration granted is whole milliseconds. -/
theorem kept_within_deadline (budget : KillBudget latest)
    (asked ended : KillStep → Instant latest) (hkept : budget.Kept asked ended) :
    (∀ step, MS ≤ budget.spendable (asked step) →
      ((asked step).nanos - budget.arrival.nanos) + (budget.granted (asked step) step).asNanos +
          budget.lockReserve.asNanos ≤ budget.total.asNanos ∧
        ((ended step).nanos - budget.arrival.nanos) + budget.lockReserve.asNanos ≤
          budget.total.asNanos) ∧
    (∀ share, budget.workloadStop (asked .workloadStop) = .run share → WholeMillis share) ∧
    (∀ parts, budget.withdrawal (asked .withdrawal) = .run parts →
      (WholeMillis parts.share ∧ WholeMillis parts.drain ∧ WholeMillis parts.effect ∧
        WholeMillis parts.publication) ∧
      parts.drain.asNanos + parts.effect.asNanos + parts.publication.asNanos ≤
        parts.share.asNanos) ∧
    (WholeMillis (budget.guestStop (asked .guestStop)).answerWait ∧
      WholeMillis (budget.guestStop (asked .guestStop)).drain.deadline ∧
      (budget.guestStop (asked .guestStop)).drain.deadline ≤
        (budget.guestStop (asked .guestStop)).answerWait ∧
      ∀ shutdown, (budget.guestStop (asked .guestStop)).drain.shutdownDeadline = some shutdown →
        WholeMillis shutdown ∧ shutdown < (budget.guestStop (asked .guestStop)).drain.deadline) ∧
    ∃ until_, (∀ fuel, budget.total.asNanos < fuel → budget.lockWaitUntil fuel = some until_) ∧
      (budget.arrival.nanos + budget.total.asNanos ≤ latest →
        until_.nanos = budget.arrival.nanos + budget.total.asNanos) := by
  refine ⟨?_, ?_, ?_, ?_, ?_⟩
  · intro step hspendable
    have hgranted := le_iff.mp (budget.granted_le_spendable (asked step) hspendable step)
    have hfits := budget.spendable_fits (asked step) hspendable
    obtain ⟨-, hended⟩ := hkept.consumed step
    have harrived : budget.arrival.nanos ≤ (asked step).nanos := by
      have hfirst : budget.arrival.nanos ≤ (asked .workloadStop).nanos := hkept.arrived
      have hsecond : (ended .workloadStop).nanos ≤ (asked .withdrawal).nanos := hkept.withdrawn
      have hthird : (ended .withdrawal).nanos ≤ (asked .guestStop).nanos := hkept.stopped
      have hlasts : ∀ step, (asked step).nanos ≤ (ended step).nanos :=
        fun step => (hkept.consumed step).1
      have hworkload := hlasts .workloadStop
      have hwithdrawal := hlasts .withdrawal
      cases step with
      | workloadStop => omega
      | withdrawal => omega
      | guestStop => omega
    omega
  · intro share hshare
    exact (workloadStop_eq_run hshare).1
  · intro parts hparts
    obtain ⟨hwhole, hsum, -⟩ := withdrawal_eq_run hparts
    exact ⟨hwhole, hsum⟩
  · obtain ⟨hdrain, hle⟩ := budget.guestStop_drain (asked .guestStop)
    exact ⟨(budget.guestStop_answerWait (asked .guestStop)).1, hdrain, hle,
      fun _ => DrainSpec.shutdownDeadline_eq_some⟩
  · obtain ⟨until_, huntil, hreached, -⟩ :=
      lockWaitFrom_eq_some budget.arrival (budget.total.asNanos + 1) budget.total
        (Nat.lt_succ_self _)
    refine ⟨until_, fun fuel hfuel => ?_, hreached⟩
    obtain ⟨more, rfl⟩ := Nat.exists_eq_add_of_le hfuel
    exact huntil more

/-- A kill of thirty seconds asked for at once, whose steps each take a second after a second of
queueing. -/
def thirtySeconds : KillBudget 60000000000 := ⟨⟨0, Nat.zero_le _⟩, ⟨30, ⟨0, noNanos⟩⟩, false⟩

def askedAt : KillStep → Instant 60000000000
  | .workloadStop => ⟨1000000000, by decide⟩
  | .withdrawal => ⟨3000000000, by decide⟩
  | .guestStop => ⟨5000000000, by decide⟩

def endedAt : KillStep → Instant 60000000000
  | .workloadStop => ⟨2000000000, by decide⟩
  | .withdrawal => ⟨4000000000, by decide⟩
  | .guestStop => ⟨6000000000, by decide⟩

theorem kept_within_deadline_thirtySeconds :
    3000000000 + (thirtySeconds.granted (askedAt .withdrawal) .withdrawal).asNanos +
        thirtySeconds.lockReserve.asNanos ≤ thirtySeconds.total.asNanos ∧
      6000000000 + thirtySeconds.lockReserve.asNanos ≤ thirtySeconds.total.asNanos ∧
      thirtySeconds.lockWaitUntil 30000000001 = some ⟨30000000000, by decide⟩ := by
  have hkept : thirtySeconds.Kept askedAt endedAt := by
    refine ⟨by decide +kernel, fun step => ?_, by decide +kernel, by decide +kernel⟩
    cases step <;> decide +kernel
  obtain ⟨hfits, -, -, -, until_, huntil, hreached⟩ :=
    kept_within_deadline thirtySeconds _ _ hkept
  refine ⟨?_, ?_, ?_⟩
  · have hwithdrawal := (hfits .withdrawal (by decide +kernel)).1
    rwa [show thirtySeconds.arrival.nanos = 0 from rfl, Nat.sub_zero] at hwithdrawal
  · have hstopped := (hfits .guestStop (by decide +kernel)).2
    rwa [show thirtySeconds.arrival.nanos = 0 from rfl, Nat.sub_zero] at hstopped
  · have hend : until_.nanos = 30000000000 := hreached (by decide +kernel)
    rw [huntil 30000000001 (by decide +kernel)]
    exact congrArg some (Instant.ext hend)

end KillBudget

end Plasmosome.Cell
