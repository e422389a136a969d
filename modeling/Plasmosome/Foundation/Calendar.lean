import Mathlib

/-!
# The Gregorian calendar

Dates of the proleptic Gregorian calendar, numbered by counting the years, months
and days that lie between them and the start of 1970, and the instants of a day.
-/

namespace Foundation.Calendar

/-- Every fourth year is a leap year, except the centuries that 400 does not divide. -/
def Leap (year : Nat) : Prop := 4 ∣ year ∧ (¬ 100 ∣ year ∨ 400 ∣ year)

instance : DecidablePred Leap := fun _ => inferInstanceAs (Decidable (_ ∧ _))

def yearLength (year : Nat) : Nat := if Leap year then 366 else 365

def monthLength (year : Nat) : Nat → Nat
  | 2 => if Leap year then 29 else 28
  | 4 | 6 | 9 | 11 => 30
  | _ => 31

structure Date where
  year : Nat
  month : Nat
  day : Nat
  since1970 : 1970 ≤ year
  month_mem : 1 ≤ month ∧ month ≤ 12
  day_mem : 1 ≤ day ∧ day ≤ monthLength year month

namespace Date

/-- The number of days from the start of 1970 to a date. -/
def number (date : Date) : Nat :=
  (∑ year ∈ Finset.Ico 1970 date.year, yearLength year) +
    (∑ month ∈ Finset.Ico 1 date.month, monthLength date.year month) + (date.day - 1)

/-- One date comes before another. -/
def Before (first second : Date) : Prop :=
  first.year < second.year ∨ first.year = second.year ∧
    (first.month < second.month ∨ first.month = second.month ∧ first.day < second.day)

theorem before_or_eq_or_before (first second : Date) :
    first.Before second ∨ first = second ∨ second.Before first := by
  rcases first with ⟨year, month, day, _, _, _⟩
  rcases second with ⟨year', month', day', _, _, _⟩
  simp only [Before, mk.injEq]
  omega

end Date

/-! ## Counting days -/

theorem sum_yearLength {year : Nat} (hyear : 1970 ≤ year) :
    (∑ past ∈ Finset.Ico 1970 year, yearLength past) + 719162 + (year - 1) / 100 =
      365 * (year - 1) + (year - 1) / 4 + (year - 1) / 400 := by
  induction year, hyear using Nat.le_induction with
  | base => rfl
  | succ year hyear ih =>
      rw [Finset.sum_Ico_succ_top hyear, yearLength]
      by_cases hleap : Leap year
      · rw [if_pos hleap]
        unfold Leap at hleap
        omega
      · rw [if_neg hleap]
        unfold Leap at hleap
        omega

/-- Counted from March, the months before the `n`th hold `(153 * n + 2) / 5` days. -/
theorem sum_monthLength_to_march (year : Nat) {month : Nat} (hmonth : 1 ≤ month ∧ month ≤ 2) :
    (∑ past ∈ Finset.Ico 1 month, monthLength year past) + 306 = (153 * (month + 9) + 2) / 5 := by
  obtain ⟨hfirst, hlast⟩ := hmonth
  interval_cases month <;> simp [monthLength]

theorem sum_monthLength_from_march (year : Nat) {month : Nat} (hmonth : 3 ≤ month ∧ month ≤ 12) :
    (∑ past ∈ Finset.Ico 1 month, monthLength year past) =
      (153 * (month - 3) + 2) / 5 + if Leap year then 60 else 59 := by
  obtain ⟨hfirst, hlast⟩ := hmonth
  interval_cases month <;> simp [Finset.sum_Ico_succ_top, monthLength] <;> split <;> omega

theorem sum_monthLength_year (year : Nat) :
    (∑ month ∈ Finset.Ico 1 13, monthLength year month) = yearLength year := by
  simp [Finset.sum_Ico_succ_top, monthLength, yearLength]
  split <;> rfl

/-- The days of a month end before a later month begins. -/
theorem sum_monthLength_add_le (year : Nat) {month later : Nat} (hmonth : 1 ≤ month)
    (hlater : month < later) :
    (∑ past ∈ Finset.Ico 1 month, monthLength year past) + monthLength year month ≤
      ∑ past ∈ Finset.Ico 1 later, monthLength year past := by
  rw [← Finset.sum_Ico_succ_top hmonth]
  exact Finset.sum_le_sum_of_subset (Finset.Ico_subset_Ico_right hlater)

theorem sum_yearLength_add_le {year later : Nat} (hyear : 1970 ≤ year) (hlater : year < later) :
    (∑ past ∈ Finset.Ico 1970 year, yearLength past) + yearLength year ≤
      ∑ past ∈ Finset.Ico 1970 later, yearLength past := by
  rw [← Finset.sum_Ico_succ_top hyear]
  exact Finset.sum_le_sum_of_subset (Finset.Ico_subset_Ico_right hlater)

namespace Date

theorem day_le (date : Date) : date.day ≤ 31 := by
  refine date.day_mem.2.trans ?_
  unfold monthLength
  split <;> (try split) <;> omega

/-- A date lies within its month, and that within its year. -/
theorem day_in_year (date : Date) :
    (∑ month ∈ Finset.Ico 1 date.month, monthLength date.year month) + date.day ≤
      yearLength date.year := by
  have hmonths := sum_monthLength_add_le date.year date.month_mem.1
    (Nat.lt_succ_of_le date.month_mem.2)
  rw [Nat.succ_eq_add_one, sum_monthLength_year] at hmonths
  have hday := date.day_mem.2
  omega

/-- A date comes before the next year. -/
theorem number_lt_year (date : Date) :
    date.number < ∑ year ∈ Finset.Ico 1970 (date.year + 1), yearLength year := by
  have hinside := date.day_in_year
  have hday := date.day_mem
  rw [Finset.sum_Ico_succ_top date.since1970, number]
  omega

theorem number_lt_number {first second : Date} (hbefore : first.Before second) :
    first.number < second.number := by
  have hday := first.day_mem
  have hday' := second.day_mem
  rcases hbefore with hyear | ⟨hyear, hmonth | ⟨hmonth, hless⟩⟩
  · have hyears := sum_yearLength_add_le first.since1970 hyear
    have hinside := first.day_in_year
    simp only [number]
    omega
  · have hmonths := sum_monthLength_add_le first.year first.month_mem.1 hmonth
    simp only [number, ← hyear]
    omega
  · simp only [number, ← hyear, ← hmonth]
    omega

theorem number_injective : Function.Injective number := by
  intro first second heq
  rcases before_or_eq_or_before first second with hbefore | hsame | hbefore
  · exact absurd heq (number_lt_number hbefore).ne
  · exact hsame
  · exact absurd heq (number_lt_number hbefore).ne'

theorem before_of_number_lt {first second : Date} (hlt : first.number < second.number) :
    first.Before second := by
  rcases before_or_eq_or_before first second with hbefore | hsame | hbefore
  · exact hbefore
  · rw [hsame] at hlt
    exact absurd hlt (lt_irrefl _)
  · exact absurd hlt (number_lt_number hbefore).not_gt

end Date

/-! ## Instants -/

/-- A millisecond of a date. -/
structure Instant where
  date : Date
  hour : Nat
  minute : Nat
  second : Nat
  millis : Nat
  hour_lt : hour < 24
  minute_lt : minute < 60
  second_lt : second < 60
  millis_lt : millis < 1000

/-- The number of milliseconds from the start of 1970 to an instant. -/
def Instant.number (instant : Instant) : Nat :=
  (instant.date.number * 86400 + instant.hour * 3600 + instant.minute * 60 + instant.second) * 1000 +
    instant.millis

/-- Every number of milliseconds within a numbered day is an instant. -/
theorem Instant.exists_number {date : Date} {number : Nat}
    (hdate : date.number = number / 86400000) :
    ∃ instant : Instant, instant.date = date ∧ instant.hour = number % 86400000 / 3600000 ∧
      instant.minute = number % 86400000 / 60000 % 60 ∧
      instant.second = number % 86400000 / 1000 % 60 ∧
      instant.millis = number % 86400000 % 1000 ∧ instant.number = number := by
  refine ⟨⟨date, number % 86400000 / 3600000, number % 86400000 / 60000 % 60,
    number % 86400000 / 1000 % 60, number % 86400000 % 1000, by omega, by omega, by omega,
    by omega⟩, rfl, rfl, rfl, rfl, rfl, ?_⟩
  simp only [Instant.number, hdate]
  omega

namespace Instant

/-- One instant comes before another. -/
def Before (first second : Instant) : Prop :=
  first.date.Before second.date ∨ first.date = second.date ∧
    (first.hour < second.hour ∨ first.hour = second.hour ∧
      (first.minute < second.minute ∨ first.minute = second.minute ∧
        (first.second < second.second ∨ first.second = second.second ∧
          first.millis < second.millis)))

theorem before_of_number_lt {first second : Instant} (hlt : first.number < second.number) :
    first.Before second := by
  have hhour := first.hour_lt
  have hminute := first.minute_lt
  have hsecond := first.second_lt
  have hmillis := first.millis_lt
  have hhour' := second.hour_lt
  have hminute' := second.minute_lt
  have hsecond' := second.second_lt
  have hmillis' := second.millis_lt
  simp only [number] at hlt
  rcases Nat.lt_trichotomy first.date.number second.date.number with hdate | hdate | hdate
  · exact Or.inl (Date.before_of_number_lt hdate)
  · refine Or.inr ⟨Date.number_injective hdate, ?_⟩
    rw [hdate] at hlt
    omega
  · omega

theorem number_injective : Function.Injective number := by
  rintro ⟨date, hour, minute, second, millis, _, _, _, _⟩
    ⟨date', hour', minute', second', millis', _, _, _, _⟩ heq
  simp only [number] at heq
  have hdate : date.number = date'.number := by omega
  obtain rfl := Date.number_injective hdate
  obtain rfl : hour = hour' := by omega
  obtain rfl : minute = minute' := by omega
  obtain rfl : second = second' := by omega
  obtain rfl : millis = millis' := by omega
  rfl

end Instant

end Foundation.Calendar
