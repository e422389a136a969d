import Plasmosome.Backend.Lifetime

/-!
# Text and milliseconds agree

The day arithmetic is the counting of the Gregorian calendar in both directions, so
instants and their texts correspond and order alike.
-/

namespace Plasmosome.Backend.Lifetime

open Foundation Foundation.Calendar

/-! ## Counting days -/

theorem isLeap_eq (year : Nat) : isLeap year = decide (Leap year) := by
  rw [Bool.eq_iff_iff, decide_eq_true_iff]
  simp only [isLeap, Leap, Bool.and_eq_true, Bool.or_eq_true, beq_iff_eq, bne_iff_ne]
  omega

theorem daysInMonth_eq (year month : Nat) : daysInMonth year month = monthLength year month := by
  have hfebruary : (if isLeap year then 29 else 28) = if Leap year then 29 else 28 := by
    simp only [isLeap_eq, decide_eq_true_eq]
  unfold daysInMonth
  rw [hfebruary]
  rfl

theorem marchYear_bind {α : Type} {next : Nat → Option α} {year month march : Nat}
    (hyear : 1 ≤ year) (hmarch : march = if month ≤ 2 then year - 1 else year) :
    (marchYear year month >>= next) = next march := by
  unfold marchYear
  rw [hmarch]
  split
  next => exact Words.sub_bind hyear
  next => rfl

theorem monthAfterMarch_bind {α : Type} {next : Nat → Option α} {shifted month : Nat}
    (hshifted : shifted < 12) (hmonth : month = if shifted < 10 then shifted + 3 else shifted - 9) :
    (monthAfterMarch shifted >>= next) = next month := by
  unfold monthAfterMarch
  rw [hmonth]
  split
  next => exact Words.add_bind (by omega)
  next => exact Words.sub_bind (by omega)

/-- Years grouped in eras of 400 hold the days that leap years add to 365 a year. -/
theorem era_days (year : Nat) :
    year / 400 * 146097 + (year % 400 * 365 + year % 400 / 4 - year % 400 / 100) + year / 100 =
      365 * year + year / 4 + year / 400 := by
  omega

theorem daysSinceEpoch_fits {year month day : Nat} (hyear : 1970 ≤ year ∧ year ≤ 9999)
    (hmonth : 1 ≤ month ∧ month ≤ 12) (hday : 1 ≤ day ∧ day ≤ 31) {march : Nat}
    (hmarch : march = if month ≤ 2 then year - 1 else year) :
    daysSinceEpoch year month day =
      some (365 * march + march / 4 + march / 400 - march / 100 +
        ((153 * ((month + 9) % 12) + 2) / 5 + day - 1) - 719468) := by
  have hbounds : 1969 ≤ march ∧ march ≤ 9999 := by
    rw [hmarch]
    split <;> omega
  have hjanuary : march = 1969 → 10 ≤ (month + 9) % 12 := by
    intro hearly
    split at hmarch <;> omega
  have hera := era_days march
  rw [daysSinceEpoch, marchYear_bind (by omega) hmarch, Words.add_bind (by omega),
    Words.mul_bind (by omega), Words.add_bind (by omega), Words.add_bind (by omega),
    Words.sub_bind (by omega), Words.mul_bind (by omega), Words.add_bind (by omega),
    Words.sub_bind (by omega), Words.add_bind (by omega), Words.mul_bind (by omega),
    Words.add_bind (by omega)]
  have hlarge : 719468 ≤ 365 * march + march / 4 + march / 400 - march / 100 +
      ((153 * ((month + 9) % 12) + 2) / 5 + day - 1) := by
    rcases Nat.eq_or_lt_of_le hbounds.1 with hfirst | hlater
    · have hshifted := hjanuary hfirst.symm
      rw [← hfirst]
      omega
    · omega
  rw [Words.sub_fits (by omega)]
  refine congrArg some ?_
  omega

/-- A year is a leap year when the counts of leap years differ before and after it. -/
theorem leap_day {year : Nat} (hyear : 1 ≤ year) :
    year / 4 + year / 400 + (year - 1) / 100 =
      (year - 1) / 4 + (year - 1) / 400 + year / 100 + if Leap year then 1 else 0 := by
  by_cases hleap : Leap year
  · rw [if_pos hleap]
    unfold Leap at hleap
    omega
  · rw [if_neg hleap]
    unfold Leap at hleap
    omega

/-- The day arithmetic counts the days of the calendar. -/
theorem daysSinceEpoch_eq (date : Date) (hyear : date.year ≤ 9999) :
    daysSinceEpoch date.year date.month date.day = some date.number := by
  have hlate := date.since1970
  have hmonth := date.month_mem
  have hday := date.day_mem
  have hyears := sum_yearLength hlate
  rw [daysSinceEpoch_fits ⟨hlate, hyear⟩ hmonth ⟨hday.1, date.day_le⟩ rfl, Date.number]
  refine congrArg some ?_
  rcases Nat.lt_or_ge 2 date.month with hlater | hearly
  · have hmonths := sum_monthLength_from_march date.year ⟨hlater, hmonth.2⟩
    have hleap := leap_day (show 1 ≤ date.year by omega)
    have hshifted : (date.month + 9) % 12 = date.month - 3 := by omega
    rw [if_neg (by omega), hshifted, hmonths]
    split
    next hyes =>
      rw [if_pos hyes] at hleap
      omega
    next hno =>
      rw [if_neg hno] at hleap
      omega
  · have hmonths := sum_monthLength_to_march date.year ⟨hmonth.1, hearly⟩
    have hshifted : (date.month + 9) % 12 = date.month + 9 := by omega
    rw [if_pos hearly, hshifted]
    omega

/-! ## Dates of days -/

/-- The year, counted from March, of a day of an era. -/
def yearOfDay (dayOfEra : Nat) : Nat :=
  (dayOfEra - dayOfEra / 1460 + dayOfEra / 36524 - dayOfEra / 146096) / 365

theorem yearOfDay_century {dayOfEra : Nat} (hday : dayOfEra < 146096) :
    yearOfDay dayOfEra =
        (dayOfEra - dayOfEra / 1460 + dayOfEra / 36524) / 365 ∧
      yearOfDay dayOfEra / 100 = dayOfEra / 36524 := by
  have hwithin : dayOfEra / 146096 = 0 := Nat.div_eq_of_lt hday
  have hcentury : dayOfEra / 36524 < 4 := by omega
  have hyear : yearOfDay dayOfEra = (dayOfEra - dayOfEra / 1460 + dayOfEra / 36524) / 365 := by
    rw [yearOfDay, hwithin, Nat.sub_zero]
  refine ⟨hyear, ?_⟩
  rw [hyear]
  obtain ⟨century, heq⟩ : ∃ century, dayOfEra / 36524 = century := ⟨_, rfl⟩
  rw [heq] at hcentury ⊢
  interval_cases century <;> omega

/-- A day of an era lies within its year: the last day of the year is a leap day. -/
theorem yearOfDay_bounds {dayOfEra year : Nat} (hday : dayOfEra < 146097)
    (hyear : year = yearOfDay dayOfEra) :
    year ≤ 399 ∧ 365 * year + year / 4 - year / 100 ≤ dayOfEra ∧
      (dayOfEra < 365 * year + year / 4 - year / 100 + 365 ∨
        dayOfEra = 365 * year + year / 4 - year / 100 + 365 ∧ year % 4 = 3 ∧
          (year % 100 ≠ 99 ∨ year = 399)) := by
  rcases Nat.lt_or_ge dayOfEra 146096 with hwithin | hlast
  · obtain ⟨hformula, hcentury⟩ := yearOfDay_century hwithin
    rw [← hyear] at hformula hcentury
    have hsmall : dayOfEra / 36524 < 4 := by omega
    obtain ⟨century, heq⟩ : ∃ century, dayOfEra / 36524 = century := ⟨_, rfl⟩
    rw [heq] at hformula hcentury hsmall
    interval_cases century <;> omega
  · have hend : dayOfEra = 146096 := by omega
    rw [hyear, hend]
    decide

/-- The month and day of a day of a year that begins in March. -/
theorem month_bounds {dayOfYear shifted : Nat} (hday : dayOfYear ≤ 365)
    (hshifted : shifted = (5 * dayOfYear + 2) / 153) :
    shifted < 12 ∧ (153 * shifted + 2) / 5 ≤ dayOfYear := by
  omega

theorem civilFromDays_fits {days dayOfEra year dayOfYear shifted month : Nat}
    (hdays : days < 2 ^ 40) (hera : dayOfEra = (days + 719468) % 146097)
    (hyear : year = yearOfDay dayOfEra)
    (hyearDay : dayOfYear = dayOfEra - (365 * year + year / 4 - year / 100))
    (hshifted : shifted = (5 * dayOfYear + 2) / 153)
    (hmonth : month = if shifted < 10 then shifted + 3 else shifted - 9) :
    civilFromDays days =
      some ((days + 719468) / 146097 * 400 + year + (if month ≤ 2 then 1 else 0), month,
        dayOfYear - (153 * shifted + 2) / 5 + 1) := by
  have hinEra : dayOfEra < 146097 := by
    rw [hera]
    exact Nat.mod_lt _ (by decide)
  obtain ⟨hlast, hstart, hlength⟩ := yearOfDay_bounds hinEra hyear
  have hshort : dayOfYear ≤ 365 := by omega
  obtain ⟨hmonths, hbefore⟩ := month_bounds hshort hshifted
  have hleap : (if month ≤ 2 then 1 else 0) ≤ 1 := by split <;> decide
  unfold yearOfDay at hyear
  rw [civilFromDays, Words.add_bind (by omega)]
  simp only [← hera]
  rw [Words.sub_bind (by omega), Words.add_bind (by omega), Words.sub_bind (by omega), ← hyear,
    Words.mul_bind (by omega), Words.add_bind (by omega), Words.sub_bind (by omega),
    Words.sub_bind (by omega), ← hyearDay, Words.mul_bind (by omega), Words.add_bind (by omega),
    ← hshifted, Words.mul_bind (by omega), Words.add_bind (by omega), Words.sub_bind (by omega),
    Words.add_bind (by omega), monthAfterMarch_bind hmonths hmonth, Words.mul_bind (by omega),
    Words.add_bind (by omega), Words.add_bind (by omega)]

/-- The date of a day of a year that begins in March. -/
theorem date_of_march {march dayOfYear shifted month : Nat} (hmarch : 1969 ≤ march)
    (hepoch : march = 1969 → 306 ≤ dayOfYear)
    (hlength : dayOfYear < 365 ∨ dayOfYear = 365 ∧ Leap (march + 1))
    (hshifted : shifted = (5 * dayOfYear + 2) / 153)
    (hmonth : month = if shifted < 10 then shifted + 3 else shifted - 9) :
    ∃ date : Date, date.year = march + (if month ≤ 2 then 1 else 0) ∧ date.month = month ∧
      date.day = dayOfYear - (153 * shifted + 2) / 5 + 1 ∧
      date.number + 719468 + march / 100 = 365 * march + march / 4 + march / 400 + dayOfYear := by
  obtain ⟨hmonths, hbefore⟩ := month_bounds (show dayOfYear ≤ 365 by omega) hshifted
  rcases Nat.lt_or_ge shifted 10 with hearly | hlate
  · rw [if_pos hearly] at hmonth
    have hinYear : 1 ≤ month ∧ month ≤ 12 := by omega
    have hsince : 1970 ≤ march := by omega
    have hyear : march + (if month ≤ 2 then 1 else 0) = march := by
      rw [if_neg (by omega), Nat.add_zero]
    have hday : dayOfYear - (153 * shifted + 2) / 5 + 1 ≤ monthLength march month := by
      rw [hmonth]
      interval_cases shifted <;> simp [monthLength] <;> omega
    have hpast := sum_monthLength_from_march march (show 3 ≤ month ∧ month ≤ 12 by omega)
    have hoffset : month - 3 = shifted := by omega
    have hyears := sum_yearLength hsince
    have hleap := leap_day (show 1 ≤ march by omega)
    refine ⟨⟨march, month, dayOfYear - (153 * shifted + 2) / 5 + 1, hsince, hinYear,
      ⟨Nat.succ_pos _, hday⟩⟩, hyear.symm, rfl, rfl, ?_⟩
    rw [hoffset] at hpast
    simp only [Date.number]
    clear hshifted hlength hday hepoch hinYear hyear hmonths hmonth hearly hoffset
    -- Every quotient is now only a count, so what is left is linear.
    generalize (153 * shifted + 2) / 5 = before at *
    generalize march / 4 = fourths, march / 100 = hundredths, march / 400 = fourHundredths at *
    generalize (march - 1) / 4 = fourthsBefore, (march - 1) / 100 = hundredthsBefore,
      (march - 1) / 400 = fourHundredthsBefore at *
    split at hpast
    next hyes =>
      rw [if_pos hyes] at hleap
      omega
    next hno =>
      rw [if_neg hno] at hleap
      omega
  · rw [if_neg (by omega)] at hmonth
    have hinYear : 1 ≤ month ∧ month ≤ 12 := by omega
    have hsince : 1970 ≤ march + 1 := by omega
    have hyear : march + (if month ≤ 2 then 1 else 0) = march + 1 := by
      rw [if_pos (by omega)]
    have hday : dayOfYear - (153 * shifted + 2) / 5 + 1 ≤ monthLength (march + 1) month := by
      rw [hmonth]
      obtain rfl | rfl : shifted = 10 ∨ shifted = 11 := by omega
      · simp only [monthLength]
        omega
      · simp only [monthLength]
        split
        next => omega
        next hno =>
          rcases hlength with hcommon | ⟨_, hyes⟩
          · omega
          · exact absurd hyes hno
    have hpast := sum_monthLength_to_march (march + 1) (show 1 ≤ month ∧ month ≤ 2 by omega)
    have hoffset : month + 9 = shifted := by omega
    have hyears := sum_yearLength hsince
    refine ⟨⟨march + 1, month, dayOfYear - (153 * shifted + 2) / 5 + 1, hsince, hinYear,
      ⟨Nat.succ_pos _, hday⟩⟩, hyear.symm, rfl, rfl, ?_⟩
    rw [hoffset] at hpast
    simp only [Date.number]
    rw [Nat.add_sub_cancel] at hyears
    clear hshifted hlength hday hepoch hinYear hyear hmonths hmonth hlate hoffset
    generalize (153 * shifted + 2) / 5 = before at *
    generalize march / 4 = fourths, march / 100 = hundredths, march / 400 = fourHundredths at *
    omega

/-- Every number of days is that of a date, which the date arithmetic finds. -/
theorem civilFromDays_eq {days : Nat} (hdays : days < 2 ^ 40) :
    ∃ date : Date, date.number = days ∧
      civilFromDays days = some (date.year, date.month, date.day) := by
  obtain ⟨dayOfEra, hera⟩ : ∃ dayOfEra, dayOfEra = (days + 719468) % 146097 := ⟨_, rfl⟩
  obtain ⟨year, hyear⟩ : ∃ year, year = yearOfDay dayOfEra := ⟨_, rfl⟩
  obtain ⟨dayOfYear, hyearDay⟩ :
      ∃ dayOfYear, dayOfYear = dayOfEra - (365 * year + year / 4 - year / 100) := ⟨_, rfl⟩
  obtain ⟨shifted, hshifted⟩ : ∃ shifted, shifted = (5 * dayOfYear + 2) / 153 := ⟨_, rfl⟩
  obtain ⟨month, hmonth⟩ :
      ∃ month, month = if shifted < 10 then shifted + 3 else shifted - 9 := ⟨_, rfl⟩
  obtain ⟨march, hmarch⟩ : ∃ march, march = (days + 719468) / 146097 * 400 + year := ⟨_, rfl⟩
  obtain ⟨hlast, hstart, hlength⟩ := yearOfDay_bounds (by omega) hyear
  have htotal := era_days march
  have hinEra : march % 400 = year := by omega
  have hwhole : march / 400 = (days + 719468) / 146097 := by omega
  have hcount : days + 719468 + march / 100 =
      365 * march + march / 4 + march / 400 + dayOfYear := by
    rw [hinEra, hwhole] at htotal
    omega
  have hmonthLength : dayOfYear < 365 ∨ dayOfYear = 365 ∧ Leap (march + 1) := by
    unfold Leap
    omega
  have hlate : 1969 ≤ march := by
    by_contra hearly
    omega
  have hepoch : march = 1969 → 306 ≤ dayOfYear := by
    rintro rfl
    omega
  obtain ⟨date, hdateYear, hdateMonth, hdateDay, hnumber⟩ :=
    date_of_march hlate hepoch hmonthLength hshifted hmonth
  refine ⟨date, by omega, ?_⟩
  rw [civilFromDays_fits hdays hera hyear hyearDay hshifted hmonth, hdateYear, hdateMonth,
    hdateDay, hmarch]

end Plasmosome.Backend.Lifetime
