import Plasmosome.Backend.LifetimeLaws

/-!
# Text and milliseconds agree

The accepted texts are those of the instants of the calendar, and the text of a
number of milliseconds is that of the instant it numbers.
-/

namespace Plasmosome.Backend.Lifetime

open Foundation Foundation.Calendar

/-- An instant to the second, without the last letter. -/
def stamp (instant : Instant) : List UInt8 :=
  Numerals.fixed 4 instant.date.year ++ dash :: (Numerals.fixed 2 instant.date.month ++
    dash :: (Numerals.fixed 2 instant.date.day ++ upperT :: (Numerals.fixed 2 instant.hour ++
      colon :: (Numerals.fixed 2 instant.minute ++ colon :: Numerals.fixed 2 instant.second))))

/-- What follows the seconds: a fraction, if there is one, and the last letter. -/
def ending (fraction : List UInt8) : List UInt8 :=
  (if fraction = [] then [] else dot :: fraction) ++ [upperZ]

/-- A fraction with zeros for the digits it is short of three. -/
def threeDigits (fraction : List UInt8) : List UInt8 :=
  fraction ++ List.replicate (3 - fraction.length) 48

/-- The text is that of an instant, with up to three digits of a fraction. -/
def Documented (text : List UInt8) (instant : Instant) : Prop :=
  ∃ fraction : List UInt8, fraction.length ≤ 3 ∧
    Numerals.read (threeDigits fraction) = some instant.millis ∧
    text = stamp instant ++ ending fraction

@[simp] theorem length_stamp (instant : Instant) : (stamp instant).length = 19 := by
  simp [stamp]

theorem length_ending (fraction : List UInt8) :
    (ending fraction).length = if fraction = [] then 1 else fraction.length + 2 := by
  unfold ending
  split
  next => rfl
  next => simp

/-! ## Milliseconds of an instant -/

/-- The last millisecond of the year 9999. -/
def lastMs : Nat := 253402300799999

theorem number_of_year {date : Date} (hyear : date.year ≤ 9999) : date.number ≤ 2932896 := by
  have hnext := date.number_lt_year
  have hlate := date.since1970
  have hyears := sum_yearLength (show 1970 ≤ date.year + 1 by omega)
  omega

theorem year_of_number {date : Date} (hnumber : date.number ≤ 2932896) : date.year ≤ 9999 := by
  by_contra hlate
  have hyears := sum_yearLength date.since1970
  simp only [Date.number] at hnumber
  omega

theorem number_le_lastMs {instant : Instant} (hyear : instant.date.year ≤ 9999) :
    instant.number ≤ lastMs := by
  have hdate := number_of_year hyear
  have hhour := instant.hour_lt
  have hminute := instant.minute_lt
  have hsecond := instant.second_lt
  have hmillis := instant.millis_lt
  simp only [Instant.number, lastMs]
  omega

theorem daysSinceEpoch_bind {α : Type} {next : Nat → Option α} {date : Date}
    (hyear : date.year ≤ 9999) :
    (daysSinceEpoch date.year date.month date.day >>= next) = next date.number := by
  rw [daysSinceEpoch_eq date hyear]
  rfl

theorem instantMs_eq (instant : Instant) (hyear : instant.date.year ≤ 9999) :
    instantMs instant.date.year instant.date.month instant.date.day instant.hour instant.minute
      instant.second instant.millis = some ⟨UInt64.ofNat instant.number⟩ := by
  have hdate := number_of_year hyear
  have hhour := instant.hour_lt
  have hminute := instant.minute_lt
  have hsecond := instant.second_lt
  have hmillis := instant.millis_lt
  rw [instantMs, daysSinceEpoch_bind hyear,
    Words.mul_bind (by omega), Words.mul_bind (by omega), Words.mul_bind (by omega),
    Words.add_bind (by omega), Words.add_bind (by omega), Words.add_bind (by omega),
    Words.mul_bind (by omega), Words.add_bind (by omega), Instant.number]

/-! ## Writing -/

/-- Every 64-bit number of milliseconds is that of an instant. -/
theorem exists_instant (wall : WallMs) :
    ∃ instant : Instant, instant.number = wall.unixMs.toNat ∧
      civilFromDays (wall.unixMs.toNat / MS_PER_DAY) =
        some (instant.date.year, instant.date.month, instant.date.day) ∧
      instant.hour = wall.unixMs.toNat % MS_PER_DAY / 3600000 ∧
      instant.minute = wall.unixMs.toNat % MS_PER_DAY / 60000 % 60 ∧
      instant.second = wall.unixMs.toNat % MS_PER_DAY / 1000 % 60 ∧
      instant.millis = wall.unixMs.toNat % MS_PER_DAY % 1000 := by
  have hfits := wall.unixMs.toNat_lt
  obtain ⟨date, hdate, hcivil⟩ :=
    civilFromDays_eq (show wall.unixMs.toNat / MS_PER_DAY < 2 ^ 40 by unfold MS_PER_DAY; omega)
  obtain ⟨instant, rfl, hhour, hminute, hsecond, hmillis, hnumber⟩ := Instant.exists_number hdate
  exact ⟨instant, hnumber, hcivil, hhour, hminute, hsecond, hmillis⟩

theorem toRfc3339_isSome (wall : WallMs) : (toRfc3339 wall).isSome := by
  obtain ⟨instant, -, hcivil, -⟩ := exists_instant wall
  rw [toRfc3339, hcivil]
  rfl

theorem toRfc3339_of_instant {wall : WallMs} (hlast : wall.unixMs.toNat ≤ lastMs) :
    ∃ instant : Instant, instant.number = wall.unixMs.toNat ∧ instant.date.year ≤ 9999 ∧
      toRfc3339 wall = some (stamp instant ++ ending (Numerals.fixed 3 instant.millis)) := by
  obtain ⟨instant, hnumber, hcivil, hhour, hminute, hsecond, hmillis⟩ := exists_instant wall
  have hyear : instant.date.year ≤ 9999 := by
    refine year_of_number ?_
    simp only [Instant.number, lastMs] at hnumber hlast
    omega
  have hmonth := instant.date.month_mem
  have hday := instant.date.day_mem
  have hmonthLength : instant.date.day ≤ 31 := instant.date.day_le
  refine ⟨instant, hnumber, hyear, ?_⟩
  have hhours := instant.hour_lt
  have hminutes := instant.minute_lt
  have hseconds := instant.second_lt
  have hthousand := instant.millis_lt
  rw [toRfc3339, hcivil]
  simp only [bind, Option.bind_some, ← hhour, ← hminute, ← hsecond, ← hmillis]
  rw [Numerals.zeroPadded_eq_fixed (by decide) (by omega),
    Numerals.zeroPadded_eq_fixed (by decide) (by omega),
    Numerals.zeroPadded_eq_fixed (by decide) (by omega),
    Numerals.zeroPadded_eq_fixed (by decide) (by omega),
    Numerals.zeroPadded_eq_fixed (by decide) (by omega),
    Numerals.zeroPadded_eq_fixed (by decide) (by omega),
    Numerals.zeroPadded_eq_fixed (by decide) (by omega)]
  simp [stamp, ending, Numerals.fixed]

/-! ## Reading -/

theorem number_eq_ok {digits : List UInt8} {value : Nat} :
    number digits = .ok value ↔ Numerals.read digits = some value := by
  unfold number
  cases Numerals.read digits <;> simp

theorem refuse_eq_ok {condition : Prop} [Decidable condition] {error : TimeTextError}
    {done : Unit} : refuse condition error = .ok done ↔ ¬ condition := by
  unfold refuse
  exact refuse_unless_eq_ok

theorem fractionBytes_eq_ok {text fraction : List UInt8} :
    fractionBytes text = .ok fraction ↔
      (text.length = 20 ∧ fraction = []) ∨
        (22 ≤ text.length ∧ text.length ≤ 24 ∧ text[19]? = some dot ∧
          fraction = window text 20 (text.length - 1)) := by
  unfold fractionBytes
  split
  next hshort =>
    simp only [Except.ok.injEq]
    constructor
    · intro hnone
      exact Or.inl ⟨hshort, hnone.symm⟩
    · rintro (⟨_, hnone⟩ | ⟨hlong, _⟩)
      · exact hnone.symm
      · omega
  next hlong =>
    split
    next hfraction =>
      simp only [Except.ok.injEq]
      constructor
      · intro heq
        exact Or.inr ⟨hfraction.1, hfraction.2.1, hfraction.2.2, heq.symm⟩
      · rintro (⟨hshort, _⟩ | ⟨_, _, _, heq⟩)
        · exact absurd hshort hlong
        · exact heq.symm
    next hother =>
      simp only [reduceCtorEq, false_iff]
      rintro (⟨hshort, _⟩ | ⟨hlow, hhigh, hdot, _⟩)
      · exact hlong hshort
      · exact hother ⟨hlow, hhigh, hdot⟩

/-- Where the separators stand, the text is its fields and the separators between them. -/
theorem text_of_separators {text : List UInt8}
    (hseparators : ∀ separator ∈ separators, text[separator.1]? = some separator.2) :
    text = window text 0 4 ++ dash :: (window text 5 7 ++ dash :: (window text 8 10 ++
      upperT :: (window text 11 13 ++ colon :: (window text 14 16 ++
        colon :: (window text 17 19 ++ text.drop 19))))) := by
  simp only [separators, List.forall_mem_cons, List.not_mem_nil, false_implies, implies_true,
    and_true] at hseparators
  obtain ⟨hyear, hmonth, hday, hhour, hminute⟩ := hseparators
  rw [← drop_eq_window_append text (show 17 ≤ 19 by decide), ← drop_eq_cons_of_getElem? hminute,
    ← drop_eq_window_append text (show 14 ≤ 16 by decide), ← drop_eq_cons_of_getElem? hhour,
    ← drop_eq_window_append text (show 11 ≤ 13 by decide), ← drop_eq_cons_of_getElem? hday,
    ← drop_eq_window_append text (show 8 ≤ 10 by decide), ← drop_eq_cons_of_getElem? hmonth,
    ← drop_eq_window_append text (show 5 ≤ 7 by decide), ← drop_eq_cons_of_getElem? hyear,
    ← drop_eq_window_append text (show 0 ≤ 4 by decide), List.drop_zero]

/-- After the seconds come the fraction and the last letter. -/
theorem drop_eq_ending {text fraction : List UInt8} (hfraction : fractionBytes text = .ok fraction)
    (hlast : text[text.length - 1]? = some upperZ) :
    text.drop 19 = ending fraction ∧ fraction.length ≤ 3 := by
  have hletter := drop_eq_cons_of_getElem? hlast
  rw [fractionBytes_eq_ok] at hfraction
  rcases hfraction with ⟨hlength, rfl⟩ | ⟨hlow, hhigh, hdot, rfl⟩
  · rw [hlength] at hletter
    have hnone : text.drop 20 = [] := List.drop_eq_nil_of_le hlength.le
    refine ⟨?_, Nat.zero_le 3⟩
    rw [hletter, hnone]
    rfl
  · have hnone : text.drop (text.length - 1 + 1) = [] :=
      List.drop_eq_nil_of_le (by omega)
    have hlength := length_window text 20 (text.length - 1)
    refine ⟨?_, by omega⟩
    have hsome : window text 20 (text.length - 1) ≠ [] :=
      List.ne_nil_of_length_pos (by omega)
    rw [drop_eq_cons_of_getElem? hdot,
      drop_eq_window_append text (show 20 ≤ text.length - 1 by omega), hletter, hnone, ending,
      if_neg hsome]
    rfl

theorem fixed_of_window {text : List UInt8} {low high value : Nat} (hhigh : high ≤ text.length)
    (hread : Numerals.read (window text low high) = some value) :
    value < 10 ^ (high - low) ∧ Numerals.fixed (high - low) value = window text low high := by
  have hlength : (window text low high).length = high - low := by
    rw [length_window]
    omega
  rw [← hlength]
  exact Numerals.fixed_of_read hread

theorem scale_eq (count value : Nat) : (· * 10)^[count] value = value * 10 ^ count := by
  rw [mul_right_iterate]

theorem length_threeDigits {fraction : List UInt8} (hlength : fraction.length ≤ 3) :
    (threeDigits fraction).length = 3 := by
  rw [threeDigits, List.length_append, List.length_replicate]
  omega

/-- What an accepted text says is an instant of the calendar, and its milliseconds are given. -/
theorem documented_of_parse {text : List UInt8} {result : Option WallMs}
    (hparse : parseRfc3339 text = .ok result) :
    ∃ instant : Instant, instant.date.year ≤ 9999 ∧ Documented text instant ∧
      result = some ⟨UInt64.ofNat instant.number⟩ := by
  simp only [parseRfc3339, bind_eq_ok, refuse_eq_ok, exists_const, number_eq_ok, not_or, not_not,
    Except.ok.injEq] at hparse
  obtain ⟨fraction, hfraction, ⟨hseparators, hlast⟩, year, hyear, month, hmonth, day, hday, hour,
    hhour, minute, hminute, second, hsecond, written, hwritten, hmonthRange, hdayRange, hhourRange,
    hminuteRange, hsecondRange, hepoch, rfl⟩ := hparse
  have hlength : 20 ≤ text.length := by
    rcases fractionBytes_eq_ok.mp hfraction with ⟨hshort, -⟩ | ⟨hlong, -⟩ <;> omega
  obtain ⟨hending, hshort⟩ := drop_eq_ending hfraction hlast
  have htext := text_of_separators fun separator hmem =>
    by_contra fun hother => hseparators ⟨separator, hmem, hother⟩
  obtain ⟨hyearBound, hyearText⟩ := fixed_of_window (by omega) hyear
  obtain ⟨hmonthBound, hmonthText⟩ := fixed_of_window (by omega) hmonth
  obtain ⟨hdayBound, hdayText⟩ := fixed_of_window (by omega) hday
  obtain ⟨hhourBound, hhourText⟩ := fixed_of_window (by omega) hhour
  obtain ⟨hminuteBound, hminuteText⟩ := fixed_of_window (by omega) hminute
  obtain ⟨hsecondBound, hsecondText⟩ := fixed_of_window (by omega) hsecond
  have hmillis : Numerals.read (threeDigits fraction) =
      some (written * 10 ^ (3 - fraction.length)) := by
    rw [threeDigits, Numerals.read_append_zeros, hwritten]
    rfl
  have hmillisBound := (Numerals.fixed_of_read hmillis).1
  rw [length_threeDigits hshort] at hmillisBound
  rw [daysInMonth_eq] at hdayRange
  simp only [EPOCH_YEAR, not_lt] at hepoch
  let instant : Instant := ⟨⟨year, month, day, hepoch, hmonthRange, hdayRange⟩, hour, minute,
    second,
    written * 10 ^ (3 - fraction.length), by omega, by omega, by omega, hmillisBound⟩
  have hyearLast : instant.date.year ≤ 9999 := Nat.le_of_lt_succ hyearBound
  refine ⟨instant, hyearLast, ⟨fraction, hshort, hmillis, ?_⟩, ?_⟩
  · rw [htext, hending, ← hyearText, ← hmonthText, ← hdayText, ← hhourText, ← hminuteText,
      ← hsecondText]
    simp [stamp, instant]
  · rw [scale_eq]
    exact instantMs_eq instant hyearLast

/-- A documented text of an instant is accepted. -/
theorem parse_of_documented {text : List UInt8} {instant : Instant}
    (hyear : instant.date.year ≤ 9999) (htext : Documented text instant) :
    parseRfc3339 text = .ok (some ⟨UInt64.ofNat instant.number⟩) := by
  obtain ⟨fraction, hshort, hmillis, rfl⟩ := htext
  have hmonth := instant.date.month_mem
  have hday := instant.date.day_mem
  have hdayLast := instant.date.day_le
  have hepoch := instant.date.since1970
  have hhour := instant.hour_lt
  have hminute := instant.minute_lt
  have hsecond := instant.second_lt
  have hlength : (stamp instant ++ ending fraction).length =
      if fraction = [] then 20 else fraction.length + 21 := by
    rw [List.length_append, length_stamp, length_ending]
    split <;> omega
  have hfraction : fractionBytes (stamp instant ++ ending fraction) = .ok fraction := by
    rw [fractionBytes_eq_ok, hlength]
    by_cases hnone : fraction = []
    · exact Or.inl ⟨if_pos hnone, hnone⟩
    · have hpositive := List.length_pos_iff.mpr hnone
      rw [if_neg hnone]
      refine Or.inr ⟨by omega, by omega, ?_, ?_⟩
      · rw [List.getElem?_append_right (by rw [length_stamp]), length_stamp, ending, if_neg hnone]
        rfl
      · have hmiddle := window_middle (stamp instant ++ [dot]) fraction [upperZ]
        have hend :
            fraction.length + 21 - 1 = (stamp instant ++ [dot]).length + fraction.length := by
          rw [List.length_append, length_stamp, List.length_singleton]
          omega
        have hstart : 20 = (stamp instant ++ [dot]).length := by
          rw [List.length_append, length_stamp, List.length_singleton]
        rw [hend, ending, if_neg hnone, hstart]
        simpa using hmiddle.symm
  have hlast : (stamp instant ++ ending fraction)[(stamp instant ++ ending fraction).length - 1]? =
      some upperZ := by
    rw [← List.getLast?_eq_getElem?, ending, ← List.append_assoc, List.getLast?_append]
    rfl
  obtain ⟨written, hwritten, hscaled⟩ : ∃ written, Numerals.read fraction = some written ∧
      written * 10 ^ (3 - fraction.length) = instant.millis := by
    rw [threeDigits, Numerals.read_append_zeros, Option.map_eq_some_iff] at hmillis
    exact hmillis
  have hseparators : ∀ separator ∈ separators,
      (stamp instant ++ ending fraction)[separator.1]? = some separator.2 := by
    simp only [separators, List.forall_mem_cons, List.not_mem_nil, false_implies, implies_true,
      and_true]
    exact ⟨rfl, rfl, rfl, rfl, rfl⟩
  simp only [parseRfc3339, bind_eq_ok, refuse_eq_ok, exists_const, number_eq_ok, not_or, not_not]
  refine ⟨fraction, hfraction,
    ⟨fun ⟨separator, hmem, hother⟩ => hother (hseparators separator hmem),
    hlast⟩, instant.date.year, ?_, instant.date.month, ?_, instant.date.day, ?_, instant.hour, ?_,
    instant.minute, ?_, instant.second, ?_, written, hwritten, hmonth, ?_, by omega, by omega,
    by omega, ?_, ?_⟩
  · exact @Numerals.read_fixed 4 _ (by omega)
  · exact @Numerals.read_fixed 2 _ (by omega)
  · exact @Numerals.read_fixed 2 _ (by omega)
  · exact @Numerals.read_fixed 2 _ (by omega)
  · exact @Numerals.read_fixed 2 _ (by omega)
  · exact @Numerals.read_fixed 2 _ (by omega)
  · rw [daysInMonth_eq]
    exact hday
  · exact not_lt.mpr hepoch
  · rw [scale_eq, hscaled, instantMs_eq instant hyear]

/-! ## Both directions -/

/-- The accepted texts are those that document an instant of the years 1970 to 9999. -/
theorem parseRfc3339_eq_ok {text : List UInt8} {result : Option WallMs} :
    parseRfc3339 text = .ok result ↔
      ∃ instant : Instant, instant.date.year ≤ 9999 ∧ Documented text instant ∧
        result = some ⟨UInt64.ofNat instant.number⟩ := by
  constructor
  · exact documented_of_parse
  · rintro ⟨instant, hyear, htext, rfl⟩
    exact parse_of_documented hyear htext

theorem documented_threeDigits (instant : Instant) :
    Documented (stamp instant ++ ending (Numerals.fixed 3 instant.millis)) instant := by
  refine ⟨Numerals.fixed 3 instant.millis, by simp, ?_, rfl⟩
  rw [threeDigits, Numerals.length_fixed, Nat.sub_self, List.replicate_zero, List.append_nil]
  exact Numerals.read_fixed instant.millis_lt

theorem toNat_number {instant : Instant} (hyear : instant.date.year ≤ 9999) :
    (UInt64.ofNat instant.number).toNat = instant.number := by
  have hlast := number_le_lastMs hyear
  refine UInt64.toNat_ofNat_of_lt' (hlast.trans_lt ?_)
  decide

/-- The text of an instant's milliseconds is its own, with three digits of a fraction. -/
theorem toRfc3339_number {instant : Instant} (hyear : instant.date.year ≤ 9999) :
    toRfc3339 ⟨UInt64.ofNat instant.number⟩ =
      some (stamp instant ++ ending (Numerals.fixed 3 instant.millis)) := by
  have hnumber := toNat_number hyear
  obtain ⟨other, hother, -, htext⟩ :=
    @toRfc3339_of_instant ⟨UInt64.ofNat instant.number⟩
      (by rw [hnumber]; exact number_le_lastMs hyear)
  rw [hnumber] at hother
  rw [htext, Instant.number_injective hother]

theorem ending_fixed (millis : Nat) :
    ending (Numerals.fixed 3 millis) = dot :: (Numerals.fixed 3 millis ++ [upperZ]) := by
  have hdigits : Numerals.fixed 3 millis ≠ [] := List.ne_nil_of_length_pos (by simp)
  rw [ending, if_neg hdigits]
  rfl

/-- One field and what follows order by the field first. -/
theorem field_lt {width first second : Nat} {separator : UInt8} {rest rest' : List UInt8}
    (hsecond : second < 10 ^ width) (hlt : first < second ∨ first = second ∧ rest < rest') :
    Numerals.fixed width first ++ separator :: rest <
      Numerals.fixed width second ++ separator :: rest' := by
  rcases hlt with hless | ⟨rfl, hrest⟩
  · exact Numerals.append_lt_append_of_lt (Numerals.fixed_lt_fixed hless hsecond) (by simp) _ _
  · exact List.append_left_lt (List.Lex.cons hrest)

/-- Texts order as the instants they document. -/
theorem text_lt_of_before {first second : Instant} (hbefore : first.Before second)
    (hyear : second.date.year ≤ 9999) :
    stamp first ++ ending (Numerals.fixed 3 first.millis) <
      stamp second ++ ending (Numerals.fixed 3 second.millis) := by
  have hmonth := second.date.month_mem
  have hday := second.date.day_le
  have hhour := second.hour_lt
  have hminute := second.minute_lt
  have hsecond := second.second_lt
  have hmillis := second.millis_lt
  rw [ending_fixed, ending_fixed]
  simp only [stamp, List.append_assoc, List.cons_append]
  have hmillisLt : first.millis < second.millis → Numerals.fixed 3 first.millis ++ [upperZ] <
      Numerals.fixed 3 second.millis ++ [upperZ] := fun hless =>
    Numerals.append_lt_append_of_lt (Numerals.fixed_lt_fixed hless (by omega)) (by simp) _ _
  -- Each field decides, or is the same and leaves it to the next.
  rcases hbefore with (hless | ⟨hyears, hless | ⟨hmonths, hless⟩⟩) | ⟨hdate, htime⟩
  · exact field_lt (by omega) (Or.inl hless)
  · exact field_lt (by omega) (Or.inr ⟨hyears, field_lt (by omega) (Or.inl hless)⟩)
  · exact field_lt (by omega) (Or.inr ⟨hyears, field_lt (by omega)
      (Or.inr ⟨hmonths, field_lt (by omega) (Or.inl hless)⟩)⟩)
  · rw [hdate]
    refine field_lt (by omega) (Or.inr ⟨rfl, field_lt (by omega) (Or.inr ⟨rfl,
      field_lt (by omega) (Or.inr ⟨rfl, field_lt (by omega) ?_⟩)⟩)⟩)
    refine htime.imp_right (And.imp_right fun hminutes => field_lt (by omega) ?_)
    refine hminutes.imp_right (And.imp_right fun hseconds => field_lt (by omega) ?_)
    exact hseconds.imp_right (And.imp_right hmillisLt)

theorem toRfc3339_lt {first second : WallMs} (hlast : second.unixMs.toNat ≤ lastMs)
    (hlt : first.unixMs < second.unixMs) {text text' : List UInt8}
    (htext : toRfc3339 first = some text) (htext' : toRfc3339 second = some text') :
    text < text' := by
  have hless : first.unixMs.toNat < second.unixMs.toNat := UInt64.lt_iff_toNat_lt.mp hlt
  obtain ⟨early, hearly, -, heq⟩ := toRfc3339_of_instant (hless.le.trans hlast)
  obtain ⟨late, hlate, hyear, heq'⟩ := toRfc3339_of_instant hlast
  rw [htext, Option.some.injEq] at heq
  rw [htext', Option.some.injEq] at heq'
  rw [heq, heq']
  exact text_lt_of_before (Instant.before_of_number_lt (by omega)) hyear

theorem toRfc3339_lt_iff {first second : WallMs} (hfirst : first.unixMs.toNat ≤ lastMs)
    (hsecond : second.unixMs.toNat ≤ lastMs) {text text' : List UInt8}
    (htext : toRfc3339 first = some text) (htext' : toRfc3339 second = some text') :
    first.unixMs < second.unixMs ↔ text < text' := by
  refine ⟨fun hlt => toRfc3339_lt hsecond hlt htext htext', fun hlt => ?_⟩
  rcases Nat.lt_trichotomy first.unixMs.toNat second.unixMs.toNat with hless | hsame | hless
  · exact UInt64.lt_iff_toNat_lt.mpr hless
  · have heq : first = second := by
      cases first
      cases second
      exact congrArg WallMs.mk (UInt64.toNat_inj.mp hsame)
    rw [heq, htext', Option.some.injEq] at htext
    rw [htext] at hlt
    exact absurd hlt (List.lt_irrefl _)
  · exact absurd hlt
      (List.lt_asymm (toRfc3339_lt hfirst (UInt64.lt_iff_toNat_lt.mpr hless) htext' htext))

/-- An accepted text is written again with its fraction padded to three digits. -/
theorem toRfc3339_of_parse {text : List UInt8} {wall : WallMs}
    (hparse : parseRfc3339 text = .ok (some wall)) :
    ∃ fraction : List UInt8, fraction.length ≤ 3 ∧ text = text.take 19 ++ ending fraction ∧
      toRfc3339 wall = some (text.take 19 ++ ending (threeDigits fraction)) := by
  obtain ⟨instant, hyear, ⟨fraction, hshort, hmillis, rfl⟩, hwall⟩ := parseRfc3339_eq_ok.mp hparse
  have hstamp : (stamp instant ++ ending fraction).take 19 = stamp instant :=
    List.take_left' (length_stamp instant)
  have hdigits := (Numerals.fixed_of_read hmillis).2
  rw [length_threeDigits hshort] at hdigits
  rw [Option.some.injEq] at hwall
  refine ⟨fraction, hshort, by rw [hstamp], ?_⟩
  rw [hstamp, hwall, toRfc3339_number hyear, hdigits]

/-- Text and milliseconds are inverse and ordered: every number up to the last one of the
year 9999 is read back from its text, texts order as the numbers do, an accepted text is
written again with three digits of a fraction, the accepted texts are those of the instants
of the calendar, and no sum, difference or product leaves 64 bits. -/
theorem text_and_milliseconds_agree :
    (∀ wall : WallMs, wall.unixMs.toNat ≤ lastMs →
      ∃ text, toRfc3339 wall = some text ∧ parseRfc3339 text = .ok (some wall)) ∧
    (∀ first second : WallMs, first.unixMs.toNat ≤ lastMs → second.unixMs.toNat ≤ lastMs →
      ∀ text text', toRfc3339 first = some text → toRfc3339 second = some text' →
        (first.unixMs < second.unixMs ↔ text < text')) ∧
    (∀ text wall, parseRfc3339 text = .ok (some wall) →
      ∃ fraction : List UInt8, fraction.length ≤ 3 ∧ text = text.take 19 ++ ending fraction ∧
        toRfc3339 wall = some (text.take 19 ++ ending (threeDigits fraction))) ∧
    (∀ text wall, parseRfc3339 text = .ok (some wall) ↔
      ∃ instant : Instant, instant.date.year ≤ 9999 ∧ Documented text instant ∧
        wall = ⟨UInt64.ofNat instant.number⟩ ∧ wall.unixMs.toNat = instant.number) ∧
    (∀ wall : WallMs, (civilFromDays (wall.unixMs.toNat / MS_PER_DAY)).isSome ∧
      (toRfc3339 wall).isSome) ∧
    (∀ date : Date, date.year ≤ 9999 →
      daysSinceEpoch date.year date.month date.day = some date.number) ∧
    ∀ text, parseRfc3339 text ≠ .ok none := by
  refine ⟨?_, ?_, fun _ _ => toRfc3339_of_parse, ?_, ?_, fun _ => daysSinceEpoch_eq _, ?_⟩
  · intro wall hlast
    obtain ⟨instant, hnumber, hyear, htext⟩ := toRfc3339_of_instant hlast
    refine ⟨_, htext, ?_⟩
    rw [parse_of_documented hyear (documented_threeDigits instant), hnumber, UInt64.ofNat_toNat]
  · intro first second hfirst hsecond text text' htext htext'
    exact toRfc3339_lt_iff hfirst hsecond htext htext'
  · intro text wall
    rw [parseRfc3339_eq_ok]
    refine exists_congr fun instant => and_congr_right fun hyear => and_congr_right fun _ => ?_
    rw [Option.some.injEq]
    refine ⟨fun heq => ⟨heq, ?_⟩, And.left⟩
    rw [heq]
    exact toNat_number hyear
  · intro wall
    obtain ⟨instant, -, hcivil, -⟩ := exists_instant wall
    refine ⟨?_, toRfc3339_isSome wall⟩
    rw [hcivil]
    rfl
  · intro text hnone
    obtain ⟨instant, -, -, hsome⟩ := parseRfc3339_eq_ok.mp hnone
    cases hsome

end Plasmosome.Backend.Lifetime
