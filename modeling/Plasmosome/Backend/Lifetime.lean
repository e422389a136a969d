import Plasmosome.Foundation.Numerals
import Plasmosome.Foundation.Calendar
import Plasmosome.Foundation.Windows
import Plasmosome.Foundation.Words
import Plasmosome.Foundation.Checks

/-!
# Wall-clock instants as text

Milliseconds since the start of 1970 and their RFC 3339 text, as bytes. Every sum,
difference and product of the calendar is checked against 64 bits: a function
answers `none` where one of its own does not fit.
-/

namespace Plasmosome.Backend.Lifetime

open Foundation

def MS_PER_DAY : Nat := 86400000

def EPOCH_YEAR : Nat := 1970

/-- A UTC wall-clock instant, in milliseconds since 1970-01-01T00:00:00Z. -/
structure WallMs where
  unixMs : UInt64
deriving DecidableEq

/-- Why a text is not an instant. -/
inductive TimeTextError where
  | form
  | field (name : String)
  | beforeEpoch
deriving DecidableEq

/-! ## The calendar -/

def isLeap (year : Nat) : Bool := year % 4 == 0 && (year % 100 != 0 || year % 400 == 0)

def daysInMonth (year : Nat) : Nat → Nat
  | 2 => if isLeap year then 29 else 28
  | 4 | 6 | 9 | 11 => 30
  | _ => 31

/-- The year that a month falls in when years begin in March. -/
def marchYear (year month : Nat) : Option Nat :=
  if month ≤ 2 then Words.sub year 1 else some year

/-- The month that is so many months after March. -/
def monthAfterMarch (shifted : Nat) : Option Nat :=
  if shifted < 10 then Words.add shifted 3 else Words.sub shifted 9

def daysSinceEpoch (year month day : Nat) : Option Nat := do
  let year ← marchYear year month
  let era := year / 400
  let yearOfEra := year % 400
  let shifted ← Words.add month 9
  let scaled ← Words.mul 153 (shifted % 12)
  let rounded ← Words.add scaled 2
  let counted ← Words.add (rounded / 5) day
  let dayOfYear ← Words.sub counted 1
  let common ← Words.mul yearOfEra 365
  let fourths ← Words.add common (yearOfEra / 4)
  let centuries ← Words.sub fourths (yearOfEra / 100)
  let dayOfEra ← Words.add centuries dayOfYear
  let eras ← Words.mul era 146097
  let days ← Words.add eras dayOfEra
  Words.sub days 719468

def civilFromDays (days : Nat) : Option (Nat × Nat × Nat) := do
  let days ← Words.add days 719468
  let era := days / 146097
  let dayOfEra := days % 146097
  let fourths ← Words.sub dayOfEra (dayOfEra / 1460)
  let centuries ← Words.add fourths (dayOfEra / 36524)
  let common ← Words.sub centuries (dayOfEra / 146096)
  let yearOfEra := common / 365
  let years ← Words.mul 365 yearOfEra
  let leaps ← Words.add years (yearOfEra / 4)
  let start ← Words.sub leaps (yearOfEra / 100)
  let dayOfYear ← Words.sub dayOfEra start
  let scaled ← Words.mul 5 dayOfYear
  let rounded ← Words.add scaled 2
  let shiftedMonth := rounded / 153
  let monthScaled ← Words.mul 153 shiftedMonth
  let monthRounded ← Words.add monthScaled 2
  let before ← Words.sub dayOfYear (monthRounded / 5)
  let day ← Words.add before 1
  let month ← monthAfterMarch shiftedMonth
  let eraYears ← Words.mul era 400
  let shiftedYear ← Words.add eraYears yearOfEra
  let year ← Words.add shiftedYear (if month ≤ 2 then 1 else 0)
  some (year, month, day)

/-! ## Text -/

def dash : UInt8 := 45
def colon : UInt8 := 58
def dot : UInt8 := 46
def upperT : UInt8 := 84
def upperZ : UInt8 := 90

/-- The bytes of the fraction: those between the dot and the last byte. -/
def fractionBytes (text : List UInt8) : Except TimeTextError (List UInt8) :=
  if text.length = 20 then .ok []
  else if 22 ≤ text.length ∧ text.length ≤ 24 ∧ text[19]? = some dot then
    .ok (window text 20 (text.length - 1))
  else .error .form

/-- Where each separator stands. -/
def separators : List (Nat × UInt8) :=
  [(4, dash), (7, dash), (10, upperT), (13, colon), (16, colon)]

/-- The number in a row of at most four digits. -/
def number (digits : List UInt8) : Except TimeTextError Nat :=
  match Numerals.read digits with
  | some value => .ok value
  | none => .error .form

/-- The milliseconds of an instant, `none` past 64 bits. -/
def instantMs (year month day hour minute second millis : Nat) : Option WallMs := do
  let days ← daysSinceEpoch year month day
  let daySeconds ← Words.mul days 86400
  let hourSeconds ← Words.mul hour 3600
  let minuteSeconds ← Words.mul minute 60
  let sinceHour ← Words.add daySeconds hourSeconds
  let sinceMinute ← Words.add sinceHour minuteSeconds
  let seconds ← Words.add sinceMinute second
  let scaled ← Words.mul seconds 1000
  let total ← Words.add scaled millis
  some ⟨UInt64.ofNat total⟩

def refuse (condition : Prop) [Decidable condition] (error : TimeTextError) :
    Except TimeTextError Unit :=
  if condition then .error error else .ok ()

def parseRfc3339 (text : List UInt8) : Except TimeTextError (Option WallMs) := do
  let fraction ← fractionBytes text
  refuse ((∃ separator ∈ separators, text[separator.1]? ≠ some separator.2) ∨
    text[text.length - 1]? ≠ some upperZ) .form
  let year ← number (window text 0 4)
  let month ← number (window text 5 7)
  let day ← number (window text 8 10)
  let hour ← number (window text 11 13)
  let minute ← number (window text 14 16)
  let second ← number (window text 17 19)
  let written ← number fraction
  -- A fraction is scaled once for each digit it is short of three.
  let millis := (· * 10)^[3 - fraction.length] written
  refuse (¬ (1 ≤ month ∧ month ≤ 12)) (.field "month")
  refuse (¬ (1 ≤ day ∧ day ≤ daysInMonth year month)) (.field "day")
  refuse (hour > 23) (.field "hour")
  refuse (minute > 59) (.field "minute")
  refuse (second > 59) (.field "second")
  refuse (year < EPOCH_YEAR) .beforeEpoch
  .ok (instantMs year month day hour minute second millis)

def toRfc3339 (wall : WallMs) : Option (List UInt8) := do
  let (year, month, day) ← civilFromDays (wall.unixMs.toNat / MS_PER_DAY)
  let ofDay := wall.unixMs.toNat % MS_PER_DAY
  some (Numerals.zeroPadded 4 year ++ dash :: Numerals.zeroPadded 2 month ++
    dash :: Numerals.zeroPadded 2 day ++ upperT :: Numerals.zeroPadded 2 (ofDay / 3600000) ++
    colon :: Numerals.zeroPadded 2 (ofDay / 60000 % 60) ++
    colon :: Numerals.zeroPadded 2 (ofDay / 1000 % 60) ++
    dot :: Numerals.zeroPadded 3 (ofDay % 1000) ++ [upperZ])

end Plasmosome.Backend.Lifetime
