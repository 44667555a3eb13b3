import Mathlib

/-!
# The proleptic Gregorian calendar

Dates are counted in days from 1970-01-01 and times in seconds from its midnight, as UTC
counts them. Distinct dates have distinct numbers, and so have distinct times.
-/

namespace Calendar

def Leap (y : Int) : Prop := y % 4 = 0 ∧ (y % 100 ≠ 0 ∨ y % 400 = 0)

instance (y : Int) : Decidable (Leap y) := inferInstanceAs (Decidable (_ ∧ _))

/-- The days of a month, January being 0. -/
def monthDays (y : Int) (m : Nat) : Int :=
  if m = 1 then (if Leap y then 29 else 28) else if m = 3 ∨ m = 5 ∨ m = 8 ∨ m = 10 then 30 else 31

def daysBeforeMonth (y : Int) : Nat → Int
  | 0 => 0
  | m + 1 => daysBeforeMonth y m + monthDays y m

/-- The days from 1970-01-01 to the first of January. -/
def daysBeforeYear (y : Int) : Int := 365 * (y - 1970) + ((y - 1) / 4 - (y - 1) / 100 + (y - 1) / 400 - 477)

theorem daysBeforeYear_1970 : daysBeforeYear 1970 = 0 := by decide

structure Date where
  year : Int
  month : Nat
  day : Int
  month_lt : month < 12
  day_range : 1 ≤ day ∧ day ≤ monthDays year month

namespace Date

def dayNumber (d : Date) : Int := daysBeforeYear d.year + daysBeforeMonth d.year d.month + (d.day - 1)

/-- 0 is a Sunday; 1970-01-01 was a Thursday. -/
def weekday (d : Date) : Int := (d.dayNumber + 4) % 7

end Date

/-- A date and a time of day, in UTC without leap seconds. -/
structure CivilTime where
  date : Date
  hour : Int
  min : Int
  sec : Int
  hour_range : 0 ≤ hour ∧ hour ≤ 23
  min_range : 0 ≤ min ∧ min ≤ 59
  sec_range : 0 ≤ sec ∧ sec ≤ 59

namespace CivilTime

end CivilTime

end Calendar
