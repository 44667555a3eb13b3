import HxClog.Lib.Calendar

/-!
# The time of a crash report

`crash_utc` turns a unix time into a date by eras of 400 years that begin in March. The
year is converted to `int` before 1900 is subtracted from it, and an `int` that overflows
has no value.
-/

namespace HxClog

open Calendar

/-- `struct tm` as `crash_utc` leaves it. -/
structure UtcTm where
  year : Int
  mon : Int
  mday : Int
  hour : Int
  min : Int
  sec : Int
  wday : Int
  yday : Int
  isdst : Int
  deriving DecidableEq, Repr

/-- `days` and `rem`. -/
def crashDays (secs : Int) : Int × Int :=
  let days := secs.tdiv 86400
  let rem := secs.tmod 86400
  if rem < 0 then (days - 1, rem + 86400) else (days, rem)

theorem crashDays_eq (secs : Int) : crashDays secs = (secs / 86400, secs % 86400) := by
  unfold crashDays
  simp only [Int.tmod_eq_emod, Int.tdiv_eq_ediv, show Int.sign 86400 = 1 from rfl]
  split <;> split <;> simp only [Prod.mk.injEq] <;> omega

/-- No sum or product of `long long`s comes near its bounds. -/
theorem crashDays_range (t : Int64) : -2 ^ 47 < (crashDays t.toInt).1 ∧ (crashDays t.toInt).1 < 2 ^ 47 := by
  have hle := t.le_toInt
  have hlt := t.toInt_lt
  rw [crashDays_eq]
  simp only
  omega

section
variable {c q s d : Int}

end

/-- The record names this date and time, and the date's day of the week. -/
structure UtcTm.Shows (tm : UtcTm) (c : CivilTime) : Prop where
  year : tm.year = c.date.year - 1900
  mon : tm.mon = c.date.month
  mday : tm.mday = c.date.day
  hour : tm.hour = c.hour
  min : tm.min = c.min
  sec : tm.sec = c.sec
  wday : tm.wday = c.date.weekday

end HxClog
