import Mathlib.Data.Nat.Notation

/-!
# The calendar of the C library

`gmtime_r` and `strftime` for points of time from 1970 on.
-/

namespace Posix

/-- `time_t`, in seconds since 1970. -/
abbrev Time := ℕ

/-- A date of the Gregorian calendar and a time of day, in UTC. -/
structure Tm where
  year : ℕ
  mon : ℕ
  mday : ℕ
  hour : ℕ
  min : ℕ
  sec : ℕ
  deriving DecidableEq, Repr

/-- `gmtime_r`. Days are counted from the first of March of the year 0, in cycles of 400 years
whose years begin in March, so that the leap day is the last day of a year. -/
def gmtime (t : Time) : Tm :=
  let day := t / 86400 + 719468
  let doe := day % 146097
  let yoe := (doe - doe / 1460 + doe / 36524 - doe / 146096) / 365
  let doy := doe - (365 * yoe + yoe / 4 - yoe / 100)
  let m := (5 * doy + 2) / 153
  { year := day / 146097 * 400 + yoe + if m < 10 then 0 else 1
    mon := if m < 10 then m + 3 else m - 9
    mday := doy - (153 * m + 2) / 5 + 1
    hour := t % 86400 / 3600
    min := t % 3600 / 60
    sec := t % 60 }

/-- Two digits. -/
def twoDigits (n : ℕ) : String := if n < 10 then "0" ++ toString n else toString n

/-- `strftime` with `"%Y%m%d-%H%M%S_"`. -/
def strftime (tm : Tm) : String :=
  toString tm.year ++ twoDigits tm.mon ++ twoDigits tm.mday ++ "-" ++
    twoDigits tm.hour ++ twoDigits tm.min ++ twoDigits tm.sec ++ "_"

/-- A leap day. -/
example : gmtime 1709251199 = ⟨2024, 2, 29, 23, 59, 59⟩ := by decide

example : strftime (gmtime 1700000000) = "20231114-221320_" := by decide

end Posix
