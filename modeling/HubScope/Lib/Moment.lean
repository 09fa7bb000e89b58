import Mathlib.Algebra.Order.Group.Int
import Mathlib.Tactic.Linarith

/-!
# Instants and durations of fixed width

An instant counts seconds in 64 bits, and nanoseconds of a second. A clock counts its seconds from
the year one and is written with seconds from 1970, which wrap around. Differences of instants
that do not fit a duration of 64 bits saturate.

## Main definitions

* `Moment` — an instant, with `nanos`, `unix`, `ofUnix`, `sub` and `second`
* `saturate` — the duration next to a number of nanoseconds

## Main results

* `Moment.ofUnix_unix` — seconds from 1970 name the second of the instant
* `saturate_lt_iff`, `lt_saturate_iff` — bounds within a duration are not affected
-/

set_option autoImplicit false

/-- The longest duration. -/
def maxDuration : ℤ := 9223372036854775807

/-- The shortest duration. -/
def minDuration : ℤ := -9223372036854775808

/-- The duration next to a number of nanoseconds. -/
def saturate (d : ℤ) : ℤ := max minDuration (min maxDuration d)

theorem saturate_lt_iff {d b : ℤ} (hmin : minDuration < b) (hmax : b ≤ maxDuration) :
    saturate d < b ↔ d < b := by
  unfold saturate
  omega

theorem lt_saturate_iff {d b : ℤ} (hmin : minDuration ≤ b) (hmax : b < maxDuration) :
    b < saturate d ↔ b < d := by
  unfold saturate
  omega

/-- An instant: seconds since the year one, and nanoseconds of a second. -/
structure Moment where
  sec : Int64
  nsec : ℕ
  nsec_lt : nsec < 1000000000
  deriving DecidableEq

namespace Moment

/-- The seconds from the year one to 1970. -/
def unixToInternal : Int64 := 62135596800

/-- Nanoseconds since the year one. -/
def nanos (t : Moment) : ℤ := t.sec.toInt * 1000000000 + t.nsec

/-- Seconds since 1970. -/
def unix (t : Moment) : Int64 := t.sec - unixToInternal

/-- The instant a number of seconds after 1970. -/
def ofUnix (sec : Int64) : Moment := ⟨sec + unixToInternal, 0, by decide⟩

/-- The duration from `u` to `t`. -/
def sub (t u : Moment) : ℤ := saturate (t.nanos - u.nanos)

/-- The whole second an instant lies in. -/
def second (t : Moment) : Moment := ⟨t.sec, 0, by decide⟩

/-- Seconds from 1970 name the second of the instant. -/
theorem ofUnix_unix (t : Moment) : ofUnix t.unix = t.second := by
  have hsec : t.sec - unixToInternal + unixToInternal = t.sec := Int64.sub_add_cancel ..
  simp only [ofUnix, unix, second, hsec]

/-- Instants with the same seconds from 1970 lie in one second. -/
theorem second_eq_of_unix_eq {t u : Moment} (h : t.unix = u.unix) : t.second = u.second := by
  rw [← ofUnix_unix, h, ofUnix_unix]

end Moment
