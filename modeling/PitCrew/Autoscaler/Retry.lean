import Mathlib.Data.Int.Basic
import Mathlib.Tactic
import PitCrew.Base.Civil

/-! # Retries

The pacing of retries (`manager/autoscaler/backoff.go` and the retry constants of
`registration_cleanup.go`, `host_lease_cleanup.go` and `retirement.go`). A duration is an integer number of
nanoseconds, whose product wraps as an `int64` does; a point in time is an exact integer number of
nanoseconds. Texts of times go through a parameter, `time.RFC3339`. -/

namespace PitCrew.Autoscaler
open Base

def second : Int := 1000000000
def minute : Int := 60 * second

def wrapInt64 (n : Int) : Int := n.bmod 18446744073709551616

/-- The loop of `boundedExponentialBackoff`, with the number of rounds still to go. -/
def backoffRounds (maximum : Int) : Nat → Int → Int
  | 0, delay => if delay > maximum then maximum else delay
  | rounds + 1, delay =>
    if delay ≥ maximum ∨ delay > maximum.tdiv 2 then maximum else backoffRounds maximum rounds (wrapInt64 (delay * 2))

def boundedExponentialBackoff (base maximum consecutiveFailures : Int) : Int :=
  if base ≤ 0 ∨ consecutiveFailures ≤ 0 then 0
  else if maximum ≤ 0 then base
  else if base ≥ maximum then maximum
  else backoffRounds maximum (consecutiveFailures - 1).toNat base

def maxRegistrationCleanupAttempts : Int := 1000
def registrationOperationRetryBase : Int := minute
def registrationOperationRetryMaximum : Int := 15 * minute
def retirementStartupRetryBase : Int := minute
def retirementStartupRetryMax : Int := 15 * minute
def hostLeaseReleaseRetryDelay : Int := 15 * second

def registrationOperationRetryDelay (attempts : Int) : Int :=
  boundedExponentialBackoff registrationOperationRetryBase registrationOperationRetryMaximum attempts

/-- Formatting and parsing with `time.RFC3339`. -/
structure Rfc3339 where
  format : Int → String
  parse : String → Option Int

/-- A time of the years 0 to 9999, which is printed with a year of four digits. -/
def FourDigitYear (t : Int) : Prop := -62167219200 * second ≤ t ∧ t < 253402300800 * second

instance (t : Int) : Decidable (FourDigitYear t) := inferInstanceAs (Decidable (_ ∧ _))

theorem FourDigitYear.between {first last t : Int} (hfirst : FourDigitYear first) (hlast : FourDigitYear last)
    (hle : first ≤ t) (hge : t ≤ last) : FourDigitYear t :=
  ⟨hfirst.1.trans hle, hge.trans_lt hlast.2⟩

/-- A time whose year has four digits is printed to the second and reads back, and the empty text is no time. -/
structure Rfc3339.Documented (rfc : Rfc3339) : Prop where
  parse_format : ∀ t, FourDigitYear t → rfc.parse (rfc.format t) = some (t / second * second)
  parse_empty : rfc.parse "" = none

namespace Rfc3339.Documented
variable {rfc : Rfc3339}

theorem format_ne_empty (h : rfc.Documented) {t : Int} (ht : FourDigitYear t) : rfc.format t ≠ "" := by
  intro hempty
  have hparse := h.parse_format t ht
  rw [hempty, h.parse_empty] at hparse
  cases hparse

end Rfc3339.Documented

/-- Times in UTC. Other offsets and fractions of a second, which `time.Parse` reads as well, are left out. -/
def utcTime : Rfc3339 where
  format t := Civil.format (t / second)
  parse text := (Civil.parse text).map (· * second)

theorem utcTime_documented : utcTime.Documented where
  parse_format t ht := by
    obtain ⟨hfirst, hlast⟩ := ht
    have hleast : -62167219200 ≤ t / second := (Int.le_ediv_iff_mul_le (by decide)).mpr hfirst
    have hmost : t / second < 253402300800 := (Int.ediv_lt_iff_lt_mul (by decide)).mpr hlast
    simp only [utcTime, Civil.parse_format hleast hmost, Option.map_some]
  parse_empty := by
    have hempty : Civil.parse "" = none := by decide +kernel
    simp only [utcTime, hempty, Option.map_none]

end PitCrew.Autoscaler
