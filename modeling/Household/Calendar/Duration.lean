import Household.Calendar.Zone
import Household.Number.Basic

/-!
# Durations

A duration is a whole number of microseconds. Lengths in seconds are rounded
to it, a half to the even microsecond; a duration of a thousand million days
or more is refused.
-/

set_option autoImplicit false

namespace Household.Calendar

open Household.Decimal

inductive DurationError where
  | infinite
  | notANumber
  | tooManyDays (days : Int)
  deriving DecidableEq, Repr

def durationDays : Nat := 999999999

/-- Numbers of days beyond this are not told apart. -/
def countedDays : Nat := 2147483647

def DurationError.message : DurationError → String
  | infinite => "cannot convert float infinity to integer"
  | notANumber => "cannot convert float NaN to integer"
  | tooManyDays days =>
    if days.natAbs ≤ countedDays then
      s!"days={days}; must have magnitude <= {durationDays}"
    else "Python int too large to convert to C int"

namespace Duration

def ofMicros (n : Int) : Except DurationError Int :=
  if (n / microsPerDay).natAbs ≤ durationDays then .ok n
  else .error (.tooManyDays (n / microsPerDay))

def ofDays (n : Int) : Except DurationError Int := ofMicros (n * microsPerDay)

/-- The fraction of a value as a whole number of millionths: the product is
rounded to a double first, then to the even neighbour together with the
whole seconds. -/
def ofBinarySeconds (b : Binary) : Int :=
  let fraction : Binary := ⟨b.negative, b.ratio.1 % b.ratio.2, min b.exponent 0⟩
  match Double.scale fraction 1000000 with
  | .finite p =>
    let num := b.whole * 1000000 * p.denominator + p.numerator
    if num < 0 then -(roundDiv num.natAbs p.denominator : Int)
    else roundDiv num.natAbs p.denominator
  | _ => b.whole * 1000000

def ofSeconds : Number → Except DurationError Int
  | .whole n => ofMicros (n * 1000000)
  | .real (.finite b) => ofMicros (ofBinarySeconds b)
  | .real (.infinite _) => .error .infinite
  | .real .notANumber => .error .notANumber

end Duration

end Household.Calendar
