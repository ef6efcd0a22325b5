import Household.Calendar.Zone

/-!
# Moments

A moment is a wall time in a zone. Two moments of one zone are told apart by
their wall times alone; across zones the instants decide, and a floating
moment has no distance to one that has an instant. Adding a duration moves
the wall clock and clears the fold; moving to another date keeps it.
-/

set_option autoImplicit false

namespace Household.Calendar

inductive CalendarError where
  | outOfRange
  | mixedComparison
  | mixedDifference
  deriving DecidableEq, Repr

def CalendarError.message : CalendarError → String
  | outOfRange => "date value out of range"
  | mixedComparison => "can't compare offset-naive and offset-aware datetimes"
  | mixedDifference => "can't subtract offset-naive and offset-aware datetimes"

structure Moment where
  wall : WallTime
  zone : Zone
  fold : Bool
  deriving DecidableEq, Repr

namespace Moment

def date (m : Moment) : Date := m.wall.date

def offset? (m : Moment) : Option Int := m.zone.offset? m.wall m.fold

def isFloating (m : Moment) : Bool := m.zone == .floating

/-- Microseconds of universal time; it may fall outside the calendar. -/
def instant? (m : Moment) : Option Int :=
  m.offset?.map (fun o => m.wall.micros - o)

def distance? (a b : Moment) : Option Int :=
  if a.zone = b.zone then some (a.wall.micros - b.wall.micros)
  else
    match a.instant?, b.instant? with
    | some x, some y => some (x - y)
    | _, _ => none

def sub (a b : Moment) : Except CalendarError Int :=
  match a.distance? b with
  | some d => .ok d
  | none => .error .mixedDifference

def before (a b : Moment) : Except CalendarError Bool :=
  match a.distance? b with
  | some d => .ok (decide (d < 0))
  | none => .error .mixedComparison

def add? (m : Moment) (duration : Int) : Option Moment :=
  (m.wall.add? duration).map (fun w => ⟨w, m.zone, false⟩)

def add (m : Moment) (duration : Int) : Except CalendarError Moment :=
  match m.add? duration with
  | some r => .ok r
  | none => .error .outOfRange

def onDate (m : Moment) (d : Date) : Moment := { m with wall := m.wall.onDate d }

def startOfDay (m : Moment) : Moment := { m with wall := .midnight m.date }

def float (m : Moment) : Moment := { m with zone := .floating }

/-- The same instant in universal time; a floating moment is left as it is. -/
def toUtc (m : Moment) : Except CalendarError Moment :=
  match m.instant? with
  | none => .ok m
  | some n =>
    match WallTime.ofMicros? n with
    | some w => .ok ⟨w, .utc, false⟩
    | none => .error .outOfRange

end Moment

end Household.Calendar
