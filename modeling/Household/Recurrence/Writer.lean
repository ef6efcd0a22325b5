import Household.Recurrence.Rule
import Household.Recurrence.Reader

/-!
# Writing rules

The canonical text names the frequency first and then, in a fixed order, what
differs from the default. A last moment is written in universal time, its
year without leading zeros. The phrase of a rule is for display.
-/

set_option autoImplicit false

namespace Household.Recurrence

open Household.Calendar Household.Text

def part (key : Key) (value : List Char) : List Char := key.name.toList ++ '=' :: value

def stampText (w : WallTime) : List Char :=
  digits w.date.civil.year ++ padded 2 w.date.civil.month ++ padded 2 w.date.civil.day ++
    'T' :: padded 2 w.hour ++ padded 2 w.minute ++ padded 2 w.second ++ ['Z']

namespace Rule

def intervalParts (r : Rule) : List (List Char) :=
  if 1 < r.interval then [part .interval (digits r.interval)] else []

def byDayParts (r : Rule) : List (List Char) :=
  if r.byDay = [] then [] else [part .byDay (join [','] (r.byDay.map (fun d => d.code.toList)))]

def byMonthDayParts (r : Rule) : List (List Char) :=
  if 0 < r.byMonthDay then [part .byMonthDay (digits r.byMonthDay)] else []

def limitParts (r : Rule) : Except CalendarError (List (List Char)) :=
  match r.limit with
  | .unbounded => .ok []
  | .times n _ => .ok [part .count (digits n)]
  | .through m => m.toUtc.map (fun u => [part .last (stampText u.wall)])

def parts (r : Rule) : Except CalendarError (List (List Char)) :=
  r.limitParts.map (fun ps =>
    part .frequency r.frequency.name.toList ::
      (r.intervalParts ++ r.byDayParts ++ r.byMonthDayParts ++ ps))

/-- The canonical text; it fails where the last moment leaves the calendar. -/
def text (r : Rule) : Except CalendarError (List Char) := r.parts.map (join [';'])

def every (n : Nat) (unit adverb : String) : String :=
  if 1 < n then s!"Repeats every {n} {unit}" else s!"Repeats {adverb}"

def describe (r : Rule) : String :=
  match r.pattern with
  | .daily => every r.interval "days" "daily"
  | .weekly [] => every r.interval "weeks" "weekly"
  | .weekly days =>
    every r.interval "weeks" "weekly" ++ " on " ++ ", ".intercalate (days.map Weekday.label)
  | .monthly _ => every r.interval "months" "monthly"
  | .yearly => every r.interval "years" "yearly"

end Rule

end Household.Recurrence
