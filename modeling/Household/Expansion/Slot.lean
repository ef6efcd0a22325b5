import Household.Recurrence.Rule

/-!
# Slots

The slots of a rule are numbered from zero at the event's start. Each is held
on a date, at the start's time of day, or skipped because its month or year
lacks the day; the sequence ends where the calendar does. Every slot is given
in closed form, so no slot depends on the ones before it.
-/

set_option autoImplicit false

namespace Household.Expansion

open Household.Calendar Household.Recurrence

inductive Slot where
  | held (m : Moment)
  | skipped
  deriving DecidableEq, Repr

/-- The start itself, then whole days after it. -/
def daySlot? (start : Moment) (step k : Nat) : Option Slot :=
  if k = 0 then some (.held start)
  else (start.add? ((k * step : Nat) * microsPerDay)).map .held

/-- The listed weekdays as days after Monday, ascending and without repetition. -/
def listedDays (days : List Weekday) : List Nat :=
  (List.range 7).filter (fun i => days.any (fun d => d.index == i))

/-- The `j`th listed day from the Monday of the start's week on, in weeks that
are `interval` apart. -/
def listedDate? (start : Moment) (interval : Nat) (days : List Weekday) (j : Nat) :
    Option Date :=
  let offsets := listedDays days
  start.date.monday.addDays?
    (7 * interval * (j / offsets.length) + (offsets[j % offsets.length]?).getD 0)

/-- How many listed days of the start's week lie before the start. -/
def listedBefore (start : Moment) (days : List Weekday) : Nat :=
  ((listedDays days).filter (fun i => decide (i < start.date.weekday))).length

def weekSlot? (start : Moment) (interval : Nat) (days : List Weekday) (k : Nat) : Option Slot :=
  (listedDate? start interval days (k + listedBefore start days)).map
    (fun d => .held (start.onDate d))

/-- The slot on a date given by year, month and day, skipped where there is
no such date. -/
def civilSlot? (start : Moment) (c : Civil) : Option Slot :=
  if lastYear < c.year then none
  else
    match Date.ofCivil? c with
    | some d => some (.held (start.onDate d))
    | none => some .skipped

def monthSlot? (start : Moment) (interval day k : Nat) : Option Slot :=
  let c := start.date.civil
  let month := c.year * 12 + (c.month - 1) + k * interval
  if k = 0 then some (.held start)
  else civilSlot? start ⟨month / 12, month % 12 + 1, if day = 0 then c.day else day⟩

def yearSlot? (start : Moment) (interval k : Nat) : Option Slot :=
  let c := start.date.civil
  civilSlot? start ⟨c.year + k * interval, c.month, c.day⟩

/-- The slot of a number; there is none after the end of the sequence. -/
def slot? (r : Rule) (start : Moment) (k : Nat) : Option Slot :=
  match r.pattern with
  | .daily => daySlot? start r.interval k
  | .weekly [] => daySlot? start (7 * r.interval) k
  | .weekly days => weekSlot? start r.interval days k
  | .monthly day => monthSlot? start r.interval day.val k
  | .yearly => yearSlot? start r.interval k

end Household.Expansion
