import Household.Expansion.Occurrence
import Household.Log
import Household.Recurrence.Reader

/-!
# Chores

A chore is done once or repeats by the text of its rule, from the day it was
created. Its due date on a day is the date of the latest occurrence that
starts before the day ends; a completion on that date or later closes the
cycle. A chore whose rule does not read counts as one to be done once, which
is reported; only a number of too many digits in it is passed on as a failure.
-/

set_option autoImplicit false

namespace Household

open Household.Calendar Household.Recurrence Household.Expansion

inductive Status where
  | pending
  | completed
  | overdue
  | notDue
  deriving DecidableEq, Repr

def Status.name : Status → String
  | pending => "pending"
  | completed => "completed"
  | overdue => "overdue"
  | notDue => "not_due"

structure Chore where
  id : Int
  title : String
  created : Moment
  ruleText : String
  household : Option Int

inductive Schedule where
  | once
  | repeating (r : Rule)
  | malformed (e : RuleError)

inductive ChoreError where
  | numberTooLong (digits : Nat)
  | calendar (e : CalendarError)
  deriving DecidableEq, Repr

def ChoreError.message : ChoreError → String
  | numberTooLong n => (ReadError.numberTooLong n).message
  | calendar e => e.message

namespace Chore

def logger : String := "hearth.core.chore_status"

def schedule (c : Chore) : Except ChoreError Schedule :=
  if c.ruleText.isEmpty then .ok .once
  else
    match Rule.ofText c.ruleText with
    | .ok r => .ok (.repeating r)
    | .error (.malformed e) => .ok (.malformed e)
    | .error (.numberTooLong n) => .error (.numberTooLong n)

def warnings (c : Chore) : List Log.Entry :=
  match c.schedule with
  | .ok (.malformed e) =>
    [⟨logger, .warning,
      s!"Invalid recurrence rule on chore {c.id} ({Text.quote c.ruleText}): {e.message}"⟩]
  | _ => []

/-- Chores are taken to last an hour; only the start of one matters. -/
def nominalDuration : Int := microsPerHour

def calendar {α : Type} : Except CalendarError α → Except ChoreError α
  | .ok a => .ok a
  | .error e => .error (.calendar e)

def startingBefore? (m : Moment) : List Occurrence → Except CalendarError (Option Occurrence)
  | [] => .ok none
  | o::os => do
    if ← o.start.before m then return some o
    startingBefore? m os

def onceStatus (completion? : Option Moment) : Status :=
  if completion?.isSome then .completed else .pending

def cycleStatus (due today : Date) (completion? : Option Moment) : Status :=
  if completion?.any (fun m => decide (due ≤ m.date)) then .completed
  else if due < today then .overdue
  else .pending

def repeatingStatus (c : Chore) (r : Rule) (completion? : Option Moment) (day : Moment) :
    Except ChoreError (Status × Option Date) := do
  let finish ← calendar (c.created.add nominalDuration)
  let horizon ← calendar (day.add (48 * microsPerHour))
  let os ← calendar (expand r c.created finish c.created horizon)
  if os.isEmpty then return (.notDue, none)
  let dayEnd ← calendar (day.add (24 * microsPerHour))
  match ← calendar (startingBefore? dayEnd os.reverse) with
  | none => return (.notDue, none)
  | some o => return (cycleStatus o.start.date day.date completion?, some o.start.date)

def status (c : Chore) (completion? : Option Moment) (today : Moment) :
    Except ChoreError (Status × Option Date) := do
  match ← c.schedule with
  | .repeating r => c.repeatingStatus r completion? today.startOfDay
  | _ => return (onceStatus completion?, none)

/-- Whether an occurrence of the chore falls on the day; a chore to be done
once is due every day, one whose rule does not read on none. -/
def isDue (c : Chore) (day : Moment) : Except ChoreError Bool := do
  match ← c.schedule with
  | .once => return true
  | .malformed _ => return false
  | .repeating r =>
    let finish ← calendar (c.created.add nominalDuration)
    let dayEnd ← calendar (day.startOfDay.add (24 * microsPerHour))
    let os ← calendar (expand r c.created finish day.startOfDay dayEnd)
    return !os.isEmpty

end Chore

end Household
