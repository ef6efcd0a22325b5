import Household.Calendar.Moment

/-!
# Recurrence rules

A rule repeats an event by days, weeks, months or years, every so many of
them, without end, a number of times or through a last moment. Listed
weekdays belong to weekly rules and a day of the month to monthly ones;
`Fields` holds the parts before this is checked.
-/

set_option autoImplicit false

namespace Household.Recurrence

open Household.Calendar

inductive Weekday where
  | monday
  | tuesday
  | wednesday
  | thursday
  | friday
  | saturday
  | sunday
  deriving DecidableEq, Repr

namespace Weekday

def all : List Weekday := [monday, tuesday, wednesday, thursday, friday, saturday, sunday]

def index : Weekday → Nat
  | monday => 0
  | tuesday => 1
  | wednesday => 2
  | thursday => 3
  | friday => 4
  | saturday => 5
  | sunday => 6

def code : Weekday → String
  | monday => "MO"
  | tuesday => "TU"
  | wednesday => "WE"
  | thursday => "TH"
  | friday => "FR"
  | saturday => "SA"
  | sunday => "SU"

def label : Weekday → String
  | monday => "Mon"
  | tuesday => "Tue"
  | wednesday => "Wed"
  | thursday => "Thu"
  | friday => "Fri"
  | saturday => "Sat"
  | sunday => "Sun"

def ofCode? (s : String) : Option Weekday := all.find? (fun d => d.code == s)

theorem index_lt (d : Weekday) : d.index < 7 := by cases d <;> decide

theorem ofCode?_code (d : Weekday) : ofCode? d.code = some d := by cases d <;> decide

end Weekday

inductive Frequency where
  | daily
  | weekly
  | monthly
  | yearly
  deriving DecidableEq, Repr

namespace Frequency

def all : List Frequency := [daily, weekly, monthly, yearly]

def name : Frequency → String
  | daily => "DAILY"
  | weekly => "WEEKLY"
  | monthly => "MONTHLY"
  | yearly => "YEARLY"

def ofName? (s : String) : Option Frequency := all.find? (fun f => f.name == s)

theorem ofName?_name (f : Frequency) : ofName? f.name = some f := by cases f <;> decide

end Frequency

/-- A monthly rule falls on the given day of the month, for zero on the day
of the event's start. -/
inductive Pattern where
  | daily
  | weekly (days : List Weekday)
  | monthly (day : Fin 32)
  | yearly
  deriving DecidableEq, Repr

inductive Limit where
  | unbounded
  | times (n : Nat) (pos : 0 < n)
  | through (last : Moment)
  deriving DecidableEq, Repr

structure Rule where
  pattern : Pattern
  interval : Nat
  interval_pos : 0 < interval
  limit : Limit
  deriving DecidableEq, Repr

namespace Rule

def frequency (r : Rule) : Frequency :=
  match r.pattern with
  | .daily => .daily
  | .weekly _ => .weekly
  | .monthly _ => .monthly
  | .yearly => .yearly

def byDay (r : Rule) : List Weekday :=
  match r.pattern with
  | .weekly days => days
  | _ => []

def byMonthDay (r : Rule) : Nat :=
  match r.pattern with
  | .monthly day => day.val
  | _ => 0

def count (r : Rule) : Nat :=
  match r.limit with
  | .times n _ => n
  | _ => 0

def last? (r : Rule) : Option Moment :=
  match r.limit with
  | .through m => some m
  | _ => none

end Rule

inductive RuleError where
  | intervalBelowOne (n : Int)
  | negativeCount (n : Int)
  | monthDayOutOfRange (n : Int)
  | countWithLast
  | byDayNotWeekly
  | byMonthDayNotMonthly
  | empty
  | malformedPart (part : String)
  | unsupportedKey (key : String)
  | duplicateKey (key : String)
  | unknownFrequency (name : String)
  | malformedNumber (key value : String)
  | malformedLast (value : String)
  | unknownDay (code : String)
  | missingFrequency
  deriving DecidableEq, Repr

structure Fields where
  frequency : Frequency
  interval : Int
  byDay : List Weekday
  byMonthDay : Int
  count : Int
  last? : Option Moment

namespace Fields

def limit (f : Fields) : Except RuleError Limit :=
  match f.last? with
  | some m => if 0 < f.count then .error .countWithLast else .ok (.through m)
  | none => if h : 0 < f.count.toNat then .ok (.times f.count.toNat h) else .ok .unbounded

def pattern (f : Fields) (day : Fin 32) : Except RuleError Pattern :=
  if f.byDay ≠ [] ∧ f.frequency ≠ .weekly then .error .byDayNotWeekly
  else if day ≠ 0 ∧ f.frequency ≠ .monthly then .error .byMonthDayNotMonthly
  else
    match f.frequency with
    | .daily => .ok .daily
    | .weekly => .ok (.weekly f.byDay)
    | .monthly => .ok (.monthly day)
    | .yearly => .ok .yearly

/-- The rule of these parts, unless they break one of its conditions. -/
def rule (f : Fields) : Except RuleError Rule :=
  if hi : f.interval < 1 then .error (.intervalBelowOne f.interval)
  else if f.count < 0 then .error (.negativeCount f.count)
  else if hd : 0 ≤ f.byMonthDay ∧ f.byMonthDay ≤ 31 then do
    let limit ← f.limit
    let pattern ← f.pattern ⟨f.byMonthDay.toNat, by omega⟩
    return ⟨pattern, f.interval.toNat, by omega, limit⟩
  else .error (.monthDayOutOfRange f.byMonthDay)

end Fields

end Household.Recurrence
