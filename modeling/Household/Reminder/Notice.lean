import Household.Calendar.Text
import Household.Chore

/-!
# Notices

The three kinds of push notice, what each one says, and the references by
which the sent ledger knows a notice that must not go out twice.
-/

set_option autoImplicit false

namespace Household.Reminder

open Household.Calendar

inductive Kind where
  | calendarReminder
  | choresDue
  | groceryAdded
  deriving DecidableEq, Repr

def Kind.name : Kind → String
  | calendarReminder => "calendar_reminder"
  | choresDue => "chore_due"
  | groceryAdded => "grocery_added"

structure Payload where
  title : String
  body : String
  url : String
  tag : String
  deriving DecidableEq, Repr

/-- The minutes before an event at which it is announced, if it has any; they
may be impossible to read. -/
inductive Lead where
  | unset
  | minutes (n : Int)
  | unreadable (reason : String)
  deriving DecidableEq, Repr

structure Event where
  id : Int
  title : String
  household : Int
  lead : Lead
  deriving DecidableEq, Repr

structure Target where
  user : Int
  endpoint : String
  deriving DecidableEq, Repr

def eventReference (id : Int) : String := s!"event-{id}"

def summaryReference (d : Date) : String := s!"chore-daily-{d.text}"

namespace Payload

def ofEvent (e : Event) (lead : Int) : Payload where
  title := "Calendar Reminder"
  body := s!"{e.title} starts in {lead} minutes"
  url := "/calendar"
  tag := s!"calendar-{e.id}"

/-- One chore is named, more are counted. -/
def ofChores (due : List Chore) : Payload where
  title := "Chore Reminders"
  body :=
    match due with
    | [c] => s!"Chore due today: {c.title}"
    | cs => s!"You have {cs.length} chores to do today"
  url := "/chores"
  tag := "chore-daily"

def ofGrocery (item : String) : Payload where
  title := "Grocery List Updated"
  body := s!"{item} was added to the grocery list"
  url := "/grocery"
  tag := "grocery-added"

end Payload

end Household.Reminder
