import Household.Reminder.Delivery

/-!
# Ticks and grocery notices

A tick goes through the households: events that are due to be announced, and
at the top of an hour the chores of the day. The sent ledger keeps each of
these to one fan-out; a fan-out counts once its targets could be listed. What
fails in one household is reported and leaves the others alone. Grocery
notices go out on demand, throttled per household and without the ledger.
-/

set_option autoImplicit false

namespace Household.Reminder

open Household.Calendar Plan

structure Scheduler where
  logger : String
  /-- How far ahead of a tick events are announced. -/
  window : Except DurationError Int
  throttled : Bool

namespace Scheduler

/-- The fan-out of a notice that has not gone out; the number of pushes. -/
def deliverOnce (s : Scheduler) (kind : Kind) (key : Ledger.Key) (payload : Payload) :
    Plan (Option Nat) := do
  if ← call (.wasSent key) then pure none
  else
    let sent ← deliver s.logger key.household kind payload none
    call (.recordSent key)
    pure (some sent)

def announce (s : Scheduler) (household : Int) (e : Event) : Plan Unit :=
  match e.lead with
  | .unset => pure ()
  | .unreadable reason => fail (.failure reason)
  | .minutes lead => do
    let key : Ledger.Key :=
      ⟨household, Kind.calendarReminder.name, eventReference e.id, lead⟩
    match ← attempt (s.deliverOnce .calendarReminder key (.ofEvent e lead)) with
    | .ok none => pure ()
    | .ok (some sent) =>
      reportTo s.logger .info <|
        s!"Calendar reminder for event {e.id} sent to {sent} target(s) " ++
          s!"in household {household}"
    | .error f =>
      reportTo s.logger .error <|
        s!"Calendar reminder for event {e.id} in household {household} " ++
          s!"failed: {f.message}"

def dueChores (now : Moment) : List Chore → Plan (List Chore)
  | [] => pure []
  | c::cs => do
    each note c.warnings
    let due ← ofExcept .chore (c.isDue now)
    let rest ← dueChores now cs
    pure (if due then c :: rest else rest)

/-- The summary of the chores that are due, at the top of an hour only. -/
def summarize (s : Scheduler) (household : Int) (now : Moment) : Plan Unit := do
  if now.wall.minute ≠ 0 then pure ()
  else
    let key : Ledger.Key :=
      ⟨household, Kind.choresDue.name, summaryReference now.date, 0⟩
    if ← call (.wasSent key) then pure ()
    else
      let chores ← call (.chores household)
      let due ← dueChores now chores
      if due.isEmpty then pure ()
      else
        let sent ← deliver s.logger household .choresDue (.ofChores due) none
        call (.recordSent key)
        reportTo s.logger .info <|
          s!"Chore summary ({due.length} due) sent to {sent} target(s) " ++
            s!"in household {household}"

def upcoming (s : Scheduler) (now : Moment) : Plan (List Event) := do
  let window ← ofExcept .duration s.window
  let last ← ofExcept .calendar (now.add window)
  match ← attempt (call (.events now last)) with
  | .ok es => pure es
  | .error f =>
    reportTo s.logger .error s!"Reminder tick: loading upcoming events failed: {f.message}"
    pure []

def serve (s : Scheduler) (now : Moment) (events : List Event) (household : Int) : Plan Unit := do
  let own := events.filter (fun e => decide (e.household = household))
  match ← attempt (each (s.announce household) own) with
  | .ok _ => pure ()
  | .error f =>
    reportTo s.logger .error
      s!"Calendar reminders failed for household {household}: {f.message}"
  match ← attempt (s.summarize household now) with
  | .ok _ => pure ()
  | .error f =>
    reportTo s.logger .error s!"Chore summary failed for household {household}: {f.message}"

def tick (s : Scheduler) : Plan Unit := do
  let now ← call .clock
  match ← attempt (call .households) with
  | .error f =>
    reportTo s.logger .error s!"Reminder tick: listing households failed: {f.message}"
  | .ok households =>
    let events ← s.upcoming now
    each (s.serve now events) households

def groceryKey (household : Int) : String := s!"grocery:{household}"

def passes (s : Scheduler) (household : Int) : Plan Bool :=
  if s.throttled then call (.allow (groceryKey household)) else pure true

/-- Tells a household but the excluded user of a new item; whether the notice
was let through. -/
def grocery (s : Scheduler) (household : Int) (excluded? : Option Int) (item : String) :
    Plan Bool := do
  if ← s.passes household then
    match ← attempt (deliver s.logger household .groceryAdded (.ofGrocery item) excluded?) with
    | .ok _ => pure true
    | .error f =>
      reportTo s.logger .error
        s!"Grocery notification for household {household} failed: {f.message}"
      pure true
  else
    reportTo s.logger .info s!"Grocery notification for household {household} throttled"
    pure false

end Scheduler

end Household.Reminder
