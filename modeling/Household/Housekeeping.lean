import Household.Reminder.Plan

/-!
# Housekeeping

A sweep forgets the throttle's closed windows and the rows of the sent ledger
that are past their retention. When the ledger fails, the throttle has been
swept all the same.
-/

set_option autoImplicit false

namespace Household

open Household.Calendar Household.Reminder Household.Reminder.Plan

structure Janitor where
  logger : String
  /-- How long rows of the ledger are kept. -/
  retention : Int

namespace Janitor

def sweepLedger (j : Janitor) : Plan Nat := do
  let now ← call .clock
  let cutoff ← ofExcept .calendar (now.add (-j.retention))
  call (.sweepLedger cutoff)

def sweep (j : Janitor) : Plan Unit := do
  let windows ← call .sweepThrottle
  let rows ← do
    match ← attempt j.sweepLedger with
    | .ok n => pure n
    | .error f =>
      note ⟨j.logger, .error, s!"Sent ledger cleanup failed: {f.message}"⟩
      pure 0
  note ⟨j.logger, .debug,
    s!"Janitor removed {windows} rate-limit window(s) and {rows} ledger row(s)"⟩

end Janitor

end Household
