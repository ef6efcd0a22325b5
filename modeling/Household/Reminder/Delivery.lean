import Household.Reminder.Plan

/-!
# Delivery

A payload goes to every target of a household whose user has the notice
switched on, leaving out one user on request. A failure at one target is
reported and does not keep the others from theirs; a subscription that has
expired is removed. The result is the number of pushes that succeeded.
-/

set_option autoImplicit false

namespace Household.Reminder

open Plan

def reportTo (logger : String) (level : Log.Level) (text : String) : Plan Unit :=
  note ⟨logger, level, text⟩

def removeTarget (logger : String) (endpoint : String) : Plan Unit := do
  match ← attempt (call (.removeEndpoint endpoint)) with
  | .ok _ => pure ()
  | .error e =>
    reportTo logger .warning s!"Removing expired endpoint {endpoint} failed: {e.message}"

def push (logger : String) (kind : Kind) (payload : Payload) (t : Target) : Plan Bool := do
  match ← attempt (call (.send t payload)) with
  | .ok _ => pure true
  | .error (.expired _) =>
    reportTo logger .info s!"Push subscription expired, removing {t.endpoint}"
    removeTarget logger t.endpoint
    pure false
  | .error e =>
    reportTo logger .warning s!"Sending {kind.name} to user {t.user} failed: {e.message}"
    pure false

def pushIfEnabled (logger : String) (household : Int) (kind : Kind) (payload : Payload)
    (t : Target) : Plan Bool := do
  match ← attempt (call (.isEnabled t.user household kind)) with
  | .ok true => push logger kind payload t
  | .ok false => pure false
  | .error e =>
    reportTo logger .warning s!"Preference lookup for user {t.user} failed: {e.message}"
    pure false

/-- Pushes to each target but those of the excluded user, and counts on from
`sent`. -/
def pushAll (logger : String) (household : Int) (kind : Kind) (payload : Payload)
    (excluded? : Option Int) : List Target → Nat → Plan Nat
  | [], sent => pure sent
  | t::ts, sent => do
    if excluded? = some t.user then pushAll logger household kind payload excluded? ts sent
    else
      let ok ← pushIfEnabled logger household kind payload t
      pushAll logger household kind payload excluded? ts (if ok then sent + 1 else sent)

/-- The fan-out of a payload in a household; it fails only with the listing
of its targets. -/
def deliver (logger : String) (household : Int) (kind : Kind) (payload : Payload)
    (excluded? : Option Int) : Plan Nat := do
  let targets ← call (.targets household)
  pushAll logger household kind payload excluded? targets 0

end Household.Reminder
