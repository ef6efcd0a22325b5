import Household.Reminder.Plan

/-!
# Scripted collaborators

Under simulation the collaborators answer from a script: what they know, and
which of their next calls fail, take their time or end some other way.
-/

set_option autoImplicit false

namespace Household.Simulation

open Household.Reminder

inductive Service where
  | households
  | events
  | chores
  | targets
  | isEnabled
  | send
  | removeEndpoint
  | wasSent
  | recordSent
  | sweepLedger
  deriving DecidableEq, Repr

/-- The service that a request is noted under. The clock and the throttle
are not among them. -/
def serviceOf? : Request → Option Service
  | .clock => none
  | .households => some .households
  | .events _ _ => some .events
  | .chores _ => some .chores
  | .targets _ => some .targets
  | .isEnabled _ _ _ => some .isEnabled
  | .send _ _ => some .send
  | .removeEndpoint _ => some .removeEndpoint
  | .wasSent _ => some .wasSent
  | .recordSent _ => some .recordSent
  | .sweepLedger _ => some .sweepLedger
  | .allow _ => none
  | .sweepThrottle => none

def Service.isLedger : Service → Bool
  | wasSent => true
  | recordSent => true
  | sweepLedger => true
  | _ => false

inductive SendBehaviour where
  | succeeds
  | fails (f : Fault)
  | pauses (length : Number)

inductive WriteBehaviour where
  | succeeds
  | pauses (length : Number)
  | fails (reason : String)
  | timesOut

structure Script where
  households : List Int
  targets : List (Int × List Target)
  events : List Event
  chores : List (Int × List Chore)
  /-- Users of households that have a kind of notice switched off. -/
  disabled : List (Int × Int × String)
  /-- For the next calls of a service, why each fails, if it does. -/
  failures : List (Service × List (Option String))
  sends : List (String × List SendBehaviour)

def takeNext {κ α : Type} [DecidableEq κ] (k : κ) :
    List (κ × List α) → Option α × List (κ × List α)
  | [] => (none, [])
  | (l, as)::rest =>
    if l = k then
      match as with
      | [] => (none, (l, []) :: rest)
      | a::as => (some a, (l, as) :: rest)
    else ((takeNext k rest).1, (l, as) :: (takeNext k rest).2)

namespace Script

def empty : Script := ⟨[], [], [], [], [], [], []⟩

def nextFailure (s : Script) (v : Service) : Option String × Script :=
  let r := takeNext v s.failures
  (r.1.getD none, { s with failures := r.2 })

def nextSend (s : Script) (endpoint : String) : SendBehaviour × Script :=
  let r := takeNext endpoint s.sends
  (r.1.getD .succeeds, { s with sends := r.2 })

def targetsOf (s : Script) (household : Int) : List Target := (s.targets.lookup household).getD []

def choresOf (s : Script) (household : Int) : List Chore := (s.chores.lookup household).getD []

def isEnabled (s : Script) (user household : Int) (kind : Kind) : Bool :=
  !s.disabled.contains (user, household, kind.name)

def removeEndpoint (s : Script) (endpoint : String) : Script :=
  { s with targets := s.targets.map (fun r =>
      (r.1, r.2.filter (fun t => decide (t.endpoint ≠ endpoint)))) }

end Script

end Household.Simulation
