import Household.Calendar.Duration
import Household.Ledger
import Household.Reminder.Notice

/-!
# Plans

A plan asks collaborators for something, one request after another, and goes
on with each reply or failure; in between it reports what happens. A plan
holds no state: whoever runs it answers the requests. Every plan ends.
-/

set_option autoImplicit false

namespace Household.Reminder

open Household.Calendar

/-- Why a request or a whole plan fails. An expired subscription is gone for
good. -/
inductive Fault where
  | failure (reason : String)
  | transient (reason : String)
  | expired (reason : String)
  | calendar (e : CalendarError)
  | duration (e : DurationError)
  | chore (e : ChoreError)
  deriving DecidableEq, Repr

def Fault.message : Fault → String
  | failure reason => reason
  | transient reason => reason
  | expired reason => reason
  | calendar e => e.message
  | duration e => e.message
  | chore e => e.message

inductive Request where
  | clock
  | households
  | events (first last : Moment)
  | chores (household : Int)
  | targets (household : Int)
  | isEnabled (user household : Int) (kind : Kind)
  | send (target : Target) (payload : Payload)
  | removeEndpoint (endpoint : String)
  | wasSent (key : Ledger.Key)
  | recordSent (key : Ledger.Key)
  | sweepLedger (cutoff : Moment)
  | allow (key : String)
  | sweepThrottle

abbrev Request.Reply : Request → Type
  | clock => Moment
  | households => List Int
  | events _ _ => List Event
  | chores _ => List Chore
  | targets _ => List Target
  | isEnabled _ _ _ => Bool
  | send _ _ => Unit
  | removeEndpoint _ => Unit
  | wasSent _ => Bool
  | recordSent _ => Unit
  | sweepLedger _ => Nat
  | allow _ => Bool
  | sweepThrottle => Nat

inductive Plan (α : Type) : Type where
  | done (r : Except Fault α)
  | ask (q : Request) (next : Except Fault q.Reply → Plan α)
  | report (e : Log.Entry) (rest : Plan α)

namespace Plan

variable {α β : Type}

/-- Goes on with the result of a plan, whether it failed or not. -/
def andThen (p : Plan α) (next : Except Fault α → Plan β) : Plan β :=
  match p with
  | done r => next r
  | ask q k => ask q (fun r => (k r).andThen next)
  | report e rest => report e (rest.andThen next)

def fail (f : Fault) : Plan α := done (.error f)

instance : Monad Plan where
  pure a := done (.ok a)
  bind p f := p.andThen (fun r =>
    match r with
    | .ok a => f a
    | .error e => fail e)

def attempt (p : Plan α) : Plan (Except Fault α) := p.andThen (fun r => done (.ok r))

def call (q : Request) : Plan q.Reply := ask q done

def note (e : Log.Entry) : Plan Unit := report e (done (.ok ()))

def ofExcept {ε : Type} (fault : ε → Fault) : Except ε α → Plan α
  | .ok a => done (.ok a)
  | .error e => fail (fault e)

def each (f : β → Plan Unit) : List β → Plan Unit
  | [] => pure ()
  | b::bs => do
    f b
    each f bs

/-- Someone who answers requests, from a state that each request may change. -/
abbrev Handler (σ : Type) := (q : Request) → σ → Except Fault q.Reply × σ

/-- What a plan comes to under a handler: its result, its reports and the
state that is left. -/
def run {σ : Type} (h : Handler σ) : Plan α → σ → Except Fault α × List Log.Entry × σ
  | done r, s => (r, [], s)
  | ask q k, s => run h (k (h q s).1) (h q s).2
  | report e rest, s =>
    let r := run h rest s
    (r.1, e :: r.2.1, r.2.2)

theorem run_andThen {σ : Type} (h : Handler σ) (p : Plan α) (f : Except Fault α → Plan β) (s : σ) :
    run h (p.andThen f) s =
      let first := run h p s
      let rest := run h (f first.1) first.2.2
      (rest.1, first.2.1 ++ rest.2.1, rest.2.2) := by
  induction p generalizing s with
  | done r => simp [andThen, run]
  | ask q k ih => simp only [andThen, run]; exact ih _ _
  | report e rest ih => simp [andThen, run, ih]

end Plan

end Household.Reminder
