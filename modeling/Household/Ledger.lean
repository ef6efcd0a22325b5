import Household.Calendar.Text
import Household.Log
import Household.Table

/-!
# Sent ledger

The ledger remembers which notices went out: one row for each household, kind
of notice, reference and lead time, stamped with the time of its first
record. A sweep removes the rows stamped before a cutoff; where a stamp and
the cutoff cannot be compared it fails and removes nothing.
-/

set_option autoImplicit false

namespace Household

open Household.Calendar

structure Ledger.Key where
  household : Int
  kind : String
  reference : String
  lead : Int
  deriving DecidableEq, Repr

abbrev Ledger := Table Ledger.Key Moment

namespace Ledger

def logger : String := "hearth.adapters.memory_ledger"

def wasSent (l : Ledger) (k : Key) : Bool := l.contains k

/-- Records a notice; a row that is there keeps its stamp. -/
def record (l : Ledger) (now : Moment) (k : Key) : Ledger :=
  if l.contains k then l else l.put k now

def comparable (l : Ledger) (cutoff : Moment) : Bool :=
  l.entries.all (fun e => (e.2.distance? cutoff).isSome)

def isStale (cutoff stamp : Moment) : Bool := (stamp.distance? cutoff).any (fun d => decide (d < 0))

def staleCount (l : Ledger) (cutoff : Moment) : Nat := l.count (fun _ stamp => isStale cutoff stamp)

def sweep (l : Ledger) (cutoff : Moment) : Except CalendarError Ledger :=
  if l.comparable cutoff then .ok (l.filter (fun _ stamp => !isStale cutoff stamp))
  else .error .mixedComparison

def sweepLog (n : Nat) (cutoff : Moment) : List Log.Entry :=
  if n = 0 then []
  else [⟨logger, .debug,
    s!"Removed {n} sent-notification rows older than {cutoff.spacedText}"⟩]

inductive Op where
  | wasSent (k : Key)
  | record (k : Key)
  | sweep (cutoff : Moment)

inductive Reply where
  | sent (b : Bool)
  | recorded
  | removed (n : Nat)
  deriving DecidableEq, Repr

/-- What an operation at `now` answers, and the ledger after it. -/
def step (l : Ledger) (now : Moment) : Op → Except CalendarError Reply × Ledger
  | .wasSent k => (.ok (.sent (l.wasSent k)), l)
  | .record k => (.ok .recorded, l.record now k)
  | .sweep cutoff =>
    match l.sweep cutoff with
    | .ok l' => (.ok (.removed (l.staleCount cutoff)), l')
    | .error e => (.error e, l)

def Reply.logs (r : Reply) : Op → List Log.Entry
  | .sweep cutoff =>
    match r with
    | .removed n => sweepLog n cutoff
    | _ => []
  | _ => []

def run (l : Ledger) : List (Moment × Op) → Ledger
  | [] => l
  | (now, op)::ops => run (l.step now op).2 ops

end Ledger

end Household
