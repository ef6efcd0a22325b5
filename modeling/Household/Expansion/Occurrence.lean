import Household.Expansion.Slot

/-!
# Occurrences

The expansion walks the slots of a rule in order and keeps the occurrences
that overlap a window. It leaves at the last moment of the rule, at the end
of the window, when the count is used up, at the end of the calendar and, in
any case, after a fixed number of slots, skipped ones included.
-/

set_option autoImplicit false

namespace Household.Expansion

open Household.Calendar Household.Recurrence

structure Occurrence where
  start : Moment
  finish : Moment
  deriving DecidableEq, Repr

def slotLimit : Nat := 10000

/-- A rule, its base event and the window `[first, last)`. -/
structure Query where
  rule : Rule
  start : Moment
  duration : Int
  first : Moment
  last : Moment

namespace Query

/-- The last moment of the rule; for a floating event it is read as floating. -/
def ending? (q : Query) : Option Moment :=
  q.rule.last?.map (fun m =>
    if q.start.isFloating && !m.isFloating then m.float else m)

inductive Visit where
  | leave
  | outside
  | keep (o : Occurrence)

def pastEnding (q : Query) (m : Moment) : Except CalendarError Bool :=
  match q.ending? with
  | none => .ok false
  | some e => e.before m

def visit (q : Query) (earlier : Nat) (m : Moment) : Except CalendarError Visit := do
  if ← q.pastEnding m then return .leave
  if !(← m.before q.last) then return .leave
  if q.rule.count ≠ 0 ∧ q.rule.count < earlier + 1 then return .leave
  match m.add? q.duration with
  | none => return .leave
  | some finish =>
    if ← q.first.before finish then return .keep ⟨m, finish⟩ else return .outside

/-- Walks `fuel` slots from number `k` on, after `earlier` held ones. -/
def walk (q : Query) : Nat → Nat → Nat → Except CalendarError (List Occurrence)
  | 0, _, _ => .ok []
  | fuel + 1, k, earlier =>
    match slot? q.rule q.start k with
    | none => .ok []
    | some .skipped => walk q fuel (k + 1) earlier
    | some (.held m) => do
      match ← q.visit earlier m with
      | .leave => return []
      | .outside => walk q fuel (k + 1) (earlier + 1)
      | .keep o => return o :: (← walk q fuel (k + 1) (earlier + 1))

def occurrences (q : Query) : Except CalendarError (List Occurrence) := q.walk slotLimit 0 0

end Query

/-- The occurrences of an event that overlap the window `[first, last)`. -/
def expand (r : Rule) (start finish first last : Moment) :
    Except CalendarError (List Occurrence) := do
  let duration ← finish.sub start
  Query.occurrences ⟨r, start, duration, first, last⟩

end Household.Expansion
