import Household.Proofs.Expansion.Anchor

/-!
# Stepping through the calendar

The slots of a rule can be found one after the other: from day to day, through
the listed days of one week after the other, from month to month or from year
to year. Wherever the start lies and however long the steps are, no step asks
for a date that there is not: the sequence ends where it would leave the
calendar. An expansion that steps from slot to slot fails only where moments
that cannot be compared meet.
-/

set_option autoImplicit false

namespace Household.Calendar

def Date.subDays? (d : Date) (n : Nat) : Option Date :=
  if n ≤ d.number then some ⟨d.number - n, Nat.lt_of_le_of_lt (Nat.sub_le _ _) d.lt_dayCount⟩
  else none

/-- The calendar begins with a Monday, so it goes back to the Monday of every week. -/
theorem Date.subDays?_weekday (d : Date) : d.subDays? d.weekday = some d.monday :=
  if_pos (Nat.mod_le _ _)

theorem Moment.exists_sub {a b : Moment} (h : a.isFloating = b.isFloating) :
    ∃ d, a.sub b = .ok d := by
  obtain ⟨d, hd⟩ := distance?_of_comparable h
  exact ⟨d, by simp only [sub, hd]⟩

end Household.Calendar

namespace Household.Expansion

open Household.Calendar Household.Recurrence

/-! Walks -/

/-- The first `n` moments from one on, each so many days after the one before
it, as far as they lie in the calendar. -/
def dayWalk (step : Nat) : Nat → Moment → List Moment
  | 0, _ => []
  | n + 1, m =>
    match m.add? (step * microsPerDay) with
    | none => [m]
    | some next => m :: dayWalk step n next

/-- The search for listed weekdays, begun on the Monday that lies so many days
before the start. -/
def weekWalk? (start : Moment) (interval : Nat) (days : List Weekday) (n : Nat) :
    Option (List Moment) := do
  let monday ← start.date.subDays? start.date.weekday
  Place.take? start interval days 7 n ⟨monday, listedDays days⟩

/-- The first `n` slots of a rule, each found from the one before it; `none`
where a date is asked for that there is not. -/
def sequence? (r : Rule) (start : Moment) (n : Nat) : Option (List Slot) :=
  match r.pattern with
  | .daily => some ((dayWalk r.interval n start).map .held)
  | .weekly [] => some ((dayWalk (7 * r.interval) n start).map .held)
  | .weekly days => (weekWalk? start r.interval days n).map (·.map .held)
  | .monthly day => monthWalk? start r.interval (targetDay start day) n
  | .yearly => yearWalk? start r.interval n

theorem daySlot?_succ {start m : Moment} {step k : Nat}
    (h : daySlot? start step k = some (.held m)) :
    daySlot? start step (k + 1) = (m.add? (step * microsPerDay)).map .held := by
  rw [← daySlot?_anchor h 1, daySlot?, if_neg Nat.one_ne_zero, Nat.one_mul]

theorem dayWalk_eq {start m : Moment} {step k : Nat} (hstep : 0 < step)
    (h : daySlot? start step k = some (.held m)) (n : Nat) :
    (dayWalk step n m).map .held = (List.range' k n).filterMap (daySlot? start step) := by
  induction n generalizing m k with
  | zero => rfl
  | succ n ih =>
    have hnext := daySlot?_succ h
    rw [List.range'_succ, List.filterMap_cons, h, dayWalk]
    cases hadd : m.add? (step * microsPerDay) with
    | none =>
      rw [hadd] at hnext
      have hrest : (List.range' (k + 1) n).filterMap (daySlot? start step) = [] :=
        List.filterMap_eq_nil_iff.mpr fun j hj =>
          (daySlot?_ascending start hstep).ended hnext (List.mem_range'_1.mp hj).1
      simp only [hrest, List.map_cons, List.map_nil]
    | some next =>
      rw [hadd] at hnext
      simp only [List.map_cons, ih hnext]

theorem weekWalk?_eq {r : Rule} {days : List Weekday} (hr : r.pattern = .weekly days)
    (hd : days ≠ []) (start : Moment) (n : Nat) :
    (weekWalk? start r.interval days n).map (·.map .held) =
      some ((List.range n).filterMap (slot? r start)) := by
  have htake := take?_first start r.interval_pos hd n
  have hslots : slot? r start = fun k =>
      ((weekDate? start r.interval days k).map start.onDate).map .held := by
    funext k
    rw [slot?_weekly hr hd, Option.map_map]
    rfl
  unfold weekWalk?
  rw [Date.subDays?_weekday, hslots, ← List.map_filterMap]
  exact congrArg (Option.map (List.map Slot.held)) htake

/-- Stepping gives the slots of a rule, and no step asks for a date that there is not. -/
theorem sequence?_eq (r : Rule) (start : Moment) (n : Nat) :
    sequence? r start n = some ((List.range n).filterMap (slot? r start)) := by
  have hinterval := r.interval_pos
  cases hp : r.pattern with
  | daily =>
    have hslots : slot? r start = daySlot? start r.interval := by
      funext k
      simp only [slot?, hp]
    simp only [sequence?, hp, hslots, List.range_eq_range']
    exact congrArg some (dayWalk_eq hinterval rfl n)
  | weekly days =>
    cases days with
    | nil =>
      have hslots : slot? r start = daySlot? start (7 * r.interval) := by
        funext k
        simp only [slot?, hp]
      simp only [sequence?, hp, hslots, List.range_eq_range']
      exact congrArg some (dayWalk_eq (by omega) rfl n)
    | cons w ws =>
      simp only [sequence?, hp]
      exact weekWalk?_eq hp (by simp) start n
  | monthly day =>
    simp only [sequence?, hp]
    exact monthWalk?_eq hp start n
  | yearly =>
    simp only [sequence?, hp]
    exact yearWalk?_eq hp start n

/-! Expansions -/

/-- Where all moments can be compared, every walk comes to an end without failing. -/
theorem Query.exists_walk {q : Query} (hq : q.Coherent) (fuel k earlier : Nat) :
    ∃ os, q.walk fuel k earlier = .ok os := by
  induction fuel generalizing k earlier with
  | zero => exact ⟨[], rfl⟩
  | succ fuel ih =>
    rw [walk]
    cases hk : slot? q.rule q.start k with
    | none => exact ⟨[], rfl⟩
    | some s =>
      cases s with
      | skipped => exact ih (k + 1) earlier
      | held m =>
        have hm := Moment.isFloating_of_zone ((slot?_ascending q.rule q.start).zone hk)
        obtain ⟨os, hos⟩ := ih (k + 1) (earlier + 1)
        simp only [visit_eq hq earlier hm, hos, bind, Except.bind, pure, Except.pure]
        split
        · exact ⟨_, rfl⟩
        · exact ⟨_, rfl⟩
        · exact ⟨_, rfl⟩

/-- An expansion that steps through the first slots, passes over the skipped
ones and keeps what it wants of the others; `none` where a date is asked for
that there is not. -/
def stepwise? (r : Rule) (start finish first last : Moment) :
    Option (Except CalendarError (List Occurrence)) := do
  let slots ← sequence? r start slotLimit
  return do
    let duration ← finish.sub start
    Query.keep ⟨r, start, duration, first, last⟩ (slots.filterMap Slot.moment?) 0

theorem stepwise?_eq (r : Rule) (start finish first last : Moment) :
    stepwise? r start finish first last = some (expand r start finish first last) := by
  have hkeep (duration : Int) : Query.keep ⟨r, start, duration, first, last⟩
      (((List.range slotLimit).filterMap (slot? r start)).filterMap Slot.moment?) 0 =
        Query.occurrences ⟨r, start, duration, first, last⟩ := by
    rw [List.filterMap_filterMap, List.range_eq_range']
    exact (walk_eq_keep slotLimit 0 0).symm
  simp only [stepwise?, sequence?_eq, bind, Option.bind, hkeep]
  rfl

/-- Of moments that all float or none of which does, every rule has an
expansion; stepping to its slots never leaves the calendar. -/
theorem expand_total {r : Rule} {start finish first last : Moment}
    (hfinish : finish.isFloating = start.isFloating) (hfirst : first.isFloating = start.isFloating)
    (hlast : last.isFloating = start.isFloating)
    (hending : ∀ m ∈ r.last?, m.isFloating = true → start.isFloating = true) :
    (∀ n, sequence? r start n = some ((List.range n).filterMap (slot? r start))) ∧
      ∃ os, stepwise? r start finish first last = some (.ok os) ∧
        expand r start finish first last = .ok os := by
  obtain ⟨duration, hduration⟩ := Moment.exists_sub hfinish
  have hq : Query.Coherent ⟨r, start, duration, first, last⟩ := ⟨hfirst, hlast, hending⟩
  obtain ⟨os, hos⟩ := Query.exists_walk hq slotLimit 0 0
  have hexpand : expand r start finish first last = .ok os := by
    rw [expand_of_sub hduration]
    exact hos
  exact ⟨sequence?_eq r start, os, by rw [stepwise?_eq, hexpand], hexpand⟩

/-- From the first Wednesday of the calendar on, so many weeks apart that the
second one lies after its end. -/
theorem expand_total_at_both_ends :
    let start : Moment := ⟨⟨205200000000, by decide, by decide⟩, .region .newYork, false⟩
    let finish : Moment := ⟨⟨226800000000, by decide, by decide⟩, .region .london, false⟩
    let first : Moment := ⟨⟨0, by decide, by decide⟩, .fixed (14 * microsPerHour), false⟩
    let last : Moment := ⟨⟨wallLimit - 1, by decide, by decide⟩, .utc, false⟩
    let r : Rule := ⟨.weekly [.friday, .monday], Nat.pow 10 30, by decide, .through last⟩
    finish.isFloating = start.isFloating ∧ first.isFloating = start.isFloating ∧
      last.isFloating = start.isFloating ∧
      (∀ m ∈ r.last?, m.isFloating = true → start.isFloating = true) ∧
      sequence? r start 3 =
        some [.held ⟨⟨378000000000, by decide, by decide⟩, .region .newYork, false⟩] ∧
      (∀ n, sequence? r start n = some ((List.range n).filterMap (slot? r start))) ∧
      ∃ os, stepwise? r start finish first last = some (.ok os) ∧
        expand r start finish first last = .ok os := by
  intro start finish first last r
  have hending : ∀ m ∈ r.last?, m.isFloating = true → start.isFloating = true := by decide
  exact ⟨rfl, rfl, rfl, hending, by decide, expand_total rfl rfl rfl hending⟩

end Household.Expansion
