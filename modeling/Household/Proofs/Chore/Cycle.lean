import Household.Chore
import Household.Proofs.Expansion.Sequence
import Household.Proofs.Recurrence.RoundTrip

/-!
# The cycle of a chore

The status of a repeating chore is told by the latest of its occurrences that
starts before the day ends, however far the expansion looks ahead.
-/

set_option autoImplicit false

namespace Household.Chore

open Household.Calendar Household.Recurrence Household.Expansion

theorem nominalDuration_nonneg : 0 ≤ nominalDuration := by decide

/-- A chore and a day in one zone, away from the end of the calendar. -/
structure Within (c : Chore) (day : Moment) : Prop where
  zone : day.zone = c.created.zone
  created : ∃ m, c.created.add? nominalDuration = some m
  horizon : ∃ m, day.startOfDay.add? (48 * microsPerHour) = some m

/-- The latest occurrence that starts before a point of the wall clock. -/
structure IsLatest (r : Rule) (start : Moment) (bound : Int) (m : Moment) : Prop where
  occurs : Occurs r start m
  before : m.wall.micros < bound
  latest : ∀ n, Occurs r start n → n.wall.micros < bound → n.wall.micros ≤ m.wall.micros

def dayEnd (day : Moment) : Int := day.startOfDay.wall.micros + microsPerDay

@[simp] theorem date_startOfDay (day : Moment) : day.startOfDay.date = day.date := by
  ext
  simp only [Moment.date, Moment.startOfDay, WallTime.date, WallTime.midnight, microsPerDay]
  omega

theorem ok_bind {ε α β : Type} (a : α) (f : α → Except ε β) : (Except.ok a >>= f) = f a := rfl

theorem calendar_ok {α : Type} (a : α) : calendar (.ok a : Except CalendarError α) = .ok a := rfl

theorem readRule_of_schedule {c : Chore} {r : Rule} (h : c.schedule = .ok (.repeating r)) :
    readRule c.ruleText.toList = .ok r := by
  unfold schedule at h
  split at h
  · simp at h
  · split at h
    · rename_i r' hr
      rw [Except.ok.injEq, Schedule.repeating.injEq] at h
      rw [← h]
      exact hr
    · simp at h
    · simp at h

theorem last_not_floating {c : Chore} {r : Rule} (h : c.schedule = .ok (.repeating r)) :
    ∀ m ∈ r.last?, m.isFloating = true → c.created.isFloating = true := by
  intro m hm hfloating
  have hplain := plain_of_sound (sound_of_readRule (readRule_of_schedule h)) hm
  simp [Moment.isFloating, hplain.zone] at hfloating

theorem startingBefore?_eq {m : Moment} {os : List Occurrence}
    (h : ∀ o ∈ os, o.start.zone = m.zone) : startingBefore? m os =
      .ok (os.find? (fun o => decide (o.start.wall.micros < m.wall.micros))) := by
  induction os with
  | nil => rfl
  | cons o os ih =>
    rw [List.forall_mem_cons] at h
    rw [startingBefore?, Moment.before_eq (Moment.isFloating_of_zone h.1), List.find?_cons]
    simp only [Moment.precedes_iff_of_zone h.1]
    cases decide (o.start.wall.micros < m.wall.micros) with
    | true => rfl
    | false => exact ih h.2

/-- Occurrences in order, among them all that start before a point of the wall clock. -/
structure Covers (os : List Occurrence) (r : Rule) (start : Moment) (bound : Int) : Prop where
  occurs : ∀ o ∈ os, Occurs r start o.start
  ascending : os.Pairwise (fun a b => b.start.DayAfter a.start)
  complete : ∀ m, Occurs r start m → m.wall.micros < bound → ∃ o ∈ os, o.start = m

namespace Covers

variable {os : List Occurrence} {r : Rule} {start : Moment} {bound : Int}

theorem none_before (h : Covers os r start bound)
    (hfind : os.reverse.find? (fun o => decide (o.start.wall.micros < bound)) = none) :
    ∀ m, Occurs r start m → bound ≤ m.wall.micros := by
  intro m hm
  apply Int.le_of_not_gt
  intro hlt
  obtain ⟨o, ho, rfl⟩ := h.complete m hm hlt
  have hnot := List.find?_eq_none.mp hfind o (List.mem_reverse.mpr ho)
  rw [decide_eq_true_eq] at hnot
  exact hnot hlt

theorem le_of_find? (h : Covers os r start bound) {p : Occurrence → Bool} {o o' : Occurrence}
    (hfind : os.reverse.find? p = some o) (ho' : o' ∈ os) (hp : p o' = true) :
    o'.start.wall.micros ≤ o.start.wall.micros := by
  obtain ⟨-, as, bs, heq, has⟩ := List.find?_eq_some_iff_append.mp hfind
  have hmem : o' ∈ as ++ o :: bs := by
    rw [← heq]
    exact List.mem_reverse.mpr ho'
  have hdescending := h.ascending
  rw [← List.pairwise_reverse, heq, List.pairwise_append, List.pairwise_cons] at hdescending
  rcases List.mem_append.mp hmem with hmem | hmem
  · have hnot := has o' hmem
    rw [hp] at hnot
    simp at hnot
  · rcases List.mem_cons.mp hmem with rfl | hmem
    · exact Int.le_refl _
    · have hday := (hdescending.2.1.1 o' hmem).wall
      simp only [microsPerDay] at hday
      omega

theorem latest (h : Covers os r start bound) {o : Occurrence}
    (hfind : os.reverse.find? (fun o => decide (o.start.wall.micros < bound)) = some o) :
    IsLatest r start bound o.start where
  occurs := h.occurs o (List.mem_reverse.mp (List.mem_of_find?_eq_some hfind))
  before := by simpa using List.find?_some hfind
  latest n hn hlt := by
    obtain ⟨o', ho', rfl⟩ := h.complete n hn hlt
    exact h.le_of_find? hfind ho' (decide_eq_true hlt)

end Covers

section

variable {c : Chore} {r : Rule} {day : Moment}

theorem Within.exists_dayEnd (h : c.Within day) :
    ∃ m, day.startOfDay.add? (24 * microsPerHour) = some m ∧ m.zone = c.created.zone ∧
      m.wall.micros = dayEnd day ∧ dayEnd day + microsPerDay < wallLimit := by
  obtain ⟨horizon, hhorizon⟩ := h.horizon
  have hwall := (Moment.add?_eq_some hhorizon).1
  have hlimit := horizon.wall.lt_limit
  obtain ⟨m, hm⟩ := Moment.exists_add? (m := day.startOfDay) (d := 24 * microsPerHour)
    (by decide) (by simp only [microsPerHour, wallLimit] at *; omega)
  obtain ⟨hmwall, hmzone⟩ := Moment.add?_eq_some hm
  refine ⟨m, hm, hmzone.trans h.zone, ?_, ?_⟩
  · rw [hmwall]
    rfl
  · simp only [dayEnd, microsPerDay, microsPerHour, wallLimit] at *
    omega

def cycleQuery (c : Chore) (r : Rule) (horizon : Moment) : Query :=
  ⟨r, c.created, nominalDuration, c.created, horizon⟩

theorem cycleQuery_oneZone {horizon : Moment} (hzone : horizon.zone = c.created.zone) :
    (c.cycleQuery r horizon).OneZone := ⟨rfl, hzone⟩

theorem cycleQuery_covers {horizon : Moment} (hzone : horizon.zone = c.created.zone) {bound : Int}
    (hbound : bound ≤ horizon.wall.micros) (hlimit : bound + nominalDuration ≤ wallLimit) :
    Covers (c.cycleQuery r horizon).reached r c.created bound where
  occurs o ho := (Query.mem_reached.mp ho).1
  ascending := (c.cycleQuery r horizon).reached_ascending
  complete m hm hlt := by
    have hfirst := hm.not_before
    apply (Query.start_mem_iff (cycleQuery_oneZone hzone) nominalDuration_nonneg).mpr
    refine ⟨hm, ?_, Int.lt_of_lt_of_le hlt hbound, ?_⟩
    · show m.wall.micros + nominalDuration < wallLimit
      omega
    · show c.created.wall.micros < m.wall.micros + nominalDuration
      simp only [nominalDuration, microsPerHour]
      omega

/-- The status as `repeatingStatus` tells it, from an expansion that looks this far ahead. -/
def statusAhead (c : Chore) (r : Rule) (completion? : Option Moment) (day : Moment) (ahead : Int) :
    Except ChoreError (Status × Option Date) := do
  let finish ← calendar (c.created.add nominalDuration)
  let horizon ← calendar (day.add ahead)
  let os ← calendar (expand r c.created finish c.created horizon)
  if os.isEmpty then return (.notDue, none)
  let dayEnd ← calendar (day.add (24 * microsPerHour))
  match ← calendar (startingBefore? dayEnd os.reverse) with
  | none => return (.notDue, none)
  | some o => return (cycleStatus o.start.date day.date completion?, some o.start.date)

theorem status_eq (hschedule : c.schedule = .ok (.repeating r)) (completion? : Option Moment) :
    c.status completion? day =
      c.statusAhead r completion? day.startOfDay (48 * microsPerHour) := by
  simp only [status, hschedule, ok_bind]
  rfl

theorem statusAhead_of_expand {completion? : Option Moment} {end' horizon finish : Moment}
    {ahead : Int} {os : List Occurrence} (hend : c.created.add? nominalDuration = some end')
    (hhorizon : day.add? ahead = some horizon)
    (hfinish : day.add? (24 * microsPerHour) = some finish)
    (hexpand : expand r c.created end' c.created horizon = .ok os)
    (hzone : ∀ o ∈ os, o.start.zone = finish.zone) :
    c.statusAhead r completion? day ahead = .ok (
      match os.reverse.find? (fun o => decide (o.start.wall.micros < finish.wall.micros)) with
      | none => (.notDue, none)
      | some o => (cycleStatus o.start.date day.date completion?, some o.start.date)) := by
  have hsearch : startingBefore? finish os.reverse = .ok _ :=
    startingBefore?_eq fun o ho => hzone o (List.mem_reverse.mp ho)
  unfold statusAhead
  simp only [Moment.add_eq_ok hend, Moment.add_eq_ok hhorizon, Moment.add_eq_ok hfinish, hexpand,
    hsearch, calendar_ok, ok_bind]
  cases os with
  | nil => rfl
  | cons o os =>
    rw [if_neg (by simp)]
    generalize List.find? _ (o :: os).reverse = found
    cases found with
    | none => rfl
    | some o => rfl

/-- The status of a chore, read off its occurrences: an expansion to the end of
the day is enough. -/
theorem statusAhead_spec (hschedule : c.schedule = .ok (.repeating r)) (h : c.Within day)
    {ahead : Int} (hahead : 24 * microsPerHour ≤ ahead)
    (hadd : ∃ m, day.startOfDay.add? ahead = some m) (completion? : Option Moment) :
    ((∀ m, Occurs r c.created m → dayEnd day ≤ m.wall.micros) ∧
      c.statusAhead r completion? day.startOfDay ahead = .ok (.notDue, none)) ∨
    ∃ m, IsLatest r c.created (dayEnd day) m ∧
      c.statusAhead r completion? day.startOfDay ahead =
        .ok (cycleStatus m.date day.date completion?, some m.date) := by
  obtain ⟨end', hend⟩ := h.created
  obtain ⟨horizon, hhorizon⟩ := hadd
  obtain ⟨finish, hfinish, hfinishZone, hfinishWall, hlimit⟩ := h.exists_dayEnd
  obtain ⟨hhorizonWall, hhorizonZone⟩ := Moment.add?_eq_some hhorizon
  have hzone : horizon.zone = c.created.zone := hhorizonZone.trans h.zone
  have hcovers : Covers (c.cycleQuery r horizon).reached r c.created (dayEnd day) := by
    apply cycleQuery_covers hzone
    · simp only [dayEnd, microsPerDay, microsPerHour] at *
      omega
    · simp only [nominalDuration, microsPerDay, microsPerHour] at *
      omega
  have hexpand : expand r c.created end' c.created horizon =
      .ok (c.cycleQuery r horizon).reached :=
    expand_of_oneZone hend nominalDuration_nonneg (cycleQuery_oneZone hzone)
      (last_not_floating hschedule)
  rw [statusAhead_of_expand hend hhorizon hfinish hexpand fun o ho =>
    (hcovers.occurs o ho).zone.trans hfinishZone.symm, hfinishWall, date_startOfDay]
  generalize (c.cycleQuery r horizon).reached = os at hcovers
  cases hfind : os.reverse.find? (fun o => decide (o.start.wall.micros < dayEnd day)) with
  | none => exact .inl ⟨hcovers.none_before hfind, rfl⟩
  | some o => exact .inr ⟨o.start, hcovers.latest hfind, rfl⟩

theorem status_spec (hschedule : c.schedule = .ok (.repeating r)) (h : c.Within day)
    (completion? : Option Moment) :
    ((∀ m, Occurs r c.created m → dayEnd day ≤ m.wall.micros) ∧
      c.status completion? day = .ok (.notDue, none)) ∨
    ∃ m, IsLatest r c.created (dayEnd day) m ∧
      c.status completion? day = .ok (cycleStatus m.date day.date completion?, some m.date) := by
  rw [status_eq hschedule]
  exact statusAhead_spec hschedule h (by decide) h.horizon completion?

end

end Household.Chore
