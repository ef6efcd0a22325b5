import Household.Proofs.Chore.Cycle

/-!
# Due today

A chore counts as due on a day on which one of its occurrences starts, and
also on the day after one that starts in the last hour, which is as long as
chores are taken to last. Its status knows only the first of these, so the
two agree exactly where the second comes with the first.
-/

set_option autoImplicit false

namespace Household.Chore

open Household.Calendar Household.Recurrence Household.Expansion

def StartsOn (r : Rule) (start day : Moment) : Prop := ∃ m, Occurs r start m ∧ m.date = day.date

/-- Some occurrence starts in the last hour before the day, but not at its beginning. -/
def StartsJustBefore (r : Rule) (start day : Moment) : Prop :=
  ∃ m, Occurs r start m ∧ m.wall.micros < day.startOfDay.wall.micros ∧
    day.startOfDay.wall.micros < m.wall.micros + nominalDuration

section

variable {c : Chore} {r : Rule} {day : Moment}

theorem isDue_of_expand {end' finish : Moment} {os : List Occurrence}
    (hschedule : c.schedule = .ok (.repeating r))
    (hend : c.created.add? nominalDuration = some end')
    (hfinish : day.startOfDay.add? (24 * microsPerHour) = some finish)
    (hexpand : expand r c.created end' day.startOfDay finish = .ok os) :
    c.isDue day = .ok (!os.isEmpty) := by
  unfold isDue
  simp only [hschedule, Moment.add_eq_ok hend, Moment.add_eq_ok hfinish, hexpand, calendar_ok,
    ok_bind]
  rfl

theorem isDue_spec (hschedule : c.schedule = .ok (.repeating r)) (h : c.Within day) :
    ∃ due, c.isDue day = .ok due ∧
      (due = true ↔ StartsOn r c.created day ∨ StartsJustBefore r c.created day) := by
  obtain ⟨end', hend⟩ := h.created
  obtain ⟨finish, hfinish, hfinishZone, hfinishWall, hlimit⟩ := h.exists_dayEnd
  have hq : Query.OneZone ⟨r, c.created, nominalDuration, day.startOfDay, finish⟩ :=
    ⟨h.zone, hfinishZone⟩
  have hexpand := expand_of_oneZone hend nominalDuration_nonneg hq (last_not_floating hschedule)
  have hstart (m : Moment) := Query.start_mem_iff (m := m) hq nominalDuration_nonneg
  refine ⟨_, isDue_of_expand hschedule hend hfinish hexpand, ?_⟩
  generalize Query.reached _ = os at hstart
  have hnonempty : (!os.isEmpty) = true ↔ ∃ m, ∃ o ∈ os, o.start = m := by
    cases os with
    | nil => simp
    | cons o os => simp
  rw [hnonempty]
  constructor
  · rintro ⟨m, hm⟩
    obtain ⟨hoccurs, -, hbefore, hafter⟩ := (hstart m).mp hm
    rw [hfinishWall] at hbefore
    by_cases hday : day.startOfDay.wall.micros ≤ m.wall.micros
    · exact .inl ⟨m, hoccurs, Moment.date_eq_iff.mpr ⟨hday, hbefore⟩⟩
    · exact .inr ⟨m, hoccurs, Int.not_le.mp hday, hafter⟩
  · have hmem (m : Moment) (hoccurs : Occurs r c.created m) (hbefore : m.wall.micros < dayEnd day)
        (hafter : day.startOfDay.wall.micros < m.wall.micros + nominalDuration) :
        ∃ m, ∃ o ∈ os, o.start = m := by
      refine ⟨m, (hstart m).mpr ⟨hoccurs, ?_, ?_, hafter⟩⟩
      · simp only [nominalDuration, microsPerHour, microsPerDay] at *
        omega
      · rw [hfinishWall]
        exact hbefore
    rintro (⟨m, hoccurs, hdate⟩ | ⟨m, hoccurs, hbefore, hafter⟩)
    · obtain ⟨hday, hbefore⟩ := Moment.date_eq_iff.mp hdate
      apply hmem m hoccurs hbefore
      simp only [nominalDuration, microsPerHour] at *
      omega
    · apply hmem m hoccurs _ hafter
      simp only [dayEnd, microsPerDay]
      omega

theorem status_pending_iff (hschedule : c.schedule = .ok (.repeating r)) (h : c.Within day) :
    ∃ st, c.status none day = .ok st ∧
      (st = (.pending, some day.date) ↔ StartsOn r c.created day) := by
  rcases status_spec hschedule h none with ⟨hnone, hstatus⟩ | ⟨m, hm, hstatus⟩
  · refine ⟨_, hstatus, ?_⟩
    constructor
    · intro heq
      simp at heq
    · rintro ⟨m, hoccurs, hdate⟩
      exact absurd (Moment.date_eq_iff.mp hdate).2 (Int.not_lt.mpr (hnone m hoccurs))
  · refine ⟨_, hstatus, ?_⟩
    constructor
    · intro heq
      rw [Prod.mk.injEq, Option.some.injEq] at heq
      exact ⟨m, hm.occurs, heq.2⟩
    · rintro ⟨n, hoccurs, hdate⟩
      obtain ⟨hday, hbefore⟩ := Moment.date_eq_iff.mp hdate
      have hlatest := hm.latest n hoccurs hbefore
      have htoday : m.date = day.date :=
        Moment.date_eq_iff.mpr ⟨Int.le_trans hday hlatest, hm.before⟩
      have hlt : ¬day.date < day.date := Nat.lt_irrefl day.date.number
      rw [htoday]
      simp [cycleStatus, hlt]

/-- A chore is due on a day exactly if its status is pending with that date,
unless an occurrence starts in the last hour before the day and none on it. -/
theorem isDue_agrees_iff (hschedule : c.schedule = .ok (.repeating r)) (h : c.Within day) :
    ∃ due st, c.isDue day = .ok due ∧ c.status none day = .ok st ∧
      (st = (.pending, some day.date) ↔ StartsOn r c.created day) ∧
      (due = true ↔ StartsOn r c.created day ∨ StartsJustBefore r c.created day) ∧
      ((due = true ↔ st = (.pending, some day.date)) ↔
        (StartsJustBefore r c.created day → StartsOn r c.created day)) := by
  obtain ⟨due, hdue, hdueIff⟩ := isDue_spec hschedule h
  obtain ⟨st, hst, hstIff⟩ := status_pending_iff hschedule h
  refine ⟨due, st, hdue, hst, hstIff, hdueIff, ?_⟩
  rw [hdueIff, hstIff]
  exact or_iff_left_iff_imp

end

/-- Every week on Fridays at six in the evening, seen on the second Friday. -/
theorem weekly_evening_agrees :
    let r : Rule := ⟨.weekly [.friday], 1, by decide, .unbounded⟩
    let created : Moment := ⟨⟨63908416800000000, by decide, by decide⟩, .utc, false⟩
    let day : Moment := ⟨⟨63908982000000000, by decide, by decide⟩, .utc, false⟩
    let c : Chore := ⟨42, "Bins", created, "FREQ=WEEKLY;BYDAY=FR", none⟩
    c.schedule = .ok (.repeating r) ∧ c.Within day ∧
      ∃ due st, c.isDue day = .ok due ∧ c.status none day = .ok st ∧
        (st = (.pending, some day.date) ↔ StartsOn r created day) ∧
        (due = true ↔ StartsOn r created day ∨ StartsJustBefore r created day) ∧
        ((due = true ↔ st = (.pending, some day.date)) ↔
          (StartsJustBefore r created day → StartsOn r created day)) :=
  ⟨rfl, ⟨rfl, ⟨_, rfl⟩, ⟨_, rfl⟩⟩, isDue_agrees_iff rfl ⟨rfl, ⟨_, rfl⟩, ⟨_, rfl⟩⟩⟩

theorem not_agree_of_overdue {c : Chore} {day : Moment} {d : Option Date}
    (hdue : c.isDue day = .ok true) (hstatus : c.status none day = .ok (.overdue, d)) :
    ¬(c.isDue day = .ok true ↔ c.status none day = .ok (.pending, some day.date)) := by
  intro h
  have hpending := h.mp hdue
  rw [hstatus] at hpending
  simp at hpending

/-- Every week from half past eleven on a Sunday evening on: on the Monday the
chore counts as due and as overdue since the day before. -/
theorem late_evening_disagrees :
    let created : Moment := ⟨⟨63908004600000000, by decide, by decide⟩, .utc, false⟩
    let day : Moment := ⟨⟨63908049600000000, by decide, by decide⟩, .utc, false⟩
    let c : Chore := ⟨42, "Bins", created, "FREQ=WEEKLY", none⟩
    c.schedule = .ok (.repeating ⟨.weekly [], 1, by decide, .unbounded⟩) ∧ c.Within day ∧
      c.isDue day = .ok true ∧ c.status none day = .ok (.overdue, some created.date) ∧
      ¬(c.isDue day = .ok true ↔ c.status none day = .ok (.pending, some day.date)) :=
  ⟨rfl, ⟨rfl, ⟨_, rfl⟩, ⟨_, rfl⟩⟩, rfl, rfl, not_agree_of_overdue rfl rfl⟩

end Household.Chore
