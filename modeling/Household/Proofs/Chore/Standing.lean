import Household.Proofs.Chore.Cycle

/-!
# How a chore stands

The status of a chore follows a table with four rows, by the latest of its
occurrences that starts before the day ends. As days go by that occurrence only
moves on, so a cycle is never taken back.
-/

set_option autoImplicit false

namespace Household.Chore

open Household.Calendar Household.Recurrence Household.Expansion

/-! Dates by the wall clock -/

theorem dayEnd_eq (day : Moment) :
    dayEnd day = day.date.number * microsPerDay + microsPerDay := rfl

theorem date_le_of_lt_dayEnd {m day : Moment} (h : m.wall.micros < dayEnd day) :
    m.date ≤ day.date := by
  rw [dayEnd_eq] at h
  show (m.wall.micros / microsPerDay).toNat ≤ day.date.number
  simp only [microsPerDay] at *
  omega

theorem dayEnd_le {d₁ d₂ : Moment} (h : d₁.date ≤ d₂.date) : dayEnd d₁ ≤ dayEnd d₂ := by
  have hnumber : d₁.date.number ≤ d₂.date.number := h
  simp only [dayEnd_eq, microsPerDay]
  omega

theorem IsLatest.le {r : Rule} {start m n : Moment} {b b' : Int} (h : IsLatest r start b m)
    (h' : IsLatest r start b' n) (hb : b ≤ b') : m.wall.micros ≤ n.wall.micros :=
  h'.latest m h.occurs (Int.lt_of_lt_of_le h.before hb)

theorem IsLatest.date_eq {r : Rule} {start m n : Moment} {b : Int} (h : IsLatest r start b m)
    (h' : IsLatest r start b n) : m.date = n.date := by
  have hle : m.date ≤ n.date := Moment.date_le (h.le h' (Int.le_refl b))
  have hge : n.date ≤ m.date := Moment.date_le (h'.le h (Int.le_refl b))
  exact Date.ext (Nat.le_antisymm hle hge)

/-! The table -/

/-- The rows of the table: what the latest occurrence that starts before the
day ends makes of a chore, with the last completion there was. -/
inductive Standing (r : Rule) (start day : Moment) (completion? : Option Moment) :
    Status → Option Date → Prop
  | notDue (none_before : ∀ m, Occurs r start m → dayEnd day ≤ m.wall.micros) :
    Standing r start day completion? .notDue none
  | completed {m done : Moment} (latest : IsLatest r start (dayEnd day) m)
    (completion : completion? = some done) (since : m.date ≤ done.date) :
    Standing r start day completion? .completed (some m.date)
  | overdue {m : Moment} (latest : IsLatest r start (dayEnd day) m)
    (unfinished : ∀ done ∈ completion?, done.date < m.date) (past : m.date < day.date) :
    Standing r start day completion? .overdue (some m.date)
  | pending {m : Moment} (latest : IsLatest r start (dayEnd day) m)
    (unfinished : ∀ done ∈ completion?, done.date < m.date) (today : m.date = day.date) :
    Standing r start day completion? .pending (some m.date)

theorem closed_iff {due : Date} {completion? : Option Moment} :
    completion?.any (fun m => decide (due ≤ m.date)) = true ↔
      ∃ done, completion? = some done ∧ due ≤ done.date := by
  cases completion? <;> simp

theorem open_iff {due : Date} {completion? : Option Moment} :
    ¬completion?.any (fun m => decide (due ≤ m.date)) = true ↔
      ∀ done ∈ completion?, done.date < due := by
  have hnot (done : Moment) : ¬due ≤ done.date ↔ done.date < due := Nat.not_le
  cases completion? <;> simp [hnot]

section

variable {r : Rule} {start day m : Moment} {completion? : Option Moment}

theorem standing_of_latest (h : IsLatest r start (dayEnd day) m) :
    Standing r start day completion? (cycleStatus m.date day.date completion?) (some m.date) := by
  have hdate := date_le_of_lt_dayEnd h.before
  unfold cycleStatus
  by_cases hclosed : completion?.any (fun c => decide (m.date ≤ c.date)) = true
  · obtain ⟨done, hdone, hsince⟩ := closed_iff.mp hclosed
    rw [if_pos hclosed]
    exact .completed h hdone hsince
  · have hopen := open_iff.mp hclosed
    rw [if_neg hclosed]
    by_cases hpast : m.date < day.date
    · rw [if_pos hpast]
      exact .overdue h hopen hpast
    · rw [if_neg hpast]
      exact .pending h hopen (Date.ext (Nat.le_antisymm hdate (Nat.not_lt.mp hpast)))

theorem Standing.of_latest {st : Status} {due : Option Date}
    (hs : Standing r start day completion? st due) (h : IsLatest r start (dayEnd day) m) :
    st = cycleStatus m.date day.date completion? ∧ due = some m.date := by
  unfold cycleStatus
  cases hs with
  | notDue hnone => exact absurd h.before (Int.not_lt.mpr (hnone m h.occurs))
  | completed latest completion since =>
    rw [latest.date_eq h] at since ⊢
    rw [if_pos (closed_iff.mpr ⟨_, completion, since⟩)]
    exact ⟨rfl, rfl⟩
  | overdue latest unfinished past =>
    rw [latest.date_eq h] at unfinished past ⊢
    rw [if_neg (open_iff.mpr unfinished), if_pos past]
    exact ⟨rfl, rfl⟩
  | pending latest unfinished today =>
    rw [latest.date_eq h] at unfinished today ⊢
    rw [if_neg (open_iff.mpr unfinished), if_neg (by rw [today]; exact Nat.lt_irrefl _)]
    exact ⟨rfl, rfl⟩

theorem Standing.of_none {st : Status} {due : Option Date}
    (hs : Standing r start day completion? st due)
    (h : ∀ n, Occurs r start n → dayEnd day ≤ n.wall.micros) : st = .notDue ∧ due = none := by
  have hnot {n : Moment} (latest : IsLatest r start (dayEnd day) n) : False :=
    Int.not_lt.mpr (h n latest.occurs) latest.before
  cases hs with
  | notDue _ => exact ⟨rfl, rfl⟩
  | completed latest _ _ => exact (hnot latest).elim
  | overdue latest _ _ => exact (hnot latest).elim
  | pending latest _ _ => exact (hnot latest).elim

end

section

variable {c : Chore} {r : Rule}

/-- A status that is told from an expansion through the day is the one of the table. -/
theorem statusAhead_eq_iff {day : Moment} (hschedule : c.schedule = .ok (.repeating r))
    (h : c.Within day) {ahead : Int} (hahead : 24 * microsPerHour ≤ ahead)
    (hadd : ∃ m, day.startOfDay.add? ahead = some m) {completion? : Option Moment} {st : Status}
    {due : Option Date} :
    c.statusAhead r completion? day.startOfDay ahead = .ok (st, due) ↔
      Standing r c.created day completion? st due := by
  rcases statusAhead_spec hschedule h hahead hadd completion? with ⟨hnone, hst⟩ | ⟨m, hm, hst⟩
  · rw [hst, Except.ok.injEq, Prod.mk.injEq]
    constructor
    · rintro ⟨rfl, rfl⟩
      exact .notDue hnone
    · intro hs
      obtain ⟨rfl, rfl⟩ := hs.of_none hnone
      exact ⟨rfl, rfl⟩
  · rw [hst, Except.ok.injEq, Prod.mk.injEq]
    constructor
    · rintro ⟨rfl, rfl⟩
      exact standing_of_latest hm
    · intro hs
      obtain ⟨rfl, rfl⟩ := hs.of_latest hm
      exact ⟨rfl, rfl⟩

theorem exists_status {day : Moment} (hschedule : c.schedule = .ok (.repeating r))
    (h : c.Within day) (completion? : Option Moment) :
    ∃ st due, c.status completion? day = .ok (st, due) := by
  rcases status_spec hschedule h completion? with ⟨-, hst⟩ | ⟨m, -, hst⟩
  · exact ⟨_, _, hst⟩
  · exact ⟨_, _, hst⟩

/-- A repeating chore has a status on each day, the one that its row of the
table gives, and any look ahead that reaches the end of the day gives the same. -/
theorem status_by_table {day : Moment} (hschedule : c.schedule = .ok (.repeating r))
    (h : c.Within day) (completion? : Option Moment) :
    (∃ st due, c.status completion? day = .ok (st, due)) ∧
      (∀ st due, c.status completion? day = .ok (st, due) ↔
        Standing r c.created day completion? st due) ∧
      ∀ ahead, 24 * microsPerHour ≤ ahead → (∃ m, day.startOfDay.add? ahead = some m) →
        c.statusAhead r completion? day.startOfDay ahead = c.status completion? day := by
  have hiff (st : Status) (due : Option Date) : c.status completion? day = .ok (st, due) ↔
      Standing r c.created day completion? st due := by
    rw [status_eq hschedule]
    exact statusAhead_eq_iff hschedule h (by decide) h.horizon
  obtain ⟨st, due, hst⟩ := exists_status hschedule h completion?
  refine ⟨⟨st, due, hst⟩, hiff, ?_⟩
  intro ahead hahead hadd
  rw [hst]
  exact (statusAhead_eq_iff hschedule h hahead hadd).mpr ((hiff st due).mp hst)

end

/-- Every week on Fridays at six in the evening, on the Saturday after the
second one and with a completion of the day before. -/
theorem saturday_by_table :
    let r : Rule := ⟨.weekly [.friday], 1, by decide, .unbounded⟩
    let created : Moment := ⟨⟨63908416800000000, by decide, by decide⟩, .utc, false⟩
    let day : Moment := ⟨⟨63909072000000000, by decide, by decide⟩, .utc, false⟩
    let second : Moment := ⟨⟨63909021600000000, by decide, by decide⟩, .utc, false⟩
    let done : Moment := ⟨⟨63909032400000000, by decide, by decide⟩, .utc, false⟩
    let c : Chore := ⟨42, "Bins", created, "FREQ=WEEKLY;BYDAY=FR", none⟩
    c.schedule = .ok (.repeating r) ∧ c.Within day ∧
      c.status (some done) day = .ok (.completed, some second.date) ∧
      c.status none day = .ok (.overdue, some second.date) ∧
      (∃ st due, c.status (some done) day = .ok (st, due)) ∧
      (∀ st due, c.status (some done) day = .ok (st, due) ↔
        Standing r created day (some done) st due) ∧
      ∀ ahead, 24 * microsPerHour ≤ ahead → (∃ m, day.startOfDay.add? ahead = some m) →
        c.statusAhead r (some done) day.startOfDay ahead = c.status (some done) day := by
  refine ⟨rfl, ⟨rfl, ⟨_, rfl⟩, ⟨_, rfl⟩⟩, rfl, rfl, ?_⟩
  apply status_by_table
  · rfl
  · exact ⟨rfl, ⟨_, rfl⟩, ⟨_, rfl⟩⟩

/-! Day after day -/

/-- From one day to a later one: the due date does not go back, nor does the
status while the due date stays. -/
structure Onward (s s' : Status × Option Date) : Prop where
  due : ∀ d ∈ s.2, ∃ d' ∈ s'.2, d ≤ d'
  notDue : s'.1 = .notDue → s.1 = .notDue
  completed : s.2 = s'.2 → s.1 = .completed → s'.1 = .completed
  overdue : s.2 = s'.2 → s.1 = .overdue → s'.1 = .overdue

theorem cycleStatus_ne_notDue (due today : Date) (completion? : Option Moment) :
    cycleStatus due today completion? ≠ .notDue := by
  unfold cycleStatus
  split
  · simp
  · split <;> simp

theorem cycleStatus_completed_iff {due today : Date} {completion? : Option Moment} :
    cycleStatus due today completion? = .completed ↔
      completion?.any (fun m => decide (due ≤ m.date)) = true := by
  unfold cycleStatus
  split
  · simp [*]
  · split <;> simp [*]

theorem cycleStatus_overdue_iff {due today : Date} {completion? : Option Moment} :
    cycleStatus due today completion? = .overdue ↔
      ¬completion?.any (fun m => decide (due ≤ m.date)) = true ∧ due < today := by
  unfold cycleStatus
  split
  · simp [*]
  · split <;> simp [*]

theorem onward_of_notDue (s : Status × Option Date) : Onward (.notDue, none) s where
  due d hd := by simp at hd
  notDue _ := rfl
  completed _ h := by simp at h
  overdue _ h := by simp at h

theorem onward_of_cycle {due due' d₁ d₂ : Date} (hdue : due ≤ due') (hday : d₁ ≤ d₂)
    (completion? : Option Moment) :
    Onward (cycleStatus due d₁ completion?, some due)
      (cycleStatus due' d₂ completion?, some due') where
  due d hd := ⟨due', rfl, by rwa [← Option.some.inj hd]⟩
  notDue h := absurd h (cycleStatus_ne_notDue _ _ _)
  completed hsame h := by
    obtain rfl := Option.some.inj hsame
    rw [cycleStatus_completed_iff] at h ⊢
    exact h
  overdue hsame h := by
    obtain rfl := Option.some.inj hsame
    rw [cycleStatus_overdue_iff] at h ⊢
    exact ⟨h.1, Nat.lt_of_lt_of_le h.2 hday⟩

section

variable {c : Chore} {r : Rule} {d₁ d₂ : Moment}

/-- On a later day a chore is due no earlier, and what its status came to stays
while it is due on the same date. -/
theorem cycle_goes_on (hschedule : c.schedule = .ok (.repeating r)) (h₁ : c.Within d₁)
    (h₂ : c.Within d₂) (hle : d₁.date ≤ d₂.date) (completion? : Option Moment) :
    ∃ s₁ s₂, c.status completion? d₁ = .ok s₁ ∧ c.status completion? d₂ = .ok s₂ ∧
      Onward s₁ s₂ := by
  have hbound := dayEnd_le hle
  rcases status_spec hschedule h₁ completion? with ⟨-, hst₁⟩ | ⟨m, hm, hst₁⟩
  · obtain ⟨st, due, hst₂⟩ := exists_status hschedule h₂ completion?
    exact ⟨_, _, hst₁, hst₂, onward_of_notDue _⟩
  · rcases status_spec hschedule h₂ completion? with ⟨hnone, -⟩ | ⟨n, hn, hst₂⟩
    · -- the later day's end would lie before an occurrence that the earlier day has
      have hlate := hnone m hm.occurs
      exact absurd hm.before (Int.not_lt.mpr (Int.le_trans hbound hlate))
    · have hdue : m.date ≤ n.date := Moment.date_le (hm.le hn hbound)
      exact ⟨_, _, hst₁, hst₂, onward_of_cycle hdue hle completion?⟩

end

/-- The same chore on the second Friday and on the Saturday after it. -/
theorem friday_to_saturday :
    let r : Rule := ⟨.weekly [.friday], 1, by decide, .unbounded⟩
    let created : Moment := ⟨⟨63908416800000000, by decide, by decide⟩, .utc, false⟩
    let friday : Moment := ⟨⟨63909021600000000, by decide, by decide⟩, .utc, false⟩
    let saturday : Moment := ⟨⟨63909072000000000, by decide, by decide⟩, .utc, false⟩
    let c : Chore := ⟨42, "Bins", created, "FREQ=WEEKLY;BYDAY=FR", none⟩
    c.schedule = .ok (.repeating r) ∧ c.Within friday ∧ c.Within saturday ∧
      friday.date ≤ saturday.date ∧
      c.status none friday = .ok (.pending, some friday.date) ∧
      c.status none saturday = .ok (.overdue, some friday.date) ∧
      ∃ s₁ s₂, c.status none friday = .ok s₁ ∧ c.status none saturday = .ok s₂ ∧ Onward s₁ s₂ := by
  refine ⟨rfl, ⟨rfl, ⟨_, rfl⟩, ⟨_, rfl⟩⟩, ⟨rfl, ⟨_, rfl⟩, ⟨_, rfl⟩⟩, by decide, rfl, rfl, ?_⟩
  apply cycle_goes_on
  · rfl
  · exact ⟨rfl, ⟨_, rfl⟩, ⟨_, rfl⟩⟩
  · exact ⟨rfl, ⟨_, rfl⟩, ⟨_, rfl⟩⟩
  · decide

end Household.Chore
