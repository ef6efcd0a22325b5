import Household.Proofs.Calendar.Month
import Household.Proofs.Expansion.Sequence

/-!
# Months and years

A monthly rule aims at one day of every so many months after the month of the
start, a yearly one at the start's own day of every so many years. What has no
such day is skipped, and the sequence ends with the last year of the calendar.
Walking on from one month or year to the next, the slots come out the same,
and no date is ever asked for that there is not.
-/

set_option autoImplicit false

namespace Household.Expansion

open Household.Calendar Household.Recurrence

/-! Slots on a day given by year, month and day -/

/-- A slot that aims at a day of a month: held on that day at the start's time,
skipped where the month is too short, and none after the last year. -/
structure Aims (start : Moment) (month : Month) (day : Nat) (slot : Option Slot) : Prop where
  held : ∀ m, slot = some (.held m) ↔
    m.date.civil = ⟨month.year, month.number, day⟩ ∧ m.SameTime start
  skipped : slot = some .skipped ↔ month.year ≤ lastYear ∧ month.length < day
  ended : slot = none ↔ lastYear < month.year

theorem civilSlot?_of_ofCivil? {start : Moment} {c : Civil} {d : Date}
    (h : Date.ofCivil? c = some d) : civilSlot? start c = some (.held (start.onDate d)) := by
  have hyear : ¬lastYear < c.year := Nat.not_lt.mpr (Date.ofCivil?_eq_some h).1.1.2
  simp only [civilSlot?, if_neg hyear, h]

theorem civilSlot?_held_iff {start m : Moment} {c : Civil} :
    civilSlot? start c = some (.held m) ↔ m.date.civil = c ∧ m.SameTime start := by
  constructor
  · intro h
    obtain ⟨d, hm, hc, hd⟩ := civilSlot?_held h
    obtain ⟨rfl, htime⟩ := Moment.eq_onDate_iff.mp hm
    exact ⟨Civil.dayNumber_injective m.date.civil_valid hc (m.date.civil_dayNumber.trans hd), htime⟩
  · rintro ⟨hcivil, htime⟩
    rw [civilSlot?_of_ofCivil? (Date.ofCivil?_eq_some_iff.mpr hcivil),
      ← Moment.eq_onDate_iff.mpr ⟨rfl, htime⟩]

theorem civilSlot?_skipped_iff {start : Moment} {c : Civil} :
    civilSlot? start c = some .skipped ↔ c.year ≤ lastYear ∧ ¬c.Valid := by
  constructor
  · intro h
    have hyear : ¬lastYear < c.year := by
      intro hlast
      rw [civilSlot?_eq_none_iff.mpr hlast] at h
      simp at h
    refine ⟨Nat.not_lt.mp hyear, fun hc => ?_⟩
    obtain ⟨d, hd⟩ := Date.exists_civil hc
    rw [civilSlot?_of_ofCivil? (Date.ofCivil?_eq_some_iff.mpr hd)] at h
    simp at h
  · rintro ⟨hyear, hc⟩
    have hnone : Date.ofCivil? c = none := dif_neg hc
    simp only [civilSlot?, if_neg (Nat.not_lt.mpr hyear), hnone]

theorem civilSlot?_aims (start : Moment) {month : Month} {day : Nat} (hyear : 1 ≤ month.year)
    (hnumber : 1 ≤ month.number ∧ month.number ≤ 12) (hday : 1 ≤ day) :
    Aims start month day (civilSlot? start ⟨month.year, month.number, day⟩) where
  held _ := civilSlot?_held_iff
  skipped := by
    rw [civilSlot?_skipped_iff]
    exact and_congr_right fun hlast => month.not_valid_iff ⟨hyear, hlast⟩ hnumber hday
  ended := civilSlot?_eq_none_iff

/-! Walks -/

inductive Candidate where
  | pastEnd
  | slot (s : Slot)
  | noSuchDate

namespace Candidate

def ofSlot? : Option Slot → Candidate
  | none => pastEnd
  | some s => slot s

/-- The start moved to a date, unless that is told to be lacking. -/
def onCivil (start : Moment) (c : Civil) (lacking : Bool) : Candidate :=
  if lastYear < c.year then pastEnd
  else if lacking then slot .skipped
  else
    match Date.ofCivil? c with
    | some d => slot (.held (start.onDate d))
    | none => noSuchDate

theorem onCivil_eq (start : Moment) {c : Civil} {lacking : Bool}
    (h : c.year ≤ lastYear → (lacking = true ↔ ¬c.Valid)) :
    onCivil start c lacking = ofSlot? (civilSlot? start c) := by
  unfold onCivil
  by_cases hyear : lastYear < c.year
  · rw [if_pos hyear, civilSlot?_eq_none_iff.mpr hyear]
    rfl
  · have hlast := Nat.not_lt.mp hyear
    rw [if_neg hyear]
    by_cases hc : c.Valid
    · obtain ⟨d, hd⟩ := Date.exists_civil hc
      have hdate := Date.ofCivil?_eq_some_iff.mpr hd
      rw [if_neg (fun hlacking => (h hlast).mp hlacking hc), civilSlot?_of_ofCivil? hdate]
      simp only [hdate, ofSlot?]
    · rw [if_pos ((h hlast).mpr hc), civilSlot?_skipped_iff.mpr ⟨hlast, hc⟩]
      rfl

end Candidate

/-- The first `n` slots of a walk in equal steps from a place on, if every date
that it asks for is there. -/
def gather? (look : Nat → Candidate) (step : Nat) : Nat → Nat → Option (List Slot)
  | 0, _ => some []
  | n + 1, place =>
    match look place with
    | .pastEnd => some []
    | .slot s => (gather? look step n (place + step)).map (s :: ·)
    | .noSuchDate => none

def monthCandidate (start : Moment) (day index : Nat) : Candidate :=
  let month := Month.ofIndex index
  .onCivil start ⟨month.year, month.number, day⟩ (decide (month.length < day))

def yearCandidate (start : Moment) (year : Nat) : Candidate :=
  let c := start.date.civil
  .onCivil start ⟨year, c.month, c.day⟩ (decide (c.month = 2 ∧ c.day = 29) && !isLeap year)

/-- The start, then every so many months on from its month. -/
def monthWalk? (start : Moment) (interval day : Nat) : Nat → Option (List Slot)
  | 0 => some []
  | n + 1 => (gather? (monthCandidate start day) interval n
      (start.month.index + interval)).map (.held start :: ·)

def yearWalk? (start : Moment) (interval n : Nat) : Option (List Slot) :=
  gather? (yearCandidate start) interval n start.date.civil.year

theorem gather?_eq {look : Nat → Candidate} {slots : Nat → Option Slot} {base step first : Nat}
    (hlook : ∀ j, first ≤ j → look (base + j * step) = .ofSlot? (slots j))
    (hended : ∀ {j k}, slots j = none → j ≤ k → slots k = none) (n : Nat) {k : Nat}
    (hk : first ≤ k) :
    gather? look step n (base + k * step) = some ((List.range' k n).filterMap slots) := by
  induction n generalizing k with
  | zero => rfl
  | succ n ih =>
    rw [gather?, hlook k hk, List.range'_succ, List.filterMap_cons]
    cases hslot : slots k with
    | none =>
      simp only [Candidate.ofSlot?, List.filterMap_eq_nil_iff.mpr (eq_none_of_ended hended hslot n)]
    | some s =>
      have hnext : base + k * step + step = base + (k + 1) * step := by
        rw [Nat.succ_mul, Nat.add_assoc]
      simp only [Candidate.ofSlot?, hnext, ih (Nat.le_succ_of_le hk), Option.map_some]

/-! Monthly rules -/

def targetDay (start : Moment) (day : Fin 32) : Nat :=
  if day.val = 0 then start.date.civil.day else day.val

theorem targetDay_pos (start : Moment) (day : Fin 32) : 1 ≤ targetDay start day := by
  have hday := start.date.civil_valid.2.2.1
  unfold targetDay
  split <;> omega

theorem month_index_ge (start : Moment) : 12 ≤ start.month.index := by
  have hyear : 1 ≤ start.month.year := start.date.civil_valid.1.1
  unfold Month.index
  omega

theorem monthCandidate_eq (start : Moment) {day index : Nat} (hindex : 12 ≤ index)
    (hday : 1 ≤ day) : monthCandidate start day index = .ofSlot? (civilSlot? start
      ⟨(Month.ofIndex index).year, (Month.ofIndex index).number, day⟩) := by
  apply Candidate.onCivil_eq
  intro hlast
  rw [decide_eq_true_iff, (Month.ofIndex index).not_valid_iff ⟨_, hlast⟩ _ hday]
  all_goals
    simp only [Month.ofIndex]
    omega

/-- The slots of a monthly rule that aims at this day, also as a walk gathers them. -/
structure Monthly (r : Rule) (start : Moment) (day : Nat) : Prop where
  first : slot? r start 0 = some (.held start)
  later : ∀ k, 0 < k → Aims start (start.month.later (k * r.interval)) day (slot? r start k)
  walked : ∀ n, monthWalk? start r.interval day n =
    some ((List.range n).filterMap (slot? r start))

section

variable {r : Rule} {day : Fin 32} (hr : r.pattern = .monthly day) (start : Moment)
include hr

theorem slot?_monthly_zero : slot? r start 0 = some (.held start) := by
  simp [slot?, hr, monthSlot?]

theorem slot?_monthly {k : Nat} (hk : 0 < k) : slot? r start k = civilSlot? start
    ⟨(Month.ofIndex (start.month.index + k * r.interval)).year,
      (Month.ofIndex (start.month.index + k * r.interval)).number, targetDay start day⟩ := by
  simp only [slot?, hr, monthSlot?, if_neg (Nat.ne_of_gt hk)]
  rfl

theorem monthWalk?_eq (n : Nat) : monthWalk? start r.interval (targetDay start day) n =
    some ((List.range n).filterMap (slot? r start)) := by
  cases n with
  | zero => rfl
  | succ n =>
    have hindex := month_index_ge start
    have hlook : ∀ k, 1 ≤ k →
        monthCandidate start (targetDay start day) (start.month.index + k * r.interval) =
          .ofSlot? (slot? r start k) := by
      intro k hk
      rw [slot?_monthly hr start hk]
      exact monthCandidate_eq start (by omega) (targetDay_pos start day)
    have hrest := gather?_eq hlook (slot?_ascending r start).ended n (Nat.le_refl 1)
    rw [Nat.one_mul] at hrest
    rw [monthWalk?, hrest, List.range_eq_range', List.range'_succ, List.filterMap_cons,
      slot?_monthly_zero hr start]
    rfl

theorem monthly_slots : Monthly r start (targetDay start day) where
  first := slot?_monthly_zero hr start
  later k hk := by
    have hindex := month_index_ge start
    rw [slot?_monthly hr start hk, start.month_later]
    apply civilSlot?_aims start _ _ (targetDay_pos start day)
    all_goals
      simp only [Month.ofIndex]
      omega
  walked := monthWalk?_eq hr start

end

/-! Yearly rules -/

theorem yearCandidate_eq (start : Moment) {year : Nat} (hyear : 1 ≤ year) :
    yearCandidate start year = .ofSlot? (civilSlot? start
      ⟨year, start.date.civil.month, start.date.civil.day⟩) := by
  obtain ⟨-, hmonth, hday, hlength⟩ := start.date.civil_valid
  apply Candidate.onCivil_eq
  intro hlast
  rw [Month.not_valid_iff ⟨year, _⟩ ⟨hyear, hlast⟩ hmonth hday]
  show _ ↔ monthLength year start.date.civil.month < _
  rw [monthLength_lt_iff hmonth hlength]
  simp only [Bool.and_eq_true, decide_eq_true_eq, Bool.not_eq_true']

/-- The slots of a yearly rule, also as a walk gathers them: only a leap day is
ever missing from a year. -/
structure Yearly (r : Rule) (start : Moment) : Prop where
  held : ∀ k m, slot? r start k = some (.held m) ↔
    m.date.civil = ⟨start.date.civil.year + k * r.interval, start.date.civil.month,
      start.date.civil.day⟩ ∧ m.SameTime start
  skipped : ∀ k, slot? r start k = some .skipped ↔
    start.date.civil.year + k * r.interval ≤ lastYear ∧
      (start.date.civil.month = 2 ∧ start.date.civil.day = 29) ∧
      isLeap (start.date.civil.year + k * r.interval) = false
  ended : ∀ k, slot? r start k = none ↔ lastYear < start.date.civil.year + k * r.interval
  walked : ∀ n, yearWalk? start r.interval n = some ((List.range n).filterMap (slot? r start))

section

variable {r : Rule} (hr : r.pattern = .yearly) (start : Moment)
include hr

theorem slot?_yearly (k : Nat) : slot? r start k = civilSlot? start
    ⟨start.date.civil.year + k * r.interval, start.date.civil.month, start.date.civil.day⟩ := by
  simp only [slot?, hr]
  rfl

theorem slot?_yearly_aims (k : Nat) : Aims start
    ⟨start.date.civil.year + k * r.interval, start.date.civil.month⟩ start.date.civil.day
    (slot? r start k) := by
  obtain ⟨⟨hyear, -⟩, hmonth, hday, -⟩ := start.date.civil_valid
  rw [slot?_yearly hr start]
  exact civilSlot?_aims start (Nat.le_add_right_of_le hyear) hmonth hday

theorem yearWalk?_eq (n : Nat) :
    yearWalk? start r.interval n = some ((List.range n).filterMap (slot? r start)) := by
  have hlook : ∀ k, 0 ≤ k → yearCandidate start (start.date.civil.year + k * r.interval) =
      .ofSlot? (slot? r start k) := by
    intro k _
    rw [slot?_yearly hr start]
    exact yearCandidate_eq start (Nat.le_add_right_of_le start.date.civil_valid.1.1)
  have hwalk := gather?_eq hlook (slot?_ascending r start).ended n (Nat.le_refl 0)
  rw [Nat.zero_mul, Nat.add_zero] at hwalk
  rw [yearWalk?, hwalk, List.range_eq_range']

theorem yearly_slots : Yearly r start where
  held k := (slot?_yearly_aims hr start k).held
  skipped k := by
    obtain ⟨-, hmonth, -, hlength⟩ := start.date.civil_valid
    rw [(slot?_yearly_aims hr start k).skipped]
    exact and_congr_right fun _ => monthLength_lt_iff hmonth hlength
  ended k := (slot?_yearly_aims hr start k).ended
  walked := yearWalk?_eq hr start

end

/-- Monthly and yearly rules skip the months and years that lack their day,
and never fall back on another one. -/
theorem months_and_years_skipped (start : Moment) (interval : Nat) (hi : 0 < interval)
    (limit : Limit) :
    (∀ day : Fin 32, Monthly ⟨.monthly day, interval, hi, limit⟩ start (targetDay start day)) ∧
      Yearly ⟨.yearly, interval, hi, limit⟩ start :=
  ⟨fun _ => monthly_slots rfl start, yearly_slots rfl start⟩

/-- From 29 February 2024 on. -/
theorem leap_day_skipped :
    let start : Moment := ⟨⟨63844794000000000, by decide, by decide⟩, .utc, false⟩
    start.date.civil = ⟨2024, 2, 29⟩ ∧ 0 < 6 ∧
      slot? ⟨.monthly 31, 6, by decide, .unbounded⟩ start 1 =
        some (.held ⟨⟨63860691600000000, by decide, by decide⟩, .utc, false⟩) ∧
      slot? ⟨.monthly 31, 6, by decide, .unbounded⟩ start 2 = some .skipped ∧
      slot? ⟨.yearly, 6, by decide, .unbounded⟩ start 1 = some .skipped ∧
      (∀ day : Fin 32, Monthly ⟨.monthly day, 6, by decide, .unbounded⟩ start
        (targetDay start day)) ∧
      Yearly ⟨.yearly, 6, by decide, .unbounded⟩ start := by
  intro start
  exact ⟨by decide, by decide, by decide, by decide, by decide,
    months_and_years_skipped start 6 (by decide) .unbounded⟩

end Household.Expansion
