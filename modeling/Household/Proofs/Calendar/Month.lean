import Household.Proofs.Calendar.Civil
import Household.Proofs.Calendar.Comparison

/-!
# Months

Going from one month to the next is counting the months of all years through.
Of two years one lacks a day that the other has only if it is no leap year and
the day is the leap day.
-/

set_option autoImplicit false

namespace Household.Calendar

structure Month where
  year : Nat
  number : Nat
  deriving DecidableEq, Repr

namespace Month

def next (m : Month) : Month :=
  if m.number = 12 then ⟨m.year + 1, 1⟩ else ⟨m.year, m.number + 1⟩

def later (m : Month) : Nat → Month
  | 0 => m
  | n + 1 => (m.later n).next

def length (m : Month) : Nat := monthLength m.year m.number

def index (m : Month) : Nat := m.year * 12 + (m.number - 1)

def ofIndex (i : Nat) : Month := ⟨i / 12, i % 12 + 1⟩

theorem next_ofIndex (i : Nat) : (ofIndex i).next = ofIndex (i + 1) := by
  unfold next
  by_cases h : (ofIndex i).number = 12
  · rw [if_pos h]
    simp only [ofIndex, mk.injEq] at *
    omega
  · rw [if_neg h]
    simp only [ofIndex, mk.injEq] at *
    omega

theorem later_ofIndex (i n : Nat) : (ofIndex i).later n = ofIndex (i + n) := by
  induction n with
  | zero => rfl
  | succ n ih => rw [later, ih, next_ofIndex, Nat.add_assoc]

theorem ofIndex_index {m : Month} (h : 1 ≤ m.number ∧ m.number ≤ 12) : ofIndex m.index = m := by
  obtain ⟨year, number⟩ := m
  simp only [ofIndex, index, mk.injEq] at *
  omega

theorem index_ofIndex (i : Nat) : (ofIndex i).index = i := by
  simp only [ofIndex, index]
  omega

theorem not_valid_iff (month : Month) {day : Nat}
    (hyear : 1 ≤ month.year ∧ month.year ≤ lastYear)
    (hnumber : 1 ≤ month.number ∧ month.number ≤ 12) (hday : 1 ≤ day) :
    ¬Civil.Valid ⟨month.year, month.number, day⟩ ↔ month.length < day := by
  constructor
  · intro hinvalid
    apply Nat.lt_of_not_le
    intro hlength
    exact hinvalid ⟨hyear, hnumber, hday, hlength⟩
  · exact fun hshort hvalid => Nat.not_le.mpr hshort hvalid.2.2.2

end Month

theorem monthLength_lt_iff {year year' month day : Nat} (hmonth : 1 ≤ month ∧ month ≤ 12)
    (hday : day ≤ monthLength year month) :
    monthLength year' month < day ↔ (month = 2 ∧ day = 29) ∧ isLeap year' = false := by
  have february : ∀ leap : Bool,
      ((monthLengths leap)[1]?).getD 0 = if leap then 29 else 28 := by decide
  have others : ∀ leap leap' : Bool, ∀ i < 12, i ≠ 1 →
      ((monthLengths leap)[i]?).getD 0 = ((monthLengths leap')[i]?).getD 0 := by decide
  unfold monthLength at *
  by_cases h : month = 2
  · subst h
    have hle : day ≤ 29 := Nat.le_trans hday (by rw [february]; split <;> decide)
    rw [february]
    cases isLeap year' with
    | true =>
      simp only [if_true, reduceCtorEq, and_false, iff_false]
      omega
    | false =>
      simp only [Bool.false_eq_true, if_false, and_true, true_and]
      omega
  · rw [others _ (isLeap year) (month - 1) (by omega) (by omega)]
    simp only [h, false_and, iff_false]
    exact Nat.not_lt.mpr hday

namespace Moment

def month (m : Moment) : Month := ⟨m.date.civil.year, m.date.civil.month⟩

theorem month_later (m : Moment) (n : Nat) :
    m.month.later n = Month.ofIndex (m.month.index + n) := by
  rw [← Month.later_ofIndex, Month.ofIndex_index m.date.civil_valid.2.1]

/-- The time of day of another moment, in its zone and with its fold. -/
structure SameTime (m start : Moment) : Prop where
  timeOfDay : m.wall.timeOfDay = start.wall.timeOfDay
  zone : m.zone = start.zone
  fold : m.fold = start.fold

theorem eq_onDate_iff {m start : Moment} {d : Date} :
    m = start.onDate d ↔ m.date = d ∧ m.SameTime start := by
  constructor
  · rintro rfl
    exact ⟨WallTime.date_onDate _ _, WallTime.timeOfDay_onDate _ _, rfl, rfl⟩
  · rintro ⟨rfl, htime, hzone, hfold⟩
    obtain ⟨wall, zone, fold⟩ := m
    have hwall : wall = start.wall.onDate wall.date := by
      have hmicros := congrArg WallTime.micros wall.onDate_date
      ext
      rw [← hmicros]
      exact congrArg (_ + ·) htime
    rw [onDate, mk.injEq]
    exact ⟨hwall, hzone, hfold⟩

end Moment

end Household.Calendar
