/-!
# Dates

A date is the count of days since 1 January of year 1, which is a Monday; the
last date is 31 December of year 9999. Year, month and day are read off the
count and turned back into it.
-/

set_option autoImplicit false

namespace Household.Calendar

def lastYear : Nat := 9999

/-- Dates from 1 January of year 1 through the last year. -/
abbrev dayCount : Nat := 3652059

def isLeap (year : Nat) : Bool :=
  year % 4 == 0 && (year % 100 != 0 || year % 400 == 0)

def monthLengths (leap : Bool) : List Nat :=
  [31, if leap then 29 else 28, 31, 30, 31, 30, 31, 31, 30, 31, 30, 31]

def totalLength : List Nat → Nat
  | [] => 0
  | l::ls => l + totalLength ls

def monthLength (year month : Nat) : Nat :=
  ((monthLengths (isLeap year))[month - 1]?).getD 0

def daysBeforeYear (year : Nat) : Nat :=
  365 * (year - 1) + (year - 1) / 4 + (year - 1) / 400 - (year - 1) / 100

def daysBeforeMonth (year month : Nat) : Nat :=
  totalLength ((monthLengths (isLeap year)).take (month - 1))

structure Civil where
  year : Nat
  month : Nat
  day : Nat
  deriving DecidableEq, Repr

namespace Civil

def Valid (c : Civil) : Prop :=
  (1 ≤ c.year ∧ c.year ≤ lastYear) ∧ (1 ≤ c.month ∧ c.month ≤ 12) ∧
    1 ≤ c.day ∧ c.day ≤ monthLength c.year c.month

instance (c : Civil) : Decidable c.Valid := by unfold Valid; infer_instance

def dayNumber (c : Civil) : Nat :=
  daysBeforeYear c.year + daysBeforeMonth c.year c.month + (c.day - 1)

/-- How many whole lengths fit into `n`, and what is left. -/
def splitLengths : List Nat → Nat → Nat × Nat
  | [], n => (0, n)
  | l::ls, n =>
    if n < l then (0, n)
    else ((splitLengths ls (n - l)).1 + 1, (splitLengths ls (n - l)).2)

/-- The years completed before day `n`, by cycles of 400, 100, 4 and 1 years. -/
def wholeYears (n : Nat) : Nat :=
  let inCycle := n % 146097
  let centuries := min 3 (inCycle / 36524)
  let inCentury := inCycle - 36524 * centuries
  let inFour := inCentury % 1461
  400 * (n / 146097) + 100 * centuries + 4 * (inCentury / 1461) + min 3 (inFour / 365)

def ofDayNumber (n : Nat) : Civil :=
  let year := wholeYears n + 1
  let split := splitLengths (monthLengths (isLeap year)) (n - daysBeforeYear year)
  ⟨year, split.1 + 1, split.2 + 1⟩

theorem month_end (leap : Bool) (m d : Nat) (hm : 1 ≤ m ∧ m ≤ 12)
    (hd : d ≤ ((monthLengths leap)[m - 1]?).getD 0) :
    totalLength ((monthLengths leap).take (m - 1)) + d ≤ if leap then 366 else 365 := by
  have months : ∀ leap : Bool, ∀ k < 12, totalLength ((monthLengths leap).take k) +
      ((monthLengths leap)[k]?).getD 0 ≤ if leap then 366 else 365 := by decide
  have hle := months leap (m - 1) (by omega)
  omega

theorem div_pred (n k : Nat) (hn : 1 ≤ n) :
    n / k = (n - 1) / k + if n % k = 0 then 1 else 0 := by
  obtain ⟨m, rfl⟩ : ∃ m, n = m + 1 := ⟨n - 1, by omega⟩
  rw [Nat.add_sub_cancel, Nat.succ_div]
  congr 1
  simp only [Nat.dvd_iff_mod_eq_zero]

theorem year_end (year : Nat) (h : 1 ≤ year) :
    daysBeforeYear year + (if isLeap year then 366 else 365) = daysBeforeYear (year + 1) := by
  have h4 := div_pred year 4 h
  have h100 := div_pred year 100 h
  have h400 := div_pred year 400 h
  unfold daysBeforeYear isLeap
  rw [Nat.add_sub_cancel, h4, h100, h400]
  have hle : (year - 1) / 100 ≤ (year - 1) / 4 := Nat.div_le_div_left (by decide) (by decide)
  by_cases r4 : year % 4 = 0 <;> by_cases r100 : year % 100 = 0 <;>
    by_cases r400 : year % 400 = 0 <;> simp [r4, r100, r400] <;> omega

theorem daysBeforeYear_le {a b : Nat} (h : a ≤ b) : daysBeforeYear a ≤ daysBeforeYear b := by
  induction h with
  | refl => exact Nat.le_refl _
  | @step m _ ih =>
    refine Nat.le_trans ih ?_
    cases m with
    | zero => exact Nat.le_refl _
    | succ k =>
      rw [Nat.succ_eq_add_one, ← year_end (k + 1) (Nat.succ_pos k)]
      exact Nat.le_add_right _ _

theorem dayNumber_lt {c : Civil} (h : c.Valid) : c.dayNumber < dayCount := by
  obtain ⟨⟨hy, hy'⟩, hm, hd, hd'⟩ := h
  have hmonth := month_end (isLeap c.year) c.month c.day hm hd'
  have hyear := year_end c.year hy
  have hlast : daysBeforeYear (c.year + 1) ≤ daysBeforeYear 10000 :=
    daysBeforeYear_le (by unfold lastYear at hy'; omega)
  have htop : daysBeforeYear 10000 = dayCount := by decide
  unfold dayNumber daysBeforeMonth
  omega

end Civil

/-- A date of the calendar, as its distance in days from the first one. -/
structure Date where
  number : Nat
  lt_dayCount : number < dayCount
  deriving DecidableEq, Repr

namespace Date

@[ext] theorem ext {a b : Date} (h : a.number = b.number) : a = b := by
  cases a; cases b; simp_all

instance : LT Date := ⟨fun a b => a.number < b.number⟩
instance : LE Date := ⟨fun a b => a.number ≤ b.number⟩
instance (a b : Date) : Decidable (a < b) := inferInstanceAs (Decidable (a.number < b.number))
instance (a b : Date) : Decidable (a ≤ b) := inferInstanceAs (Decidable (a.number ≤ b.number))

def civil (d : Date) : Civil := Civil.ofDayNumber d.number

def ofCivil? (c : Civil) : Option Date :=
  if h : c.Valid then some ⟨c.dayNumber, Civil.dayNumber_lt h⟩ else none

/-- Days after Monday. -/
def weekday (d : Date) : Nat := d.number % 7

/-- The Monday on or before `d`; the first date of the calendar is one. -/
def monday (d : Date) : Date :=
  ⟨d.number - d.weekday, Nat.lt_of_le_of_lt (Nat.sub_le _ _) d.lt_dayCount⟩

def addDays? (d : Date) (n : Nat) : Option Date :=
  if h : d.number + n < dayCount then some ⟨d.number + n, h⟩ else none

end Date

end Household.Calendar
