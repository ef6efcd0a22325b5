import Household.Calendar.Date

/-!
# Dates and their year, month and day

Reading year, month and day off a day number and counting the days before
them are inverse to each other, and day numbers are ordered as the months
that they lie in.
-/

set_option autoImplicit false

namespace Household.Calendar

namespace Civil

theorem daysBeforeYear_cycles (q c f g : Nat) (hc : c ≤ 3) (hf : f ≤ 24) (hg : g ≤ 3) :
    daysBeforeYear (400 * q + 100 * c + 4 * f + g + 1) =
      146097 * q + 36524 * c + 1461 * f + 365 * g := by
  unfold daysBeforeYear
  rw [Nat.add_sub_cancel]
  have h4 : (400 * q + 100 * c + 4 * f + g) / 4 = 100 * q + 25 * c + f := by omega
  have h100 : (400 * q + 100 * c + 4 * f + g) / 100 = 4 * q + c := by omega
  have h400 : (400 * q + 100 * c + 4 * f + g) / 400 = q := by omega
  omega

theorem isLeap_cycles (q c f : Nat) (hf : f ≤ 24) (h : f = 24 → c = 3) :
    isLeap (400 * q + 100 * c + 4 * f + 4) = true := by
  have h4 : (400 * q + 100 * c + 4 * f + 4) % 4 = 0 := by omega
  unfold isLeap
  by_cases hf' : f = 24
  · have h400 : (400 * q + 100 * c + 4 * f + 4) % 400 = 0 := by have := h hf'; omega
    simp [h4, h400]
  · have h100 : (400 * q + 100 * c + 4 * f + 4) % 100 ≠ 0 := by omega
    simp [h4, h100]

theorem wholeYears_bounds (n : Nat) :
    daysBeforeYear (wholeYears n + 1) ≤ n ∧
      n < daysBeforeYear (wholeYears n + 1) + if isLeap (wholeYears n + 1) then 366 else 365 := by
  let q := n / 146097
  let c := min 3 (n % 146097 / 36524)
  let f := (n % 146097 - 36524 * c) / 1461
  let g := min 3 ((n % 146097 - 36524 * c) % 1461 / 365)
  have hy : wholeYears n = 400 * q + 100 * c + 4 * f + g := rfl
  have hc : c ≤ 3 := Nat.min_le_left _ _
  have hg : g ≤ 3 := Nat.min_le_left _ _
  have hin : 146097 * q + 36524 * c ≤ n ∧ n - 146097 * q - 36524 * c ≤ 36524 ∧
      (c < 3 → n - 146097 * q - 36524 * c < 36524) := by omega
  have hf : 1461 * f ≤ n - 146097 * q - 36524 * c ∧
      n - 146097 * q - 36524 * c < 1461 * f + 1461 := by omega
  have hf' : f ≤ 24 := by omega
  have hr : 365 * g ≤ n - 146097 * q - 36524 * c - 1461 * f ∧
      (g < 3 → n - 146097 * q - 36524 * c - 1461 * f < 365 * g + 365) := by omega
  clear_value q c f g
  rw [hy, daysBeforeYear_cycles q c f g hc hf' hg]
  refine ⟨by omega, ?_⟩
  by_cases hlast : g = 3 ∧ (f = 24 → c = 3)
  · obtain ⟨rfl, hfc⟩ := hlast
    rw [isLeap_cycles q c f hf' hfc, if_pos rfl]
    omega
  · have hlt : n < 146097 * q + 36524 * c + 1461 * f + 365 * g + 365 := by omega
    split <;> omega

theorem splitLengths_spec (ls : List Nat) (n : Nat) (h : n < totalLength ls) :
    ∃ l, ls[(splitLengths ls n).1]? = some l ∧ (splitLengths ls n).2 < l ∧
      totalLength (ls.take (splitLengths ls n).1) + (splitLengths ls n).2 = n := by
  induction ls generalizing n with
  | nil => simp [totalLength] at h
  | cons l ls ih =>
    rw [totalLength] at h
    by_cases hl : n < l
    · refine ⟨l, by simp [splitLengths, hl], by simp [splitLengths, hl], ?_⟩
      simp [splitLengths, hl, totalLength]
    · obtain ⟨m, hm, hlt, hsum⟩ := ih (n - l) (by omega)
      simp only [splitLengths, hl, if_false]
      refine ⟨m, by simpa using hm, hlt, ?_⟩
      rw [List.take_succ_cons, totalLength]
      omega

theorem monthLengths_sum (leap : Bool) :
    totalLength (monthLengths leap) = if leap then 366 else 365 := by
  cases leap <;> rfl

theorem monthLengths_length (leap : Bool) : (monthLengths leap).length = 12 := rfl

theorem ofDayNumber_spec (n : Nat) :
    (1 ≤ (ofDayNumber n).month ∧ (ofDayNumber n).month ≤ 12) ∧
      (1 ≤ (ofDayNumber n).day ∧
        (ofDayNumber n).day ≤ monthLength (ofDayNumber n).year (ofDayNumber n).month) ∧
      daysBeforeMonth (ofDayNumber n).year (ofDayNumber n).month + ((ofDayNumber n).day - 1) =
        n - daysBeforeYear (ofDayNumber n).year := by
  obtain ⟨hle, hlt⟩ := wholeYears_bounds n
  have hsum : n - daysBeforeYear (wholeYears n + 1) <
      totalLength (monthLengths (isLeap (wholeYears n + 1))) := by
    rw [monthLengths_sum]
    omega
  obtain ⟨l, hl, hday, htotal⟩ := splitLengths_spec _ _ hsum
  have hmonth := (List.getElem?_eq_some_iff.mp hl).1
  rw [monthLengths_length] at hmonth
  simp only [ofDayNumber, monthLength, daysBeforeMonth, Nat.add_sub_cancel]
  refine ⟨⟨by omega, by omega⟩, ⟨by omega, ?_⟩, htotal⟩
  rw [hl, Option.getD_some]
  omega

theorem dayNumber_ofDayNumber (n : Nat) : (ofDayNumber n).dayNumber = n := by
  have hyear : daysBeforeYear (ofDayNumber n).year ≤ n := (wholeYears_bounds n).1
  have hrest := (ofDayNumber_spec n).2.2
  unfold dayNumber
  omega

theorem ofDayNumber_valid {n : Nat} (h : n < dayCount) : (ofDayNumber n).Valid := by
  obtain ⟨hmonth, hday, -⟩ := ofDayNumber_spec n
  refine ⟨⟨Nat.succ_pos _, Nat.le_of_not_lt fun hyear => ?_⟩, hmonth, hday⟩
  have hmono : daysBeforeYear 10000 ≤ daysBeforeYear (ofDayNumber n).year :=
    daysBeforeYear_le (by unfold lastYear at hyear; omega)
  have hle : daysBeforeYear (ofDayNumber n).year ≤ n := (wholeYears_bounds n).1
  have htop : daysBeforeYear 10000 = dayCount := by decide
  omega

def monthIndex (c : Civil) : Nat := c.year * 12 + (c.month - 1)

theorem Valid.day_le {c : Civil} (h : c.Valid) : c.day ≤ 31 := by
  have months : ∀ leap : Bool, ∀ k < 12, ((monthLengths leap)[k]?).getD 0 ≤ 31 := by decide
  obtain ⟨-, ⟨hm, hm'⟩, -, hd⟩ := h
  have hlength := months (isLeap c.year) (c.month - 1) (by omega)
  exact Nat.le_trans hd hlength

theorem month_before_month (leap : Bool) (m m' : Nat) (hm : m < m') (hm' : m' < 12) :
    totalLength ((monthLengths leap).take m) + ((monthLengths leap)[m]?).getD 0 ≤
      totalLength ((monthLengths leap).take m') := by
  have months : ∀ leap : Bool, ∀ k' < 12, ∀ k < k', totalLength ((monthLengths leap).take k) +
      ((monthLengths leap)[k]?).getD 0 ≤ totalLength ((monthLengths leap).take k') := by decide
  exact months leap m' hm' m hm

theorem dayNumber_lt_of_monthIndex_lt {c c' : Civil} (h : c.Valid) (h' : c'.Valid)
    (hlt : c.monthIndex < c'.monthIndex) : c.dayNumber < c'.dayNumber := by
  obtain ⟨⟨hy, -⟩, hm, hd, hd'⟩ := h
  obtain ⟨⟨-, -⟩, hm', -, -⟩ := h'
  unfold monthIndex at hlt
  unfold dayNumber
  by_cases hyear : c.year = c'.year
  · have hmonth := month_before_month (isLeap c.year) (c.month - 1) (c'.month - 1)
      (by omega) (by omega)
    have hlast : c.day ≤ ((monthLengths (isLeap c.year))[c.month - 1]?).getD 0 := hd'
    rw [← hyear]
    unfold daysBeforeMonth
    omega
  · have hend := month_end (isLeap c.year) c.month c.day hm hd'
    have hnext := year_end c.year hy
    have hle : daysBeforeYear (c.year + 1) ≤ daysBeforeYear c'.year :=
      daysBeforeYear_le (by omega)
    unfold daysBeforeMonth
    omega

theorem dayNumber_injective {c c' : Civil} (h : c.Valid) (h' : c'.Valid)
    (heq : c.dayNumber = c'.dayNumber) : c = c' := by
  have hindex : c.monthIndex = c'.monthIndex := by
    rcases Nat.lt_trichotomy c.monthIndex c'.monthIndex with hlt | hsame | hgt
    · exact absurd heq (Nat.ne_of_lt (dayNumber_lt_of_monthIndex_lt h h' hlt))
    · exact hsame
    · exact absurd heq (Nat.ne_of_gt (dayNumber_lt_of_monthIndex_lt h' h hgt))
  obtain ⟨year, month, day⟩ := c
  obtain ⟨year', month', day'⟩ := c'
  obtain ⟨-, hm, hd⟩ := h
  obtain ⟨-, hm', hd'⟩ := h'
  simp only [monthIndex] at hm hd hm' hd' hindex
  obtain rfl : year = year' := by omega
  obtain rfl : month = month' := by omega
  simp only [dayNumber] at heq
  obtain rfl : day = day' := by omega
  rfl

theorem Valid.widths {c : Civil} (h : c.Valid) : c.year < 10000 ∧ c.month < 100 ∧ c.day < 100 := by
  have hday := h.day_le
  obtain ⟨⟨-, hyear⟩, ⟨-, hmonth⟩, -⟩ := h
  simp only [lastYear] at hyear
  omega

end Civil

namespace Date

theorem civil_valid (d : Date) : d.civil.Valid := Civil.ofDayNumber_valid d.lt_dayCount

theorem civil_dayNumber (d : Date) : d.civil.dayNumber = d.number :=
  Civil.dayNumber_ofDayNumber d.number

theorem ofCivil?_civil (d : Date) : ofCivil? d.civil = some d := by
  unfold ofCivil?
  rw [dif_pos d.civil_valid, Option.some.injEq]
  ext
  exact d.civil_dayNumber

theorem ofCivil?_eq_some {c : Civil} {d : Date} (h : ofCivil? c = some d) :
    c.Valid ∧ d.number = c.dayNumber := by
  unfold ofCivil? at h
  split at h
  · rename_i hc
    rw [Option.some.injEq] at h
    exact ⟨hc, by rw [← h]⟩
  · simp at h

theorem ofCivil?_eq_some_iff {c : Civil} {d : Date} : ofCivil? c = some d ↔ d.civil = c := by
  constructor
  · intro h
    obtain ⟨hc, hd⟩ := ofCivil?_eq_some h
    exact Civil.dayNumber_injective d.civil_valid hc (d.civil_dayNumber.trans hd)
  · rintro rfl
    exact d.ofCivil?_civil

theorem exists_civil {c : Civil} (h : c.Valid) : ∃ d : Date, d.civil = c :=
  ⟨⟨c.dayNumber, Civil.dayNumber_lt h⟩, ofCivil?_eq_some_iff.mp (dif_pos h)⟩

end Date

end Household.Calendar
