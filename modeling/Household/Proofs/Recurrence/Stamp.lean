import Household.Proofs.Calendar.Civil
import Household.Proofs.Text.Numerals
import Household.Recurrence.Writer

/-!
# Stamps

A last moment that was read is in universal time and on a whole second. Its
stamp holds year, month and day before the letter and the time of day behind
it. All but the year are of fixed width, so a stamp is told apart from any
other; it is read back only when the year has four digits.
-/

set_option autoImplicit false

namespace Household.Recurrence

open Household.Calendar Household.Text

structure Plain (m : Moment) : Prop where
  zone : m.zone = .utc
  fold : m.fold = false
  whole : m.wall.subsecond = 0

def dateDigits (d : Date) : List Char :=
  digits d.civil.year ++ (padded 2 d.civil.month ++ padded 2 d.civil.day)

def timeDigits (w : WallTime) : List Char :=
  padded 2 w.hour ++ (padded 2 w.minute ++ padded 2 w.second)

theorem stampText_eq (w : WallTime) :
    stampText w = dateDigits w.date ++ 'T' :: (timeDigits w ++ ['Z']) := by
  simp [stampText, dateDigits, timeDigits]

/-! Times of day -/

theorem hour_lt (w : WallTime) : w.hour < 24 := by
  unfold WallTime.hour WallTime.timeOfDay
  simp only [microsPerDay, microsPerHour]
  omega

theorem minute_lt (w : WallTime) : w.minute < 60 := by
  unfold WallTime.minute
  omega

theorem second_lt (w : WallTime) : w.second < 60 := by
  unfold WallTime.second
  omega

theorem micros_eq {w : WallTime} (hw : w.subsecond = 0) :
    w.micros = w.date.number * microsPerDay +
      ((w.hour * 3600 + w.minute * 60 + w.second : Nat) : Int) * 1000000 := by
  have hnonneg := w.nonneg
  unfold WallTime.subsecond WallTime.timeOfDay at hw
  unfold WallTime.date WallTime.hour WallTime.minute WallTime.second WallTime.timeOfDay
  simp only [microsPerDay, microsPerHour, microsPerMinute] at *
  omega

def clockText (hour minute second : Nat) : List Char :=
  padded 2 hour ++ (padded 2 minute ++ padded 2 second)

theorem clockText_ascii (hour minute second : Nat) :
    ∀ c ∈ clockText hour minute second, isAsciiDigit c = true := by
  simp only [clockText, List.forall_mem_append]
  exact ⟨padded_ascii _ _, padded_ascii _ _, padded_ascii _ _⟩

theorem clockText_length {hour minute second : Nat} (hhour : hour < 100) (hminute : minute < 100)
    (hsecond : second < 100) : (clockText hour minute second).length = 6 := by
  simp only [clockText, List.length_append]
  rw [padded_two_length hhour, padded_two_length hminute, padded_two_length hsecond]

theorem clockText_value (hour : Nat) {minute second : Nat} (hminute : minute < 100)
    (hsecond : second < 100) :
    digitsValue (clockText hour minute second) = hour * 10000 + (minute * 100 + second) := by
  rw [clockText, ← List.append_assoc, digitsValue_append_two _ (padded_two_length hsecond),
    digitsValue_append_two _ (padded_two_length hminute)]
  simp only [digitsValue_padded]
  omega

theorem timeDigits_length (w : WallTime) : (timeDigits w).length = 6 := by
  have hh := hour_lt w
  have hm := minute_lt w
  have hs := second_lt w
  exact clockText_length (by omega) (by omega) (by omega)

theorem timeDigits_ascii (w : WallTime) : ∀ c ∈ timeDigits w, isAsciiDigit c = true :=
  clockText_ascii w.hour w.minute w.second

theorem timeDigits_value (w : WallTime) :
    digitsValue (timeDigits w) = w.hour * 10000 + (w.minute * 100 + w.second) := by
  have hm := minute_lt w
  have hs := second_lt w
  exact clockText_value w.hour (by omega) (by omega)

theorem timeDigits_injective {v w : WallTime} (h : timeDigits v = timeDigits w) :
    v.hour = w.hour ∧ v.minute = w.minute ∧ v.second = w.second := by
  have hvalue := congrArg digitsValue h
  have hm := minute_lt v
  have hs := second_lt v
  have hm' := minute_lt w
  have hs' := second_lt w
  rw [timeDigits_value, timeDigits_value] at hvalue
  omega

theorem readTime?_timeDigits (w : WallTime) :
    readTime? (timeDigits w) = some (w.hour * 3600 + w.minute * 60 + w.second) := by
  have hh := hour_lt w
  have hm := minute_lt w
  have hs := second_lt w
  have hne : timeDigits w ≠ [] := by
    intro hnil
    have hlength := timeDigits_length w
    simp [hnil] at hlength
  have hour : (w.hour * 10000 + (w.minute * 100 + w.second)) / 10000 = w.hour := by omega
  have minute : (w.hour * 10000 + (w.minute * 100 + w.second)) / 100 % 100 = w.minute := by omega
  have second : (w.hour * 10000 + (w.minute * 100 + w.second)) % 100 = w.second := by omega
  simp only [readTime?, readDigits?_of_ascii hne (timeDigits_ascii w), timeDigits_value,
    timeDigits_length, hour, minute, second, hh, hm, hs, and_self, if_true]

/-! Dates -/

theorem month_day_widths (d : Date) :
    (padded 2 d.civil.month).length = 2 ∧ (padded 2 d.civil.day).length = 2 := by
  have hvalid := d.civil_valid
  have hday := hvalid.day_le
  have hmonth := hvalid.2.1.2
  exact ⟨padded_two_length (by omega), padded_two_length (by omega)⟩

theorem dateDigits_length (d : Date) :
    (dateDigits d).length = (digits d.civil.year).length + 4 := by
  obtain ⟨hmonth, hday⟩ := month_day_widths d
  simp only [dateDigits, List.length_append, hmonth, hday]

theorem dateDigits_ascii (d : Date) : ∀ c ∈ dateDigits d, isAsciiDigit c = true := by
  simp only [dateDigits, List.forall_mem_append]
  exact ⟨digits_ascii _, padded_ascii _ _, padded_ascii _ _⟩

theorem dateDigits_value (d : Date) : digitsValue (dateDigits d) =
    d.civil.year * 10000 + (d.civil.month * 100 + d.civil.day) := by
  obtain ⟨hmonth, hday⟩ := month_day_widths d
  rw [dateDigits, ← List.append_assoc, digitsValue_append_two _ hday,
    digitsValue_append_two _ hmonth]
  simp only [digitsValue_padded, digitsValue_digits]
  omega

theorem ofCivil?_dateDigits (d : Date) :
    Date.ofCivil? ⟨digitsValue (dateDigits d) / 10000, digitsValue (dateDigits d) / 100 % 100,
      digitsValue (dateDigits d) % 100⟩ = some d := by
  have hvalid := d.civil_valid
  have hday := hvalid.day_le
  have hmonth := hvalid.2.1.2
  have year : (d.civil.year * 10000 + (d.civil.month * 100 + d.civil.day)) / 10000 =
      d.civil.year := by omega
  have month : (d.civil.year * 10000 + (d.civil.month * 100 + d.civil.day)) / 100 % 100 =
      d.civil.month := by omega
  have day : (d.civil.year * 10000 + (d.civil.month * 100 + d.civil.day)) % 100 =
      d.civil.day := by omega
  rw [dateDigits_value, year, month, day]
  exact d.ofCivil?_civil

theorem dateDigits_injective {d e : Date} (h : dateDigits d = dateDigits e) : d = e := by
  have hback := ofCivil?_dateDigits d
  rw [h, ofCivil?_dateDigits e, Option.some.injEq] at hback
  exact hback.symm

theorem digits_year_length {d : Date} (h : 1000 ≤ d.civil.year) :
    (digits d.civil.year).length = 4 := by
  have hlast : d.civil.year ≤ lastYear := d.civil_valid.1.2
  have hle : (digits d.civil.year).length ≤ 4 := by
    rw [digits_length_le (by decide)]
    exact Nat.lt_succ_of_le hlast
  have hgt : ¬(digits d.civil.year).length ≤ 3 := by
    rw [digits_length_le (by decide)]
    exact Nat.not_lt.mpr h
  omega

theorem readDate?_dateDigits {d : Date} (h : 1000 ≤ d.civil.year) :
    readDate? (dateDigits d) = some d := by
  have hlength : (dateDigits d).length = 8 := by rw [dateDigits_length, digits_year_length h]
  have hne : dateDigits d ≠ [] := by
    intro hnil
    simp [hnil] at hlength
  unfold readDate?
  rw [readDigits?_of_ascii hne (dateDigits_ascii d)]
  simp only [hlength, if_true]
  exact ofCivil?_dateDigits d

/-! Stamps -/

theorem stampText_injective {m n : Moment} (hm : Plain m) (hn : Plain n)
    (h : stampText m.wall = stampText n.wall) : m = n := by
  rw [stampText_eq, stampText_eq] at h
  have hwidth : ('T' :: (timeDigits m.wall ++ ['Z'])).length =
      ('T' :: (timeDigits n.wall ++ ['Z'])).length := by
    simp [timeDigits_length]
  obtain ⟨hdate, htime⟩ := List.append_inj' h hwidth
  have hdate' := dateDigits_injective hdate
  obtain ⟨hh, hmin, hs⟩ := timeDigits_injective
    (List.append_cancel_right (List.cons.inj htime).2)
  have hwall : m.wall = n.wall := by
    apply WallTime.ext
    rw [micros_eq hm.whole, micros_eq hn.whole, hdate', hh, hmin, hs]
  obtain ⟨wall, zone, fold⟩ := m
  obtain ⟨wall', zone', fold'⟩ := n
  obtain ⟨rfl, rfl, -⟩ := hm
  obtain ⟨rfl, rfl, -⟩ := hn
  rw [Moment.mk.injEq]
  exact ⟨hwall, rfl, rfl⟩

theorem readLast?_stampText {m : Moment} (hm : Plain m) (hyear : 1000 ≤ m.wall.date.civil.year) :
    readLast? (stampText m.wall) = some m := by
  have hdate : (dateDigits m.wall.date).length = 8 := by
    rw [dateDigits_length, digits_year_length hyear]
  have htime := timeDigits_length m.wall
  have hwall : (WallTime.midnight m.wall.date).add?
      (((m.wall.hour * 3600 + m.wall.minute * 60 + m.wall.second : Nat) : Int) * 1000000) =
      some m.wall := by
    unfold WallTime.add? WallTime.ofMicros?
    simp only [WallTime.midnight, ← micros_eq hm.whole]
    rw [dif_pos ⟨m.wall.nonneg, m.wall.lt_limit⟩]
  rw [stampText_eq]
  unfold readLast?
  rw [List.drop_left' hdate]
  simp only [List.drop_left' htime, List.take_left' hdate, List.take_left' htime, if_true,
    readTime?_timeDigits]
  rw [readDate?_dateDigits hyear]
  show ((WallTime.midnight m.wall.date).add? _).map _ = _
  rw [hwall]
  obtain ⟨wall, zone, fold⟩ := m
  obtain ⟨rfl, rfl, -⟩ := hm
  rfl

/-- A stamp with a shorter year is not: the eighth place from its start is
behind the letter. -/
theorem readLast?_short_year {w : WallTime} (hyear : w.date.civil.year < 1000) :
    readLast? (stampText w) = none := by
  have hshort : (digits w.date.civil.year).length ≤ 3 := by
    rw [digits_length_le (by decide)]
    exact hyear
  have hpos := digits_length_pos w.date.civil.year
  have hdate := dateDigits_length w.date
  have htime := timeDigits_length w
  have hdrop : (stampText w).drop 8 =
      (timeDigits w).drop (7 - (dateDigits w.date).length) ++ ['Z'] := by
    have hall : (dateDigits w.date).length ≤ 8 := by omega
    have hskip : 8 - (dateDigits w.date).length = 7 - (dateDigits w.date).length + 1 := by omega
    have hinside : 7 - (dateDigits w.date).length ≤ (timeDigits w).length := by omega
    rw [stampText_eq, List.drop_append, List.drop_eq_nil_of_le hall, List.nil_append, hskip,
      List.drop_succ_cons, List.drop_append_of_le_length hinside]
  unfold readLast?
  rw [hdrop]
  cases hrest : (timeDigits w).drop (7 - (dateDigits w.date).length) with
  | nil =>
    have hlength := congrArg List.length hrest
    simp only [List.length_drop, List.length_nil] at hlength
    omega
  | cons t rest =>
    have hmem : t ∈ timeDigits w := List.mem_of_mem_drop (by rw [hrest]; exact List.mem_cons_self)
    have ht : t ≠ 'T' := by
      rintro rfl
      have hascii := timeDigits_ascii w _ hmem
      simp [isAsciiDigit] at hascii
    simp only [List.cons_append, if_neg ht]
    split <;> rfl

theorem readLast?_plain {cs : List Char} {m : Moment} (h : readLast? cs = some m) : Plain m := by
  unfold readLast? at h
  split at h
  · obtain ⟨d, -, rfl⟩ := Option.map_eq_some_iff.mp h
    refine ⟨rfl, rfl, ?_⟩
    simp only [WallTime.subsecond, WallTime.timeOfDay, WallTime.midnight, microsPerDay]
    omega
  · split at h
    · split at h
      · split at h
        · rename_i d seconds _ _
          obtain ⟨w, hw, rfl⟩ := Option.map_eq_some_iff.mp h
          refine ⟨rfl, rfl, ?_⟩
          unfold WallTime.add? WallTime.ofMicros? at hw
          split at hw
          · rw [Option.some.injEq] at hw
            rw [← hw]
            simp only [WallTime.subsecond, WallTime.timeOfDay, WallTime.midnight, microsPerDay]
            omega
          · simp at hw
        · simp at h
      · simp at h
    · simp at h

end Household.Recurrence
