import Household.Proofs.Recurrence.RoundTrip
import Mathlib.Data.List.Forall2

/-!
# The grammar of values

What the value of each key may look like and what it stands for. The readers
of values accept exactly these values, and read what they stand for.
-/

set_option autoImplicit false

namespace Household.Recurrence

open Household.Calendar Household.Text

/-- A number from one on, in ASCII digits and no more of them than are read. -/
structure Counts (value : List Char) (n : Nat) : Prop where
  nonempty : value ≠ []
  ascii : ∀ c ∈ value, isAsciiDigit c = true
  short : value.length ≤ digitLimit
  stands : digitsValue value = n
  pos : 1 ≤ n

def Codes (value : List Char) (days : List Weekday) : Prop :=
  List.Forall₂ (fun piece d => trim isBlank piece = d.code.toList) (split ',' value) days

def dayText (c : Civil) : List Char := padded 4 c.year ++ (padded 2 c.month ++ padded 2 c.day)

inductive Stamp : List Char → Civil → Nat → Nat → Nat → Prop
  | date {c : Civil} : c.Valid → Stamp (dayText c) c 0 0 0
  | time {c : Civil} {hour minute second : Nat} : c.Valid → hour < 24 → minute < 60 →
      second < 60 →
      Stamp (dayText c ++ 'T' :: (clockText hour minute second ++ ['Z'])) c hour minute second

structure Shows (m : Moment) (c : Civil) (hour minute second : Nat) : Prop extends Plain m where
  date : m.date.civil = c
  hour : m.wall.hour = hour
  minute : m.wall.minute = minute
  second : m.wall.second = second

def Names (value : List Char) (m : Moment) : Prop :=
  ∃ c hour minute second, Stamp value c hour minute second ∧ Shows m c hour minute second

def Legal (value : List Char) : Key → Prop
  | .frequency => ∃ f : Frequency, value = f.name.toList
  | .interval => ∃ n, Counts value n
  | .byDay => ∃ days, Codes value days
  | .byMonthDay => ∃ n ≤ 31, Counts value n
  | .count => ∃ n, Counts value n
  | .last => ∃ c hour minute second, Stamp value c hour minute second

def Denotes (value : List Char) : Entry → Prop
  | .frequency f => value = f.name.toList
  | .interval n => Counts value n
  | .byDay days => Codes value days
  | .byMonthDay n => n ≤ 31 ∧ Counts value n
  | .count n => Counts value n
  | .last m => Names value m

/-! Names -/

theorem Frequency.ofName?_eq_some_iff {cs : List Char} {f : Frequency} :
    Frequency.ofName? (String.ofList cs) = some f ↔ cs = f.name.toList := by
  constructor
  · intro h
    have hname : f.name = String.ofList cs := by simpa using List.find?_some h
    rw [hname, String.toList_ofList]
  · rintro rfl
    rw [String.ofList_toList, Frequency.ofName?_name]

theorem Weekday.ofCode?_eq_some_iff {cs : List Char} {d : Weekday} :
    Weekday.ofCode? (String.ofList cs) = some d ↔ cs = d.code.toList := by
  constructor
  · intro h
    have hcode : d.code = String.ofList cs := by simpa using List.find?_some h
    rw [hcode, String.toList_ofList]
  · rintro rfl
    rw [String.ofList_toList, Weekday.ofCode?_code]

theorem Key.ofName?_eq_some_iff {cs : List Char} {k : Key} :
    Key.ofName? (String.ofList cs) = some k ↔ cs = k.name.toList := by
  constructor
  · intro h
    have hname : k.name = String.ofList cs := by simpa using List.find?_some h
    rw [hname, String.toList_ofList]
  · rintro rfl
    rw [String.ofList_toList, Key.ofName?_name]

theorem readDays_eq_ok_iff {pieces : List (List Char)} {days : List Weekday} :
    readDays pieces = .ok days ↔
      List.Forall₂ (fun piece d => trim isBlank piece = d.code.toList) pieces days := by
  induction pieces generalizing days with
  | nil =>
    rw [readDays, Except.ok.injEq, List.forall₂_nil_left_iff]
    exact eq_comm
  | cons piece pieces ih =>
    simp only [readDays, List.forall₂_cons_left_iff]
    constructor
    · intro h
      split at h
      · simp at h
      · rename_i d hd
        obtain ⟨rest, hrest, rfl⟩ := map_eq_ok h
        exact ⟨d, rest, Weekday.ofCode?_eq_some_iff.mp hd, ih.mp hrest, rfl⟩
    · rintro ⟨d, rest, hd, hrest, rfl⟩
      rw [Weekday.ofCode?_eq_some_iff.mpr hd, ih.mpr hrest]
      rfl

/-! Numbers -/

theorem readPositive_eq_ok_iff {key : Key} {value : List Char} {n : Nat} :
    readPositive key value = .ok n ↔ Counts value n := by
  constructor
  · intro h
    have hpos := (readPositive_bounds h).1
    unfold readPositive at h
    split at h
    · simp at h
    · rename_i m hm
      obtain ⟨hne, hascii, hvalue⟩ := readDigits?_eq_some hm
      split at h
      · simp at h
      · rename_i hlength
        split at h
        · simp at h
        · rw [Except.ok.injEq] at h
          exact ⟨hne, hascii, Nat.le_of_not_lt hlength, hvalue.symm.trans h, hpos⟩
  · intro h
    have hpos := h.pos
    unfold readPositive
    simp only [readDigits?_of_ascii h.nonempty h.ascii, h.stands]
    rw [if_neg (Nat.not_lt.mpr h.short), if_neg (by omega)]

/-! Dates -/

theorem dayText_ascii (c : Civil) : ∀ d ∈ dayText c, isAsciiDigit d = true := by
  simp only [dayText, List.forall_mem_append]
  exact ⟨padded_ascii _ _, padded_ascii _ _, padded_ascii _ _⟩

theorem dayText_length {c : Civil} (hyear : c.year < 10000) (hmonth : c.month < 100)
    (hday : c.day < 100) : (dayText c).length = 8 := by
  simp only [dayText, List.length_append]
  rw [padded_length (by decide) hyear, padded_two_length hmonth, padded_two_length hday]

theorem dayText_value {c : Civil} (hmonth : c.month < 100) (hday : c.day < 100) :
    digitsValue (dayText c) = c.year * 10000 + (c.month * 100 + c.day) := by
  rw [dayText, ← List.append_assoc, digitsValue_append_two _ (padded_two_length hday),
    digitsValue_append_two _ (padded_two_length hmonth)]
  simp only [digitsValue_padded]
  omega

theorem dayText_length_of_valid {c : Civil} (h : c.Valid) : (dayText c).length = 8 := by
  obtain ⟨hyear, hmonth, hday⟩ := h.widths
  exact dayText_length hyear hmonth hday

theorem readDate?_eq_some_iff {cs : List Char} {d : Date} :
    readDate? cs = some d ↔ cs = dayText d.civil := by
  constructor
  · intro h
    unfold readDate? at h
    split at h
    · simp at h
    · rename_i n hn
      obtain ⟨-, hascii, hvalue⟩ := readDigits?_eq_some hn
      split at h
      · rename_i hlength
        have hlt := digitsValue_lt hascii
        rw [← hvalue, hlength] at hlt
        have hyear : n / 10000 < 10000 := Nat.div_lt_of_lt_mul hlt
        have hmonth : n / 100 % 100 < 100 := Nat.mod_lt _ (by decide)
        have hday : n % 100 < 100 := Nat.mod_lt _ (by decide)
        rw [Date.ofCivil?_eq_some_iff.mp h]
        apply eq_of_digitsValue_eq hascii (dayText_ascii _)
        · rw [hlength, dayText_length hyear hmonth hday]
        · rw [dayText_value hmonth hday]
          show digitsValue cs = n / 10000 * 10000 + (n / 100 % 100 * 100 + n % 100)
          omega
      · simp at h
  · rintro rfl
    obtain ⟨-, hmonth, hday⟩ := d.civil_valid.widths
    have hlength := dayText_length_of_valid d.civil_valid
    have hvalue := dayText_value hmonth hday
    have hne : dayText d.civil ≠ [] := by
      intro hnil
      simp [hnil] at hlength
    have hcivil : (⟨digitsValue (dayText d.civil) / 10000, digitsValue (dayText d.civil) / 100 % 100,
        digitsValue (dayText d.civil) % 100⟩ : Civil) = d.civil := by
      rw [hvalue, Civil.mk.injEq]
      omega
    unfold readDate?
    simp only [readDigits?_of_ascii hne (dayText_ascii _), hlength, if_true]
    rw [hcivil, d.ofCivil?_civil]

/-! Times of day -/

theorem readTime?_eq_some_iff {cs : List Char} {seconds : Nat} :
    readTime? cs = some seconds ↔ ∃ hour minute second, hour < 24 ∧ minute < 60 ∧ second < 60 ∧
      cs = clockText hour minute second ∧ seconds = hour * 3600 + minute * 60 + second := by
  constructor
  · intro h
    unfold readTime? at h
    split at h
    · simp at h
    · rename_i n hn
      obtain ⟨-, hascii, hvalue⟩ := readDigits?_eq_some hn
      split at h
      · rename_i hbounds
        obtain ⟨hlength, hhour, hminute, hsecond⟩ := hbounds
        refine ⟨_, _, _, hhour, hminute, hsecond, ?_, (Option.some.inj h).symm⟩
        apply eq_of_digitsValue_eq hascii (clockText_ascii _ _ _)
        · rw [hlength, clockText_length (by omega) (by omega) (by omega)]
        · rw [← hvalue, clockText_value _ (by omega) (by omega)]
          omega
      · simp at h
  · rintro ⟨hour, minute, second, hhour, hminute, hsecond, rfl, rfl⟩
    have hlength : (clockText hour minute second).length = 6 :=
      clockText_length (by omega) (by omega) (by omega)
    have hne : clockText hour minute second ≠ [] := by
      intro hnil
      simp [hnil] at hlength
    have hvalue : digitsValue (clockText hour minute second) = hour * 10000 + (minute * 100 + second) :=
      clockText_value hour (by omega) (by omega)
    have h₁ : (hour * 10000 + (minute * 100 + second)) / 10000 = hour := by omega
    have h₂ : (hour * 10000 + (minute * 100 + second)) / 100 % 100 = minute := by omega
    have h₃ : (hour * 10000 + (minute * 100 + second)) % 100 = second := by omega
    unfold readTime?
    simp only [readDigits?_of_ascii hne (clockText_ascii _ _ _), hvalue, hlength, h₁, h₂, h₃, hhour,
      hminute, hsecond, and_self, if_true]

/-! Moments -/

section

variable {c : Civil} {hour minute second : Nat}

theorem shows_of_micros {m : Moment} {d : Date} (hd : d.civil = c) (hzone : m.zone = .utc)
    (hfold : m.fold = false) (hhour : hour < 24) (hminute : minute < 60) (hsecond : second < 60)
    (hm : m.wall.micros = d.number * microsPerDay +
      ((hour * 3600 + minute * 60 + second : Nat) : Int) * 1000000) :
    Shows m c hour minute second := by
  have hdate : m.date = d := by
    ext
    simp only [Moment.date, WallTime.date, hm, microsPerDay]
    omega
  have htime : m.wall.timeOfDay = ((hour * 3600 + minute * 60 + second : Nat) : Int) * 1000000 := by
    simp only [WallTime.timeOfDay, hm, microsPerDay]
    omega
  refine ⟨⟨hzone, hfold, ?_⟩, by rw [hdate, hd], ?_, ?_, ?_⟩
  · simp only [WallTime.subsecond, htime]
    omega
  · simp only [WallTime.hour, htime, microsPerHour]
    omega
  · simp only [WallTime.minute, htime, microsPerMinute]
    omega
  · simp only [WallTime.second, htime]
    omega

theorem Shows.unique {m n : Moment} (hm : Shows m c hour minute second)
    (hn : Shows n c hour minute second) : m = n := by
  have hdate : m.date = n.date := by
    have hback := m.date.ofCivil?_civil
    rw [hm.date, ← hn.date, n.date.ofCivil?_civil] at hback
    exact (Option.some.inj hback).symm
  have hnumber : m.wall.date.number = n.wall.date.number := congrArg Date.number hdate
  have hwall : m.wall = n.wall := by
    apply WallTime.ext
    rw [micros_eq hm.whole, micros_eq hn.whole, hnumber, hm.hour, hm.minute, hm.second, hn.hour,
      hn.minute, hn.second]
  obtain ⟨wall, zone, fold⟩ := m
  obtain ⟨wall', zone', fold'⟩ := n
  rw [Moment.mk.injEq]
  exact ⟨hwall, hm.zone.trans hn.zone.symm, hm.fold.trans hn.fold.symm⟩

theorem shows_after_midnight {d : Date} (hd : d.civil = c) (hhour : hour < 24)
    (hminute : minute < 60) (hsecond : second < 60) :
    ∃ w, (WallTime.midnight d).add? ((hour * 3600 + minute * 60 + second : Nat) * 1000000) = some w ∧
      Shows ⟨w, .utc, false⟩ c hour minute second := by
  have hlt := d.lt_dayCount
  have hbounds : 0 ≤ (WallTime.midnight d).micros +
        ((hour * 3600 + minute * 60 + second : Nat) : Int) * 1000000 ∧
      (WallTime.midnight d).micros +
        ((hour * 3600 + minute * 60 + second : Nat) : Int) * 1000000 < wallLimit := by
    simp only [WallTime.midnight, microsPerDay, wallLimit, dayCount] at *
    omega
  refine ⟨⟨_, hbounds.1, hbounds.2⟩, ?_, ?_⟩
  · rw [WallTime.add?, WallTime.ofMicros?, dif_pos hbounds]
  · exact shows_of_micros hd rfl rfl hhour hminute hsecond (by simp only [WallTime.midnight])

theorem shows_midnight {d : Date} (hd : d.civil = c) :
    Shows ⟨.midnight d, .utc, false⟩ c 0 0 0 :=
  shows_of_micros hd rfl rfl (by decide) (by decide) (by decide) (by simp [WallTime.midnight])

end

theorem Stamp.exists_shows {value : List Char} {c : Civil} {hour minute second : Nat}
    (h : Stamp value c hour minute second) : ∃ m, Shows m c hour minute second := by
  cases h with
  | date hc =>
    obtain ⟨d, hd⟩ := Date.exists_civil hc
    exact ⟨_, shows_midnight hd⟩
  | time hc hhour hminute hsecond =>
    obtain ⟨d, hd⟩ := Date.exists_civil hc
    obtain ⟨w, -, hw⟩ := shows_after_midnight hd hhour hminute hsecond
    exact ⟨_, hw⟩

theorem names_of_readLast? {cs : List Char} {m : Moment} (h : readLast? cs = some m) :
    Names cs m := by
  unfold readLast? at h
  split at h
  · obtain ⟨d, hd, rfl⟩ := Option.map_eq_some_iff.mp h
    rw [readDate?_eq_some_iff.mp hd]
    exact ⟨_, _, _, _, .date d.civil_valid, shows_midnight rfl⟩
  · rename_i t rest hdrop
    split at h
    · rename_i hz
      split at h
      · rename_i ht
        split at h
        · rename_i d seconds hd hs
          obtain ⟨w, hw, rfl⟩ := Option.map_eq_some_iff.mp h
          obtain ⟨hour, minute, second, hhour, hminute, hsecond, hclock, rfl⟩ :=
            readTime?_eq_some_iff.mp hs
          obtain ⟨w', hw', hshows⟩ := shows_after_midnight rfl hhour hminute hsecond
          rw [hw, Option.some.injEq] at hw'
          subst hw'
          have hcs : cs = dayText d.civil ++ 'T' :: (clockText hour minute second ++ ['Z']) := by
            rw [← List.take_append_drop 8 cs, hdrop, readDate?_eq_some_iff.mp hd, ht,
              ← List.take_append_drop 6 rest, hclock, hz]
          rw [hcs]
          exact ⟨_, _, _, _, .time d.civil_valid hhour hminute hsecond, hshows⟩
        · simp at h
      · simp at h
    · simp at h

theorem readLast?_of_stamp {cs : List Char} {c : Civil} {hour minute second : Nat} {m : Moment}
    (hcs : Stamp cs c hour minute second) (hm : Shows m c hour minute second) :
    readLast? cs = some m := by
  cases hcs with
  | date hc =>
    obtain ⟨d, rfl⟩ := Date.exists_civil hc
    have hdrop : (dayText d.civil).drop 8 = [] :=
      List.drop_eq_nil_of_le (Nat.le_of_eq (dayText_length_of_valid hc))
    unfold readLast?
    rw [hdrop]
    simp only [readDate?_eq_some_iff.mpr rfl, Option.map_some, Option.some.injEq]
    exact (shows_midnight rfl).unique hm
  | time hc hhour hminute hsecond =>
    obtain ⟨d, rfl⟩ := Date.exists_civil hc
    obtain ⟨w, hw, hshows⟩ := shows_after_midnight rfl hhour hminute hsecond
    have hday : (dayText d.civil).length = 8 := dayText_length_of_valid hc
    have hclock : (clockText hour minute second).length = 6 :=
      clockText_length (by omega) (by omega) (by omega)
    have htime : readTime? (clockText hour minute second) =
        some (hour * 3600 + minute * 60 + second) :=
      readTime?_eq_some_iff.mpr ⟨_, _, _, hhour, hminute, hsecond, rfl, rfl⟩
    unfold readLast?
    rw [List.drop_left' hday]
    simp only [List.drop_left' hclock, List.take_left' hday, List.take_left' hclock, if_true, htime,
      readDate?_eq_some_iff.mpr rfl]
    rw [hw, Option.map_some, Option.some.injEq]
    exact hshows.unique hm

theorem readLast?_eq_some_iff {cs : List Char} {m : Moment} :
    readLast? cs = some m ↔ Names cs m := by
  constructor
  · exact names_of_readLast?
  · rintro ⟨c, hour, minute, second, hcs, hm⟩
    exact readLast?_of_stamp hcs hm

/-! All values -/

theorem readValue_eq_ok_iff {key : Key} {value : List Char} {e : Entry} :
    readValue key value = .ok e ↔ e.key = key ∧ Denotes value e := by
  constructor
  · intro h
    cases key with
    | frequency =>
      simp only [readValue] at h
      split at h
      · rename_i f hf
        rw [← Except.ok.inj h]
        exact ⟨rfl, Frequency.ofName?_eq_some_iff.mp hf⟩
      · simp at h
    | interval | count =>
      obtain ⟨n, hn, rfl⟩ := map_eq_ok h
      exact ⟨rfl, readPositive_eq_ok_iff.mp hn⟩
    | byDay =>
      obtain ⟨days, hdays, rfl⟩ := map_eq_ok h
      exact ⟨rfl, readDays_eq_ok_iff.mp hdays⟩
    | byMonthDay =>
      obtain ⟨n, hn, h⟩ := bind_eq_ok h
      split at h
      · rename_i hle
        rw [← Except.ok.inj h]
        exact ⟨rfl, hle, readPositive_eq_ok_iff.mp hn⟩
      · simp at h
    | last =>
      simp only [readValue] at h
      split at h
      · rename_i m hm
        rw [← Except.ok.inj h]
        exact ⟨rfl, readLast?_eq_some_iff.mp hm⟩
      · simp at h
  · rintro ⟨rfl, h⟩
    cases e with
    | frequency f => simp only [readValue, Entry.key, Frequency.ofName?_eq_some_iff.mpr h]
    | interval n => simp only [readValue, Entry.key, readPositive_eq_ok_iff.mpr h, Except.map]
    | byDay days => simp only [readValue, Entry.key, readDays_eq_ok_iff.mpr h, Except.map]
    | byMonthDay n =>
      simp only [readValue, Entry.key, readPositive_eq_ok_iff.mpr h.2, bind, Except.bind, if_pos h.1]
      rfl
    | count n => simp only [readValue, Entry.key, readPositive_eq_ok_iff.mpr h, Except.map]
    | last m => simp only [readValue, Entry.key, readLast?_eq_some_iff.mpr h]

end Household.Recurrence
