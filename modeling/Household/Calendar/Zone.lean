import Household.Calendar.Date

/-!
# Zones

A wall time is what a clock on a wall shows, in microseconds since the first
midnight of the calendar. A zone says how far the wall clock runs ahead of
universal time. Where a clock is put forward a stretch of wall time is
skipped, where it is put back a stretch is shown twice; the fold picks the
reading there: before the change when it is unset, after the change when it
is set.
-/

set_option autoImplicit false

namespace Household.Calendar

abbrev microsPerMinute : Int := 60000000
abbrev microsPerHour : Int := 3600000000
abbrev microsPerDay : Int := 86400000000

abbrev wallLimit : Int := 315537897600000000

structure WallTime where
  micros : Int
  nonneg : 0 ≤ micros
  lt_limit : micros < wallLimit
  deriving DecidableEq, Repr

namespace WallTime

@[ext] theorem ext {a b : WallTime} (h : a.micros = b.micros) : a = b := by
  cases a; cases b; simp_all

def ofMicros? (n : Int) : Option WallTime :=
  if h : 0 ≤ n ∧ n < wallLimit then some ⟨n, h.1, h.2⟩ else none

def date (w : WallTime) : Date :=
  ⟨(w.micros / microsPerDay).toNat, by
    have h := w.nonneg
    have h' := w.lt_limit
    simp only [wallLimit, microsPerDay, dayCount] at *
    omega⟩

def timeOfDay (w : WallTime) : Int := w.micros % microsPerDay

def hour (w : WallTime) : Nat := (w.timeOfDay / microsPerHour).toNat
def minute (w : WallTime) : Nat := (w.timeOfDay / microsPerMinute % 60).toNat
def second (w : WallTime) : Nat := (w.timeOfDay / 1000000 % 60).toNat
def subsecond (w : WallTime) : Nat := (w.timeOfDay % 1000000).toNat

def onDate (w : WallTime) (d : Date) : WallTime :=
  ⟨d.number * microsPerDay + w.timeOfDay, by
      simp only [timeOfDay, microsPerDay]
      omega, by
    have h := d.lt_dayCount
    simp only [timeOfDay, wallLimit, microsPerDay, dayCount] at *
    omega⟩

def midnight (d : Date) : WallTime :=
  ⟨d.number * microsPerDay, by simp only [microsPerDay]; omega, by
    have h := d.lt_dayCount
    simp only [wallLimit, microsPerDay, dayCount] at *
    omega⟩

def add? (w : WallTime) (duration : Int) : Option WallTime := ofMicros? (w.micros + duration)

@[simp] theorem date_onDate (w : WallTime) (d : Date) : (w.onDate d).date = d := by
  ext
  simp only [date, onDate, timeOfDay, microsPerDay]
  omega

@[simp] theorem timeOfDay_onDate (w : WallTime) (d : Date) :
    (w.onDate d).timeOfDay = w.timeOfDay := by
  simp only [onDate, timeOfDay, microsPerDay]
  omega

@[simp] theorem onDate_date (w : WallTime) : w.onDate w.date = w := by
  have h := w.nonneg
  ext
  simp only [date, onDate, timeOfDay, microsPerDay]
  omega

end WallTime

/-- A yearly change of the clocks: a Sunday of a month, the last one when no
rank is given, and the minutes after midnight that the wall then shows. -/
structure Turn where
  month : Nat
  rank : Option Nat
  minutes : Int
  deriving DecidableEq, Repr

namespace Turn

def day (t : Turn) (year : Nat) : Nat :=
  match t.rank with
  | some n => 7 * n - Civil.dayNumber ⟨year, t.month, 1⟩ % 7
  | none =>
    let last := monthLength year t.month
    last - (Civil.dayNumber ⟨year, t.month, last⟩ + 1) % 7

def wall (t : Turn) (year : Nat) : Int :=
  Civil.dayNumber ⟨year, t.month, t.day year⟩ * microsPerDay + t.minutes * microsPerMinute

end Turn

/-- Summer time begins by the standard clock and ends by the summer clock,
which runs `saving` ahead of it. -/
structure Summer where
  saving : Int
  begins : Turn
  ends : Turn
  deriving DecidableEq, Repr

/-- Whether the wall clock is on summer time. In the south the summer of a
year is the part outside the stretch from its end to its beginning. -/
def Summer.holds (s : Summer) (w : WallTime) (fold : Bool) : Bool :=
  let year := w.date.civil.year
  let first := s.begins.wall year
  let last := s.ends.wall year
  let begun := first + s.saving ≤ w.micros || (fold && first ≤ w.micros)
  let ended := last ≤ w.micros || (fold && last - s.saving ≤ w.micros)
  if first < last then begun && !ended else begun || !ended

/-- A time in which the offset of a region stayed the same. By the two
readings of the wall clock it may end at different points. -/
structure Span where
  ends : Int
  endsFolded : Int
  offset : Int
  deriving DecidableEq, Repr

def Span.covers (s : Span) (w : WallTime) (fold : Bool) : Bool :=
  decide (w.micros < if fold then s.endsFolded else s.ends)

/-- The clocks of a place: their recorded changes, and the yearly rule that
they have followed since. -/
structure Region where
  name : String
  history : List Span
  standard : Int
  summer : Option Summer
  deriving DecidableEq, Repr

namespace Region

def offset (r : Region) (w : WallTime) (fold : Bool) : Int :=
  match r.history.find? (fun s => s.covers w fold) with
  | some s => s.offset
  | none =>
    match r.summer with
    | none => r.standard
    | some s => if s.holds w fold then r.standard + s.saving else r.standard

/-! The regions that are known by name, as their clocks have gone since 2008 -/

def newYork : Region :=
  ⟨"America/New_York", [], -5 * microsPerHour,
    some ⟨microsPerHour, ⟨3, some 2, 120⟩, ⟨11, some 1, 120⟩⟩⟩

def london : Region :=
  ⟨"Europe/London", [], 0, some ⟨microsPerHour, ⟨3, none, 60⟩, ⟨10, none, 120⟩⟩⟩

def lordHowe : Region :=
  ⟨"Australia/Lord_Howe", [], 630 * microsPerMinute,
    some ⟨30 * microsPerMinute, ⟨10, some 1, 120⟩, ⟨4, some 1, 120⟩⟩⟩

def kolkata : Region := ⟨"Asia/Kolkata", [], 330 * microsPerMinute, none⟩

def all : List Region := [newYork, london, lordHowe, kolkata]

def ofName? (s : String) : Option Region := all.find? (fun r => r.name == s)

end Region

/-- A floating zone belongs to no place: its wall times have no instant. -/
inductive Zone where
  | floating
  | fixed (offset : Int)
  | region (r : Region)
  deriving DecidableEq, Repr

namespace Zone

abbrev utc : Zone := fixed 0

/-- Microseconds ahead of universal time. -/
def offset? : Zone → WallTime → Bool → Option Int
  | floating, _, _ => none
  | fixed o, _, _ => some o
  | region r, w, fold => some (r.offset w fold)

end Zone

end Household.Calendar
