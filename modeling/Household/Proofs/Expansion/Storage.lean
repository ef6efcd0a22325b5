import Household.Proofs.Expansion.Search
import Household.Proofs.Recurrence.RoundTrip

/-!
# Rules kept as text

A rule that is kept as text comes back with its last moment in universal time.
On a whole second that is the same instant, and a moment at a fixed distance
from universal time is compared by its instant with everything else, so the
occurrences of an event that has a zone stay what they were.
-/

set_option autoImplicit false

namespace Household

namespace Calendar.Moment

variable {m u : Moment} {offset : Int}

theorem instant?_of_fixed (h : m.zone = .fixed offset) :
    m.instant? = some (m.wall.micros - offset) := by
  rw [instant?, offset?, h]
  rfl

theorem distance?_of_fixed (h : m.zone = .fixed offset) (n : Moment) :
    m.distance? n =
      n.instant?.map (fun y => m.wall.micros - offset - y) := by
  unfold distance?
  by_cases hz : m.zone = n.zone
  · rw [if_pos hz, instant?_of_fixed (hz.symm.trans h), Option.map_some]
    congr 1
    omega
  · rw [if_neg hz, instant?_of_fixed h]
    cases n.instant? with
    | none => rfl
    | some y => rfl

theorem toUtc_of_fixed (h : m.zone = .fixed offset) (hu : m.toUtc = .ok u) :
    u.wall.micros = m.wall.micros - offset ∧ u.zone = .utc ∧
      u.fold = false := by
  unfold toUtc at hu
  simp only [instant?_of_fixed h] at hu
  cases hw : WallTime.ofMicros? (m.wall.micros - offset) with
  | none => simp [hw] at hu
  | some w =>
    simp only [hw, Except.ok.injEq] at hu
    unfold WallTime.ofMicros? at hw
    obtain ⟨_, hw⟩ := Option.dite_none_right_eq_some.mp hw
    rw [← hu, ← Option.some.inj hw]
    exact ⟨rfl, rfl, rfl⟩

theorem before_toUtc (h : m.zone = .fixed offset) (hu : m.toUtc = .ok u) (n : Moment) :
    u.before n = m.before n := by
  obtain ⟨hwall, hzone, -⟩ := toUtc_of_fixed h hu
  have hdistance : u.distance? n = m.distance? n := by
    rw [distance?_of_fixed hzone, distance?_of_fixed h, hwall, Int.sub_zero]
  rw [before, before, hdistance]

end Calendar.Moment

namespace Recurrence

open Household.Calendar Household.Text

namespace Rule

/-- What may be kept as text: numbers that are not too long to be read, and a
last moment at a fixed distance from universal time, which is on a whole second
and of a year with four digits there. -/
structure Storable (r : Rule) : Prop where
  interval : (digits r.interval).length ≤ digitLimit
  count : (digits r.count).length ≤ digitLimit
  last : ∀ m, r.last? = some m → (∃ offset, m.zone = .fixed offset) ∧
    ∃ u, m.toUtc = .ok u ∧ u.wall.subsecond = 0 ∧ 1000 ≤ u.date.civil.year

def through (r : Rule) (u : Moment) : Rule := { r with limit := .through u }

section

variable {r : Rule} {m u : Moment}

theorem limit_of_last? (h : r.last? = some m) : r.limit = .through m := by
  unfold last? at h
  cases hl : r.limit with
  | through n =>
    rw [hl] at h
    rw [Option.some.inj h]
  | unbounded => simp [hl] at h
  | times n pos => simp [hl] at h

theorem count_of_last? (h : r.last? = some m) : r.count = 0 := by
  rw [count, limit_of_last? h]

theorem text_through (hm : r.last? = some m) (hu : m.toUtc = .ok u) (hplain : Plain u) :
    (r.through u).text = r.text := by
  have hlimit : (r.through u).limitParts = r.limitParts := by
    unfold limitParts
    simp only [limit_of_last? hm, through, hu, toUtc_of_plain hplain]
  unfold text parts
  rw [hlimit]
  rfl

theorem Storable.readRule_text (hr : r.Storable) : ∃ t s, r.text = .ok t ∧ readRule t = .ok s ∧
    (r.last? = none ∧ s = r ∨ ∃ m u offset, r.last? = some m ∧ m.zone = .fixed offset ∧
      m.toUtc = .ok u ∧ s = r.through u) := by
  have hinterval := (digits_length_le (by decide)).mp hr.interval
  have hcount := (digits_length_le (by decide)).mp hr.count
  cases hlast : r.last? with
  | none =>
    have hsound := Rule.sound hinterval hcount fun m hm => by simp [hlast] at hm
    obtain ⟨t, ht, hne, hsplit⟩ := text_eq hsound
    refine ⟨t, r, ht, Recurrence.readRule_text hsound hne hsplit ?_, .inl ⟨rfl, rfl⟩⟩
    intro m hm
    simp [hlast] at hm
  | some m =>
    obtain ⟨⟨offset, hzone⟩, u, hu, hwhole, hyear⟩ := hr.last m hlast
    obtain ⟨-, hutc, hfold⟩ := Moment.toUtc_of_fixed hzone hu
    have hplain : Plain u := ⟨hutc, hfold, hwhole⟩
    have hsound : ∀ e ∈ (r.through u).entries, e.Sound := by
      apply Rule.sound
      · exact hinterval
      · exact Nat.lt_of_le_of_lt (Nat.zero_le r.count) hcount
      · rintro _ ⟨⟩
        exact hplain
    obtain ⟨t, ht, hne, hsplit⟩ := text_eq hsound
    rw [text_through hlast hu hplain] at ht
    refine ⟨t, r.through u, ht, Recurrence.readRule_text hsound hne hsplit ?_,
      .inr ⟨m, u, offset, rfl, hzone, hu, rfl⟩⟩
    rintro _ ⟨⟩
    exact hyear

end

end Rule

end Recurrence

namespace Expansion

open Household.Calendar Household.Recurrence

/-- An event that has a zone takes place through the same instant. -/
theorem expand_through {r : Rule} {m u : Moment} {offset : Int} (hm : r.last? = some m)
    (hzone : m.zone = .fixed offset) (hu : m.toUtc = .ok u) {start : Moment}
    (hstart : start.isFloating = false) (finish first last : Moment) :
    expand (r.through u) start finish first last = expand r start finish first last := by
  apply bind_congr
  intro duration
  apply walk_congr
  · exact fun _ => rfl
  · intro earlier n
    have hpast : Query.pastEnding ⟨r.through u, start, duration, first, last⟩ n =
        Query.pastEnding ⟨r, start, duration, first, last⟩ n := by
      have hlast : (r.through u).last? = some u := rfl
      simp only [Query.pastEnding, Query.ending?, hlast, hm, Option.map_some, hstart,
        Bool.false_and, Bool.false_eq_true, if_false]
      exact Moment.before_toUtc hzone hu n
    have hcount : (r.through u).count = r.count := (Rule.count_of_last? hm).symm
    simp only [Query.visit, hpast, hcount]

/-- A rule that was kept as text gives an event that has a zone the same
occurrences through every window. -/
theorem expand_of_kept {r : Rule} (hr : r.Storable) :
    ∃ t s, r.text = .ok t ∧ readRule t = .ok s ∧
      ∀ start finish first last : Moment, start.isFloating = false →
        expand s start finish first last = expand r start finish first last := by
  obtain ⟨t, s, ht, hs, hkept⟩ := hr.readRule_text
  refine ⟨t, s, ht, hs, ?_⟩
  intro start finish first last hstart
  rcases hkept with ⟨-, rfl⟩ | ⟨m, u, offset, hm, hzone, hu, rfl⟩
  · rfl
  · exact expand_through hm hzone hu hstart finish first last

/-- Every day at two in the afternoon in New York, through a quarter past
midnight on 1 March in India, which is the day before in universal time. -/
theorem february_kept :
    let r : Rule := ⟨.daily, 1, by decide,
      .through ⟨⟨63907920900000000, by decide, by decide⟩, .fixed (330 * microsPerMinute), false⟩⟩
    let start : Moment := ⟨⟨63907711200000000, by decide, by decide⟩, .region .newYork, false⟩
    let finish : Moment := ⟨⟨63907714800000000, by decide, by decide⟩, .region .newYork, false⟩
    let start' : Moment := ⟨⟨63907797600000000, by decide, by decide⟩, .region .newYork, false⟩
    let finish' : Moment := ⟨⟨63907801200000000, by decide, by decide⟩, .region .newYork, false⟩
    let first : Moment := ⟨⟨63905500800000000, by decide, by decide⟩, .utc, false⟩
    let last : Moment := ⟨⟨63910598400000000, by decide, by decide⟩, .utc, false⟩
    r.Storable ∧ start.isFloating = false ∧
      expand r start finish first last = .ok [⟨start, finish⟩, ⟨start', finish'⟩] ∧
      ∃ t s, r.text = .ok t ∧ String.ofList t = "FREQ=DAILY;UNTIL=20260228T184500Z" ∧
        readRule t = .ok s ∧
        expand s start finish first last = expand r start finish first last := by
  dsimp only
  suffices hr : Rule.Storable _ by
    obtain ⟨t, s, ht, hs, hkept⟩ := expand_of_kept hr
    refine ⟨hr, rfl, rfl, t, s, ht, ?_, hs, hkept _ _ _ _ rfl⟩
    rw [← Except.ok.inj ht]
    rfl
  constructor
  case interval => decide
  case count => decide
  case last =>
    rintro _ ⟨⟩
    exact ⟨⟨_, rfl⟩, _, rfl, by decide, by decide⟩

/-- A distance of half a second from universal time is lost with the text, and
with it what starts in the second that it was in. -/
theorem half_second_lost :
    let m : Moment := ⟨⟨63908042400000000, by decide, by decide⟩, .fixed 500000, false⟩
    let u : Moment := ⟨⟨63908042399000000, by decide, by decide⟩, .utc, false⟩
    let r : Rule := ⟨.daily, 1, by decide, .through m⟩
    let s : Rule := ⟨.daily, 1, by decide, .through u⟩
    let t : List Char := "FREQ=DAILY;UNTIL=20260302T095959Z".toList
    let start : Moment := ⟨⟨63907955999250000, by decide, by decide⟩, .utc, false⟩
    let finish : Moment := ⟨⟨63907959599250000, by decide, by decide⟩, .utc, false⟩
    let start' : Moment := ⟨⟨63908042399250000, by decide, by decide⟩, .utc, false⟩
    let finish' : Moment := ⟨⟨63908045999250000, by decide, by decide⟩, .utc, false⟩
    let first : Moment := ⟨⟨63907920000000000, by decide, by decide⟩, .utc, false⟩
    let last : Moment := ⟨⟨63908697600000000, by decide, by decide⟩, .utc, false⟩
    m.wall.subsecond = 0 ∧ m.toUtc.map (fun u => u.date.civil.year) = .ok 2026 ∧
      r.text = .ok t ∧ readRule t = .ok s ∧
      expand r start finish first last = .ok [⟨start, finish⟩, ⟨start', finish'⟩] ∧
      expand s start finish first last = .ok [⟨start, finish⟩] := by
  dsimp only
  exact ⟨by decide, rfl, rfl, rfl, rfl, rfl⟩

end Expansion

end Household
