import Household.Proofs.Expansion.Selection

/-!
# The occurrences of a rule

A rule has its occurrences whatever window they are seen through, up to the
first slot past its last moment. None lies before the start of the event, and
an expansion within one zone gives those that overlap its window, each after
the ones before it, however the clocks of that zone go.
-/

set_option autoImplicit false

namespace Household.Expansion

open Household.Calendar Household.Recurrence

/-- Slot number `k` is held at `m` and lies within the limits of its rule. -/
structure Passes (r : Rule) (start : Moment) (k : Nat) (m : Moment) : Prop where
  held : slot? r start k = some (.held m)
  ending : ∀ e ∈ endingFrom? r start, ¬e.Precedes m
  count : 0 < r.count → heldBefore r start k < r.count

/-- A rule ends at the first slot past its last moment. -/
def Occurs (r : Rule) (start m : Moment) : Prop := ∃ k < reach r start, Passes r start k m

/-- By steady clocks no later slot would pass, and the last moment is a limit
for each slot by itself. -/
theorem occurs_iff {r : Rule} {start m : Moment} (h : start.zone.Steady) :
    Occurs r start m ↔ ∃ k < slotLimit, Passes r start k m := by
  constructor
  · rintro ⟨k, hk, hp⟩
    exact ⟨k, Nat.lt_of_lt_of_le hk (reach_le r start), hp⟩
  · rintro ⟨k, hk, hp⟩
    refine ⟨k, Nat.lt_of_not_le fun hreach => ?_, hp⟩
    have hpast := isPast_of_reach_le h hreach hk hp.held
    simp only [isPast, hp.held, Option.any_eq_true, decide_eq_true_eq] at hpast
    obtain ⟨e, he, hprecedes⟩ := hpast
    exact hp.ending e he hprecedes

theorem Occurs.zone {r : Rule} {start m : Moment} (h : Occurs r start m) : m.zone = start.zone := by
  obtain ⟨k, -, hp⟩ := h
  exact (slot?_ascending r start).zone hp.held

namespace Query

variable {q : Query}

theorem selected?_eq_some_iff {k : Nat} {o : Occurrence} : q.selected? k = some o ↔
    Passes q.rule q.start k o.start ∧ o.start.add? q.duration = some o.finish ∧
      o.start.Precedes q.last ∧ q.first.Precedes o.finish := by
  obtain ⟨m, finish⟩ := o
  constructor
  · intro h
    unfold selected? at h
    split at h
    · rename_i m' hk
      split at h
      · rename_i finish' hadd
        obtain ⟨ha, ho⟩ := Option.ite_none_right_eq_some.mp h
        rw [Option.some.injEq, Occurrence.mk.injEq] at ho
        obtain ⟨rfl, rfl⟩ := ho
        exact ⟨⟨hk, ha.ending, ha.count⟩, hadd, ha.last, ha.first⟩
      · simp at h
    · simp at h
  · rintro ⟨hp, hadd, hlast, hfirst⟩
    have hadmits : q.Admits k m finish := ⟨hp.ending, hp.count, hlast, hfirst⟩
    unfold selected?
    simp only [hp.held, hadd, if_pos hadmits]

theorem mem_reached {o : Occurrence} : o ∈ q.reached ↔
    Occurs q.rule q.start o.start ∧ o.start.add? q.duration = some o.finish ∧
      o.start.Precedes q.last ∧ q.first.Precedes o.finish := by
  simp only [reached, List.mem_filterMap, List.mem_range, selected?_eq_some_iff, Occurs]
  constructor
  · rintro ⟨k, hk, hp, h⟩
    exact ⟨⟨k, hk, hp⟩, h⟩
  · rintro ⟨⟨k, hk, hp⟩, h⟩
    exact ⟨k, hk, hp, h⟩

theorem reached_ascending (q : Query) :
    q.reached.Pairwise (fun a b => b.start.DayAfter a.start) := by
  refine List.Pairwise.filterMap q.selected? ?_ List.pairwise_lt_range
  intro j k hjk a ha b hb
  exact (slot?_ascending q.rule q.start).dayAfter (selected?_eq_some_iff.mp ha).1.held
    (selected?_eq_some_iff.mp hb).1.held hjk

structure OneZone (q : Query) : Prop where
  first : q.first.zone = q.start.zone
  last : q.last.zone = q.start.zone

theorem OneZone.coherent (h : q.OneZone)
    (hending : ∀ m ∈ q.rule.last?, m.isFloating = true → q.start.isFloating = true) :
    q.Coherent where
  first := Moment.isFloating_of_zone h.first
  last := Moment.isFloating_of_zone h.last
  ending := hending

theorem start_mem_iff (hq : q.OneZone) (hd : 0 ≤ q.duration) {m : Moment} :
    (∃ o ∈ q.reached, o.start = m) ↔ Occurs q.rule q.start m ∧
      m.wall.micros + q.duration < wallLimit ∧ m.wall.micros < q.last.wall.micros ∧
        q.first.wall.micros < m.wall.micros + q.duration := by
  simp only [mem_reached]
  constructor
  · rintro ⟨o, ⟨hoccurs, hadd, hlast, hfirst⟩, rfl⟩
    have hzone := hoccurs.zone
    obtain ⟨hwall, hfinish⟩ := Moment.add?_eq_some hadd
    rw [Moment.precedes_iff_of_zone (hzone.trans hq.last.symm)] at hlast
    rw [Moment.precedes_iff_of_zone (hq.first.trans (hfinish.trans hzone).symm), hwall] at hfirst
    refine ⟨hoccurs, ?_, hlast, hfirst⟩
    rw [← hwall]
    exact o.finish.wall.lt_limit
  · rintro ⟨hoccurs, hlimit, hlast, hfirst⟩
    have hzone := hoccurs.zone
    obtain ⟨finish, hadd⟩ := Moment.exists_add? hd hlimit
    obtain ⟨hwall, hfinish⟩ := Moment.add?_eq_some hadd
    refine ⟨⟨m, finish⟩, ⟨hoccurs, hadd, ?_, ?_⟩, rfl⟩
    · rwa [Moment.precedes_iff_of_zone (hzone.trans hq.last.symm)]
    · rwa [Moment.precedes_iff_of_zone (hq.first.trans (hfinish.trans hzone).symm), hwall]

end Query

theorem expand_of_sub {r : Rule} {start finish first last : Moment} {duration : Int}
    (h : finish.sub start = .ok duration) :
    expand r start finish first last = Query.occurrences ⟨r, start, duration, first, last⟩ := by
  unfold expand
  rw [h]
  rfl

theorem expand_of_oneZone {r : Rule} {start finish first last : Moment} {duration : Int}
    (hadd : start.add? duration = some finish) (hd : 0 ≤ duration)
    (hq : Query.OneZone ⟨r, start, duration, first, last⟩)
    (hending : ∀ m ∈ r.last?, m.isFloating = true → start.isFloating = true) :
    expand r start finish first last = .ok (Query.reached ⟨r, start, duration, first, last⟩) := by
  rw [expand_of_sub (Moment.sub_of_add? hadd)]
  exact Query.occurrences_eq_reached (hq.coherent hending) (Query.closes_of_zone hq.last) hd

/-! The start comes first -/

theorem listedBefore_le_length (start : Moment) (days : List Weekday) :
    listedBefore start days ≤ (listedDays days).length :=
  List.length_filter_le _ _

theorem weekday_le_listed {start : Moment} {days : List Weekday}
    (h : listedBefore start days < (listedDays days).length) :
    start.date.weekday ≤ (listedDays days)[listedBefore start days] := by
  apply Nat.le_of_not_lt
  intro hlt
  have hsorted := List.pairwise_iff_getElem.mp (listedDays_sorted days)
  have hall : ∀ i ∈ (listedDays days).take (listedBefore start days + 1),
      decide (i < start.date.weekday) = true := by
    intro i hi
    obtain ⟨j, hj, rfl⟩ := List.mem_take_iff_getElem.mp hi
    rw [decide_eq_true_eq]
    rcases Nat.lt_or_eq_of_le (Nat.le_of_lt_succ (Nat.lt_of_lt_of_le hj (Nat.min_le_left _ _))) with
      hj' | rfl
    · exact Nat.lt_trans (hsorted _ _ (by omega) h hj') hlt
    · exact hlt
  have hcount : ((listedDays days).take (listedBefore start days + 1)).countP
      (fun i => decide (i < start.date.weekday)) ≤ (listedDays days).countP _ :=
    (List.take_sublist _ _).countP_le
  rw [List.countP_eq_length.mpr hall, List.length_take, Nat.min_eq_left h,
    List.countP_eq_length_filter] at hcount
  exact Nat.not_succ_le_self _ hcount

theorem weekday_le_listedOffset (start : Moment) {interval : Nat} (hi : 0 < interval)
    {days : List Weekday} (hd : days ≠ []) :
    start.date.weekday ≤ listedOffset interval days (listedBefore start days) := by
  have hpos := listedDays_pos hd
  have hweekday : start.date.weekday < 7 := Nat.mod_lt _ (by decide)
  unfold listedOffset
  rcases Nat.lt_or_eq_of_le (listedBefore_le_length start days) with hlt | heq
  · rw [Nat.mod_eq_of_lt hlt, List.getElem?_eq_getElem hlt, Option.getD_some]
    exact Nat.le_trans (weekday_le_listed hlt) (Nat.le_add_left _ _)
  · rw [heq, Nat.div_self hpos]
    omega

theorem start_le_onDate {start : Moment} {d : Date} (h : start.date.number ≤ d.number) :
    start.wall.micros ≤ (start.onDate d).wall.micros := by
  rcases Nat.lt_or_eq_of_le h with hlt | heq
  · have hday := (start.dayAfter_onDate hlt).wall
    rw [Moment.onDate_date] at hday
    simp only [microsPerDay] at hday
    omega
  · exact Int.le_of_eq (by rw [← Date.ext heq, Moment.onDate_date])

theorem start_le_listedDate {start : Moment} {interval k : Nat} (hi : 0 < interval)
    {days : List Weekday} (hd : days ≠ []) {d : Date}
    (h : listedDate? start interval days (k + listedBefore start days) = some d) :
    start.date.number ≤ d.number := by
  have hnumber : d.number = start.date.monday.number +
      listedOffset interval days (k + listedBefore start days) := addDays?_eq_some h
  have hmonday : start.date.monday.number + start.date.weekday = start.date.number :=
    Nat.sub_add_cancel (Nat.mod_le _ _)
  have hfirst := weekday_le_listedOffset start hi hd
  have hlater : listedOffset interval days (listedBefore start days) ≤
      listedOffset interval days (k + listedBefore start days) := by
    rcases Nat.eq_zero_or_pos k with rfl | hk
    · exact Nat.le_of_eq (by rw [Nat.zero_add])
    · exact Nat.le_of_lt (listedOffset_lt hi hd (Nat.lt_add_of_pos_left hk))
  omega

theorem weekSlot?_not_before {start m : Moment} {interval k : Nat} (hi : 0 < interval)
    {days : List Weekday} (hd : days ≠ []) (h : weekSlot? start interval days k = some (.held m)) :
    start.wall.micros ≤ m.wall.micros := by
  obtain ⟨d, hlisted, hm⟩ := Option.map_eq_some_iff.mp h
  rw [Slot.held.injEq] at hm
  subst hm
  exact start_le_onDate (start_le_listedDate hi hd hlisted)

theorem Ascending.not_before {slots : Nat → Option Slot} {start m : Moment} {k : Nat}
    (h : Ascending slots start) (hzero : slots 0 = some (.held start))
    (hk : slots k = some (.held m)) : start.wall.micros ≤ m.wall.micros := by
  rcases Nat.eq_zero_or_pos k with rfl | hpos
  · rw [hzero, Option.some.injEq, Slot.held.injEq] at hk
    exact Int.le_of_eq (by rw [hk])
  · have hday := (h.dayAfter hzero hk hpos).wall
    simp only [microsPerDay] at hday
    omega

theorem yearSlot?_zero (start : Moment) (interval : Nat) :
    yearSlot? start interval 0 = some (.held start) := by
  have hyear : ¬lastYear < start.date.civil.year := Nat.not_lt.mpr start.date.civil_valid.1.2
  simp [yearSlot?, civilSlot?, hyear, start.date.ofCivil?_civil]

theorem slot?_not_before {r : Rule} {start m : Moment} {k : Nat}
    (h : slot? r start k = some (.held m)) : start.wall.micros ≤ m.wall.micros := by
  have hascending := slot?_ascending r start
  have hi := r.interval_pos
  cases hp : r.pattern with
  | daily => exact hascending.not_before (by simp [slot?, hp, daySlot?]) h
  | monthly day => exact hascending.not_before (by simp [slot?, hp, monthSlot?]) h
  | yearly => exact hascending.not_before (by simp [slot?, hp, yearSlot?_zero]) h
  | weekly days =>
    cases days with
    | nil => exact hascending.not_before (by simp [slot?, hp, daySlot?]) h
    | cons d ds =>
      simp only [slot?, hp] at h
      exact weekSlot?_not_before hi (by simp) h

theorem Occurs.not_before {r : Rule} {start m : Moment} (h : Occurs r start m) :
    start.wall.micros ≤ m.wall.micros := by
  obtain ⟨k, -, hp⟩ := h
  exact slot?_not_before hp.held

end Household.Expansion
