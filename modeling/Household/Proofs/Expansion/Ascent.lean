import Household.Expansion.Slot
import Household.Proofs.Calendar.Civil
import Household.Proofs.Calendar.Comparison

/-!
# Slots ascend

Whatever its frequency, the held slots of a rule lie in the zone of the
start, each at least a day after the ones before it, and once the sequence
has ended there are no more slots.
-/

set_option autoImplicit false

namespace Household.Expansion

open Household.Calendar Household.Recurrence

/-- What the slots of one pattern have in common: held ones ascend and the
end of the sequence is final. -/
structure Ascending (slots : Nat → Option Slot) (start : Moment) : Prop where
  zone : ∀ {k m}, slots k = some (.held m) → m.zone = start.zone
  dayAfter : ∀ {j k m n}, slots j = some (.held m) → slots k = some (.held n) → j < k →
    n.DayAfter m
  ended : ∀ {j k}, slots j = none → j ≤ k → slots k = none

theorem eq_none_of_ended {α : Type} {items : Nat → Option α}
    (hended : ∀ {j k}, items j = none → j ≤ k → items k = none) {k : Nat} (hk : items k = none)
    (n : Nat) : ∀ j ∈ List.range' (k + 1) n, items j = none := by
  intro j hj
  exact hended hk (Nat.le_of_succ_le (List.mem_range'_1.mp hj).1)

theorem daySlot?_held {start m : Moment} {step k : Nat} (h : daySlot? start step k = some (.held m)) :
    m.wall.micros = start.wall.micros + (k * step : Nat) * microsPerDay ∧ m.zone = start.zone := by
  unfold daySlot? at h
  by_cases hk : k = 0
  · rw [if_pos hk, Option.some.injEq, Slot.held.injEq] at h
    simp [hk, h]
  · rw [if_neg hk, Option.map_eq_some_iff] at h
    obtain ⟨n, hn, hm⟩ := h
    rw [Slot.held.injEq] at hm
    exact hm ▸ Moment.add?_eq_some hn

theorem daySlot?_eq_none_iff {start : Moment} {step k : Nat} :
    daySlot? start step k = none ↔
      wallLimit ≤ start.wall.micros + (k * step : Nat) * microsPerDay := by
  have hstart := start.wall.lt_limit
  unfold daySlot?
  by_cases hk : k = 0
  · rw [if_pos hk]
    simp only [reduceCtorEq, hk, Nat.zero_mul, Int.natCast_zero, Int.zero_mul, false_iff]
    omega
  · rw [if_neg hk, Option.map_eq_none_iff, Moment.add?_eq_none_iff]
    simp only [microsPerDay]
    omega

theorem daySlot?_ascending (start : Moment) {step : Nat} (hstep : 0 < step) :
    Ascending (daySlot? start step) start where
  zone h := (daySlot?_held h).2
  dayAfter {j k m n} hj hk hjk := by
    obtain ⟨hm, hmz⟩ := daySlot?_held hj
    obtain ⟨hn, hnz⟩ := daySlot?_held hk
    have hmul : j * step + step ≤ k * step := by
      rw [← Nat.succ_mul]
      exact Nat.mul_le_mul_right step hjk
    refine ⟨hnz.trans hmz.symm, ?_⟩
    simp only [microsPerDay] at *
    omega
  ended {j k} hj hjk := by
    rw [daySlot?_eq_none_iff] at hj ⊢
    have hmul : j * step ≤ k * step := Nat.mul_le_mul_right step hjk
    simp only [microsPerDay] at *
    omega

theorem ascending_of_dates {slots : Nat → Option Slot} {start : Moment} (on : Nat → Date → Prop)
    (held : ∀ {k m}, slots k = some (.held m) → ∃ d, m = start.onDate d ∧ on k d)
    (lt : ∀ {j k d e}, on j d → on k e → j < k → d.number < e.number)
    (ended : ∀ {j k}, slots j = none → j ≤ k → slots k = none) : Ascending slots start where
  zone h := by
    obtain ⟨d, rfl, -⟩ := held h
    rfl
  dayAfter hj hk hjk := by
    obtain ⟨d, rfl, hd⟩ := held hj
    obtain ⟨e, rfl, he⟩ := held hk
    exact start.dayAfter_onDate (lt hd he hjk)
  ended := ended

/-! Listed weekdays -/

theorem listedDays_sorted (days : List Weekday) : (listedDays days).Pairwise (· < ·) :=
  List.Pairwise.filter _ (by decide)

theorem listedDays_lt {days : List Weekday} {i : Nat} (h : i ∈ listedDays days) : i < 7 :=
  List.mem_range.mp (List.mem_filter.mp h).1

theorem listedDays_pos {days : List Weekday} (h : days ≠ []) : 0 < (listedDays days).length := by
  obtain ⟨d, hd⟩ := List.exists_mem_of_ne_nil days h
  have hmem : d.index ∈ listedDays days := by
    simp only [listedDays, List.mem_filter, List.mem_range, List.any_eq_true, beq_iff_eq]
    exact ⟨d.index_lt, d, hd, rfl⟩
  exact List.length_pos_of_mem hmem

def listedOffset (interval : Nat) (days : List Weekday) (j : Nat) : Nat :=
  7 * interval * (j / (listedDays days).length) +
    ((listedDays days)[j % (listedDays days).length]?).getD 0

theorem listedOffset_lt {interval : Nat} {days : List Weekday} (hi : 0 < interval)
    (hd : days ≠ []) {j k : Nat} (h : j < k) :
    listedOffset interval days j < listedOffset interval days k := by
  have hpos := listedDays_pos hd
  have hsorted := listedDays_sorted days
  have hlt : ∀ i < (listedDays days).length, ((listedDays days)[i]?).getD 0 < 7 := by
    intro i hi'
    rw [List.getElem?_eq_getElem hi', Option.getD_some]
    exact listedDays_lt (List.getElem_mem hi')
  have hj := Nat.mod_lt j hpos
  have hk := Nat.mod_lt k hpos
  unfold listedOffset
  rcases Nat.lt_or_eq_of_le (Nat.div_le_div_right (c := (listedDays days).length) (Nat.le_of_lt h)) with
    hweek | hweek
  · have hrest := hlt _ hj
    have hmul : 7 * interval * (j / (listedDays days).length + 1) ≤
        7 * interval * (k / (listedDays days).length) := Nat.mul_le_mul_left _ hweek
    rw [Nat.mul_add, Nat.mul_one] at hmul
    omega
  · have hmod : j % (listedDays days).length < k % (listedDays days).length := by
      have hj' := Nat.div_add_mod j (listedDays days).length
      have hk' := Nat.div_add_mod k (listedDays days).length
      rw [hweek] at hj'
      omega
    rw [hweek, List.getElem?_eq_getElem hj, List.getElem?_eq_getElem hk]
    exact Nat.add_lt_add_left (List.pairwise_iff_getElem.mp hsorted _ _ hj hk hmod) _

theorem addDays?_eq_some {d e : Date} {n : Nat} (h : d.addDays? n = some e) :
    e.number = d.number + n := by
  unfold Date.addDays? at h
  split at h
  · rw [Option.some.injEq] at h
    exact h ▸ rfl
  · simp at h

theorem addDays?_eq_none_iff {d : Date} {n : Nat} :
    d.addDays? n = none ↔ dayCount ≤ d.number + n := by
  unfold Date.addDays?
  split <;> simp only [reduceCtorEq, false_iff, true_iff] <;> omega

theorem weekSlot?_ascending (start : Moment) {interval : Nat} (hi : 0 < interval)
    {days : List Weekday} (hd : days ≠ []) : Ascending (weekSlot? start interval days) start := by
  apply ascending_of_dates
    (fun k d => listedDate? start interval days (k + listedBefore start days) = some d)
  · intro k m h
    obtain ⟨d, hd, hm⟩ := Option.map_eq_some_iff.mp h
    rw [Slot.held.injEq] at hm
    exact ⟨d, hm.symm, hd⟩
  · intro j k d e hj hk hjk
    have hlt := listedOffset_lt hi hd (Nat.add_lt_add_right hjk (listedBefore start days))
    have hd' := addDays?_eq_some hj
    have he' := addDays?_eq_some hk
    unfold listedOffset at hlt
    omega
  · intro j k hj hjk
    rcases Nat.eq_or_lt_of_le hjk with rfl | hlt
    · exact hj
    · have hlt' := listedOffset_lt hi hd (Nat.add_lt_add_right hlt (listedBefore start days))
      unfold weekSlot? listedDate? at hj ⊢
      rw [Option.map_eq_none_iff, addDays?_eq_none_iff] at hj ⊢
      unfold listedOffset at hlt'
      omega

/-! Months and years -/

theorem civilSlot?_held {start m : Moment} {c : Civil} (h : civilSlot? start c = some (.held m)) :
    ∃ d, m = start.onDate d ∧ c.Valid ∧ d.number = c.dayNumber := by
  unfold civilSlot? at h
  split at h
  · simp at h
  · split at h
    · rename_i d hd
      rw [Option.some.injEq, Slot.held.injEq] at h
      exact ⟨d, h.symm, Date.ofCivil?_eq_some hd⟩
    · simp at h

theorem civilSlot?_eq_none_iff {start : Moment} {c : Civil} :
    civilSlot? start c = none ↔ lastYear < c.year := by
  unfold civilSlot?
  split
  · simp [*]
  · split <;> simp [*]

/-- A slot in the `k`th month after the `base`th, counting by `step`. -/
def InMonth (base step k : Nat) (d : Date) : Prop :=
  ∃ c : Civil, c.Valid ∧ c.monthIndex = base + k * step ∧ d.number = c.dayNumber

theorem InMonth.number_lt {base step : Nat} (hstep : 0 < step) {j k : Nat} {d e : Date}
    (hd : InMonth base step j d) (he : InMonth base step k e) (h : j < k) :
    d.number < e.number := by
  obtain ⟨c, hc, hcm, hcd⟩ := hd
  obtain ⟨c', hc', hcm', hcd'⟩ := he
  rw [hcd, hcd']
  apply Civil.dayNumber_lt_of_monthIndex_lt hc hc'
  have hmul := Nat.mul_lt_mul_of_pos_right h hstep
  omega

theorem monthSlot?_ascending (start : Moment) {interval : Nat} (hi : 0 < interval) (day : Nat) :
    Ascending (monthSlot? start interval day) start := by
  apply ascending_of_dates (InMonth start.date.civil.monthIndex interval)
  · intro k m h
    unfold monthSlot? at h
    by_cases hk : k = 0
    · rw [if_pos hk, Option.some.injEq, Slot.held.injEq] at h
      refine ⟨start.date, by rw [Moment.onDate_date, h], start.date.civil, start.date.civil_valid,
        by rw [hk, Nat.zero_mul, Nat.add_zero], start.date.civil_dayNumber.symm⟩
    · rw [if_neg hk] at h
      obtain ⟨d, hm, hc, hd⟩ := civilSlot?_held h
      refine ⟨d, hm, _, hc, ?_, hd⟩
      simp only [Civil.monthIndex, Nat.add_sub_cancel]
      omega
  · intro j k d e hj hk hjk
    exact hj.number_lt hi hk hjk
  · intro j k hj hjk
    unfold monthSlot? at hj ⊢
    by_cases hk : j = 0
    · simp [hk] at hj
    · rw [if_neg hk, civilSlot?_eq_none_iff] at hj
      rw [if_neg (by omega), civilSlot?_eq_none_iff]
      have hmul : j * interval ≤ k * interval := Nat.mul_le_mul_right interval hjk
      simp only at hj ⊢
      omega

theorem yearSlot?_ascending (start : Moment) {interval : Nat} (hi : 0 < interval) :
    Ascending (yearSlot? start interval) start := by
  apply ascending_of_dates (InMonth start.date.civil.monthIndex (interval * 12))
  · intro k m h
    obtain ⟨d, hm, hc, hd⟩ := civilSlot?_held h
    refine ⟨d, hm, _, hc, ?_, hd⟩
    simp only [Civil.monthIndex, Nat.add_mul, Nat.mul_assoc]
    omega
  · intro j k d e hj hk hjk
    exact hj.number_lt (by omega) hk hjk
  · intro j k hj hjk
    unfold yearSlot? at hj ⊢
    rw [civilSlot?_eq_none_iff] at hj ⊢
    have hmul : j * interval ≤ k * interval := Nat.mul_le_mul_right interval hjk
    simp only at hj ⊢
    omega

theorem slot?_ascending (r : Rule) (start : Moment) : Ascending (slot? r start) start := by
  have hi := r.interval_pos
  unfold slot?
  split
  · exact daySlot?_ascending start hi
  · exact daySlot?_ascending start (by omega)
  · rename_i days hne _
    exact weekSlot?_ascending start hi (fun h => hne (by rw [← h]))
  · exact monthSlot?_ascending start hi _
  · exact yearSlot?_ascending start hi

end Household.Expansion
