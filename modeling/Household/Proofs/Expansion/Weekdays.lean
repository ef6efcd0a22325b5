import Household.Proofs.Expansion.Sequence

/-!
# Listed weekdays

The listed dates of a weekly rule, in their order, are exactly those dates from
the start on whose weekday is listed and whose week lies a multiple of the
interval after the week of the start. They do not depend on the order in which
the weekdays are listed, or on how often.
-/

set_option autoImplicit false

namespace Household.Expansion

open Household.Calendar Household.Recurrence

structure Listed (start : Moment) (interval : Nat) (days : List Weekday) (d : Date) : Prop where
  fromStart : start.date.number ≤ d.number
  weekday : ∃ w ∈ days, w.index = d.weekday
  week : ∃ n, d.monday.number = start.date.monday.number + n * (7 * interval)

structure Enumerates (dates : Nat → Option Date) (P : Date → Prop) : Prop where
  ascending : ∀ {j k d e}, dates j = some d → dates k = some e → j < k → d.number < e.number
  ended : ∀ {j k}, dates j = none → j ≤ k → dates k = none
  complete : ∀ d, P d ↔ ∃ k, dates k = some d

def weekDate? (start : Moment) (interval : Nat) (days : List Weekday) (k : Nat) : Option Date :=
  listedDate? start interval days (k + listedBefore start days)

/-! Dates -/

theorem mem_listedDays {days : List Weekday} {i : Nat} :
    i ∈ listedDays days ↔ ∃ w ∈ days, w.index = i := by
  simp only [listedDays, List.mem_filter, List.mem_range, List.any_eq_true, beq_iff_eq]
  constructor
  · exact fun h => h.2
  · rintro ⟨w, hw, rfl⟩
    exact ⟨w.index_lt, w, hw, rfl⟩

theorem listedDays_congr {days days' : List Weekday} (h : ∀ w, w ∈ days' ↔ w ∈ days) :
    listedDays days' = listedDays days := by
  apply List.filter_congr
  intro i _
  rw [Bool.eq_iff_iff, List.any_eq_true, List.any_eq_true]
  simp only [h]

variable {start : Moment} {interval : Nat} {days : List Weekday}

theorem listedOffset_week {n i : Nat} (hi : i < (listedDays days).length) :
    listedOffset interval days (n * (listedDays days).length + i) =
      7 * interval * n + (listedDays days)[i] := by
  have hpos := Nat.lt_of_le_of_lt (Nat.zero_le i) hi
  have hdiv : (n * (listedDays days).length + i) / (listedDays days).length = n := by
    rw [Nat.mul_comm, Nat.mul_add_div hpos, Nat.div_eq_of_lt hi, Nat.add_zero]
  have hmod : (n * (listedDays days).length + i) % (listedDays days).length = i := by
    rw [Nat.mul_comm, Nat.mul_add_mod, Nat.mod_eq_of_lt hi]
  unfold listedOffset
  rw [hdiv, hmod, List.getElem?_eq_getElem hi, Option.getD_some]

theorem exists_week (hd : days ≠ []) (j : Nat) :
    ∃ n i, i < (listedDays days).length ∧ j = n * (listedDays days).length + i := by
  refine ⟨j / (listedDays days).length, _, Nat.mod_lt j (listedDays_pos hd), ?_⟩
  rw [Nat.mul_comm]
  exact (Nat.div_add_mod _ _).symm

theorem listedDate?_eq_some_iff {j : Nat} {d : Date} :
    listedDate? start interval days j = some d ↔
      d.number = start.date.monday.number + listedOffset interval days j := by
  constructor
  · exact fun h => addDays?_eq_some h
  · intro h
    have hlt := d.lt_dayCount
    rw [h] at hlt
    show Date.addDays? _ (listedOffset interval days j) = _
    rw [Date.addDays?, dif_pos hlt, Option.some.injEq]
    exact Date.ext h.symm

theorem listedDate?_eq_none_iff {j : Nat} :
    listedDate? start interval days j = none ↔
      dayCount ≤ start.date.monday.number + listedOffset interval days j :=
  addDays?_eq_none_iff

theorem listedDate?_ended (hi : 0 < interval) (hd : days ≠ []) {j k : Nat}
    (h : listedDate? start interval days j = none) (hjk : j ≤ k) :
    listedDate? start interval days k = none := by
  rcases Nat.eq_or_lt_of_le hjk with rfl | hlt
  · exact h
  · have hoffset := listedOffset_lt hi hd hlt
    rw [listedDate?_eq_none_iff] at h ⊢
    omega

theorem listed_lt_weekday {i : Nat} (hi : i < listedBefore start days) :
    ∃ h : i < (listedDays days).length, (listedDays days)[i] < start.date.weekday := by
  have hlength := Nat.lt_of_lt_of_le hi (listedBefore_le_length start days)
  refine ⟨hlength, ?_⟩
  apply Nat.lt_of_not_le
  intro hle
  have hrest :
      ((listedDays days).drop i).filter (fun o => decide (o < start.date.weekday)) = [] := by
    rw [List.filter_eq_nil_iff]
    intro o ho
    obtain ⟨k, hk, rfl⟩ := List.mem_drop_iff_getElem.mp ho
    have hsorted := List.pairwise_iff_getElem.mp (listedDays_sorted days)
    rcases Nat.eq_zero_or_pos k with rfl | hpos
    · simpa using hle
    · have hlt := hsorted i (i + k) hlength (by omega) (Nat.lt_add_of_pos_right hpos)
      simp only [decide_eq_true_eq]
      omega
  have hsplit := List.filter_append (p := fun o => decide (o < start.date.weekday))
    ((listedDays days).take i) ((listedDays days).drop i)
  rw [List.take_append_drop, hrest, List.append_nil] at hsplit
  unfold listedBefore at hi
  rw [hsplit] at hi
  have hcount := List.length_filter_le (fun o => decide (o < start.date.weekday))
    ((listedDays days).take i)
  have htake := List.length_take_le i (listedDays days)
  omega

theorem monday_add_weekday (d : Date) : d.monday.number + d.weekday = d.number :=
  Nat.sub_add_cancel (Nat.mod_le _ _)

theorem listedDate?_lt_start (hi : 0 < interval) (hd : days ≠ []) {j : Nat} {d : Date}
    (h : listedDate? start interval days j = some d) :
    d.number < start.date.number ↔ j < listedBefore start days := by
  constructor
  · intro hlt
    apply Nat.lt_of_not_le
    intro hle
    rw [← Nat.sub_add_cancel hle] at h
    exact absurd (start_le_listedDate hi hd h) (Nat.not_le.mpr hlt)
  · intro hj
    obtain ⟨hlength, hlt⟩ := listed_lt_weekday hj
    have hoffset : listedOffset interval days (0 * (listedDays days).length + j) =
        7 * interval * 0 + (listedDays days)[j] := listedOffset_week hlength
    rw [Nat.zero_mul, Nat.zero_add, Nat.mul_zero, Nat.zero_add] at hoffset
    have hmonday := monday_add_weekday start.date
    rw [listedDate?_eq_some_iff] at h
    omega

theorem monday_eq {d : Date} {n o : Nat} (hn : n % 7 = 0) (ho : o < 7) (h : d.number = n + o) :
    d.monday.number = n ∧ d.weekday = o := by
  have hmonday := monday_add_weekday d
  unfold Date.weekday at *
  omega

theorem exists_place (hd : days ≠ []) {j : Nat} {d : Date}
    (h : listedDate? start interval days j = some d) :
    ∃ n i, ∃ hi : i < (listedDays days).length, j = n * (listedDays days).length + i ∧
      d.monday.number = start.date.monday.number + 7 * interval * n ∧
        d.weekday = (listedDays days)[i] := by
  obtain ⟨n, i, hlength, rfl⟩ := exists_week hd j
  have hnumber := listedDate?_eq_some_iff.mp h
  rw [listedOffset_week hlength, ← Nat.add_assoc] at hnumber
  have hfirst : (start.date.monday.number + 7 * interval * n) % 7 = 0 := by
    have hmonday := monday_add_weekday start.date
    unfold Date.weekday at hmonday
    rw [Nat.mul_assoc]
    omega
  have hmem := List.getElem_mem hlength
  exact ⟨n, i, hlength, rfl, monday_eq hfirst (listedDays_lt hmem) hnumber⟩

theorem listed_of_weekDate? (hi : 0 < interval) (hd : days ≠ []) {k : Nat} {d : Date}
    (h : weekDate? start interval days k = some d) : Listed start interval days d := by
  obtain ⟨n, i, hlength, -, hmonday, hweekday⟩ := exists_place hd h
  constructor
  · exact start_le_listedDate hi hd h
  · rw [hweekday]
    exact mem_listedDays.mp (List.getElem_mem hlength)
  · exact ⟨n, by rw [hmonday, Nat.mul_comm n]⟩

theorem exists_weekDate? (hi : 0 < interval) (hd : days ≠ []) {d : Date}
    (h : Listed start interval days d) : ∃ k, weekDate? start interval days k = some d := by
  obtain ⟨n, hmonday⟩ := h.week
  obtain ⟨i, hlength, hindex⟩ := List.getElem_of_mem (mem_listedDays.mpr h.weekday)
  have hdate : listedDate? start interval days (n * (listedDays days).length + i) = some d := by
    have hnumber := monday_add_weekday d
    rw [listedDate?_eq_some_iff, listedOffset_week hlength, hindex, Nat.mul_comm (7 * interval)]
    omega
  have hle : listedBefore start days ≤ n * (listedDays days).length + i := by
    apply Nat.le_of_not_lt
    intro hlt
    have hbefore := (listedDate?_lt_start hi hd hdate).mpr hlt
    exact absurd h.fromStart (Nat.not_le.mpr hbefore)
  refine ⟨n * (listedDays days).length + i - listedBefore start days, ?_⟩
  rw [weekDate?, Nat.sub_add_cancel hle]
  exact hdate

theorem weekDate?_enumerates (start : Moment) (hi : 0 < interval) (hd : days ≠ []) :
    Enumerates (weekDate? start interval days) (Listed start interval days) where
  ascending hj hk hjk := by
    have hoffset := listedOffset_lt hi hd (Nat.add_lt_add_right hjk (listedBefore start days))
    have hdj := listedDate?_eq_some_iff.mp hj
    have hdk := listedDate?_eq_some_iff.mp hk
    omega
  ended hj hjk := listedDate?_ended hi hd hj (Nat.add_le_add_right hjk _)
  complete d := ⟨exists_weekDate? hi hd, fun ⟨_, hk⟩ => listed_of_weekDate? hi hd hk⟩

end Household.Expansion
