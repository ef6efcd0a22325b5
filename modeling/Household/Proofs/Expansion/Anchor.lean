import Household.Proofs.Expansion.Months
import Household.Proofs.Expansion.Search
import Household.Proofs.Expansion.Shape

/-!
# Anchors

A series can be told from any of its occurrences. Counted from a slot that is
held, the slots of a rule are those that follow it: the weeks, the months and
the years keep their step and the day that is aimed at stays. An expansion that
starts over at an occurrence therefore gives the rest of the first one.
-/

set_option autoImplicit false

namespace Household.Expansion

open Household.Calendar Household.Recurrence

/-! Days -/

theorem daySlot?_anchor {start m : Moment} {step j : Nat}
    (h : daySlot? start step j = some (.held m)) (k : Nat) :
    daySlot? m step k = daySlot? start step (j + k) := by
  by_cases hk : k = 0
  · rw [hk, Nat.add_zero, h]
    rfl
  · by_cases hj : j = 0
    · obtain rfl : start = m := by simpa [daySlot?, hj] using h
      rw [hj, Nat.zero_add]
    · have hadd : start.add? ((j * step : Nat) * microsPerDay) = some m := by
        simpa [daySlot?, hj] using h
      have hdays : ((j * step : Nat) * microsPerDay + (k * step : Nat) * microsPerDay : Int) =
          ((j + k) * step : Nat) * microsPerDay := by
        rw [← Int.add_mul, ← Int.natCast_add, ← Nat.add_mul]
      rw [daySlot?, daySlot?, if_neg hk, if_neg (by omega), Moment.add?_of_add? hadd, hdays]

/-! Weeks -/

section

variable {start : Moment} {interval : Nat} {days : List Weekday}

theorem listedOffset_add (hd : days ≠ []) (n j : Nat) :
    listedOffset interval days (n * (listedDays days).length + j) =
      7 * interval * n + listedOffset interval days j := by
  obtain ⟨w, i, hi, rfl⟩ := exists_week hd j
  rw [← Nat.add_assoc, ← Nat.add_mul, listedOffset_week hi, listedOffset_week hi, Nat.mul_add,
    Nat.add_assoc]

theorem listedBefore_eq {i : Nat} (hi : i < (listedDays days).length)
    (hweekday : start.date.weekday = (listedDays days)[i]) : listedBefore start days = i := by
  have hsorted := List.pairwise_iff_getElem.mp (listedDays_sorted days)
  rcases Nat.lt_trichotomy (listedBefore start days) i with hlt | heq | hgt
  · have hle := weekday_le_listed (Nat.lt_trans hlt hi)
    have hrising := hsorted _ _ (Nat.lt_trans hlt hi) hi hlt
    omega
  · exact heq
  · obtain ⟨_, hearly⟩ := listed_lt_weekday hgt
    omega

theorem weekDate?_anchor (hd : days ≠ []) {j : Nat} {d : Date}
    (h : weekDate? start interval days j = some d) (k : Nat) :
    weekDate? (start.onDate d) interval days k = weekDate? start interval days (j + k) := by
  obtain ⟨n, i, hi, hj, hmonday, hweekday⟩ := exists_place hd h
  have hbefore : listedBefore (start.onDate d) days = i :=
    listedBefore_eq hi (by rw [Moment.date_onDate, hweekday])
  have hnext : j + k + listedBefore start days = n * (listedDays days).length + (k + i) := by omega
  show Date.addDays? _ (listedOffset interval days _) =
    Date.addDays? _ (listedOffset interval days _)
  rw [Moment.date_onDate, hbefore, hnext, listedOffset_add hd]
  unfold Date.addDays?
  simp only [hmonday, Nat.add_assoc]

end

/-! Months and years -/

theorem civilSlot?_onDate (start : Moment) (d : Date) (c : Civil) :
    civilSlot? (start.onDate d) c = civilSlot? start c := by
  unfold civilSlot?
  simp only [Moment.onDate_onDate]

section

variable {r : Rule} {start m : Moment} {j : Nat}

theorem monthSlot?_anchor {day : Fin 32} (hr : r.pattern = .monthly day)
    (h : slot? r start j = some (.held m)) (k : Nat) : slot? r m k = slot? r start (j + k) := by
  by_cases hk : k = 0
  · rw [hk, Nat.add_zero, h, slot?_monthly_zero hr]
  · by_cases hj : j = 0
    · rw [hj, slot?_monthly_zero hr, Option.some.injEq, Slot.held.injEq] at h
      rw [hj, Nat.zero_add, h]
    · rw [slot?_monthly hr start (Nat.pos_of_ne_zero hj)] at h
      obtain ⟨d, rfl, -⟩ := civilSlot?_held h
      have hcivil := (civilSlot?_held_iff.mp h).1
      have htarget : targetDay (start.onDate d) day = targetDay start day := by
        rw [targetDay, hcivil]
        unfold targetDay
        split <;> rfl
      have hindex : (start.onDate d).month.index = start.month.index + j * r.interval := by
        rw [Moment.month, hcivil]
        exact Month.index_ofIndex _
      rw [slot?_monthly hr _ (Nat.pos_of_ne_zero hk), slot?_monthly hr start (by omega),
        civilSlot?_onDate, htarget, hindex, Nat.add_mul, Nat.add_assoc]

theorem yearSlot?_anchor (hr : r.pattern = .yearly) (h : slot? r start j = some (.held m))
    (k : Nat) : slot? r m k = slot? r start (j + k) := by
  rw [slot?_yearly hr] at h
  obtain ⟨d, rfl, -⟩ := civilSlot?_held h
  have hcivil := (civilSlot?_held_iff.mp h).1
  rw [slot?_yearly hr, slot?_yearly hr, civilSlot?_onDate, hcivil, Nat.add_mul, Nat.add_assoc]

/-- The slots from a held one on are the slots of the rule with its moment as the start. -/
theorem slot?_anchor (h : slot? r start j = some (.held m)) (k : Nat) :
    slot? r m k = slot? r start (j + k) := by
  cases hp : r.pattern with
  | daily =>
    simp only [slot?, hp] at h ⊢
    exact daySlot?_anchor h k
  | weekly days =>
    cases days with
    | nil =>
      simp only [slot?, hp] at h ⊢
      exact daySlot?_anchor h k
    | cons w ws =>
      rw [slot?_weekly hp (by simp)] at h
      obtain ⟨d, hd, hm⟩ := Option.map_eq_some_iff.mp h
      rw [Slot.held.injEq] at hm
      subst hm
      rw [slot?_weekly hp (by simp), slot?_weekly hp (by simp), weekDate?_anchor (by simp) hd]
      simp only [Moment.onDate_onDate]
  | monthly day => exact monthSlot?_anchor hp h k
  | yearly => exact yearSlot?_anchor hp h k

end

/-! Walks -/

namespace Query

variable {q : Query}

/-- The walk goes no further than slot number `k`: either there is no such slot,
or it is one at which the walk leaves. -/
def Stops (q : Query) (k : Nat) : Prop :=
  slot? q.rule q.start k = none ∨ ∃ m, slot? q.rule q.start k = some (.held m) ∧
    q.visit (heldBefore q.rule q.start k) m = .ok .leave

section

variable (hcount : q.rule.count = 0)
include hcount

theorem visit_uncounted (e e' : Nat) (m : Moment) : q.visit e m = q.visit e' m := by
  simp [visit, hcount]

theorem walk_of_stops {n : Nat} (hn : q.Stops n) {fuel fuel' k : Nat} (hk : k ≤ n)
    (h : n < k + fuel) (h' : n < k + fuel') (e e' : Nat) :
    q.walk fuel k e = q.walk fuel' k e' := by
  induction fuel generalizing k fuel' e e' with
  | zero => omega
  | succ fuel ih =>
    obtain ⟨fuel', rfl⟩ : ∃ f, fuel' = f + 1 := ⟨fuel' - 1, by omega⟩
    rcases Nat.eq_or_lt_of_le hk with rfl | hlt
    · rcases hn with hnone | ⟨m, hm, hleave⟩
      · simp only [walk, hnone]
      · simp only [walk, hm, visit_uncounted hcount _ (heldBefore q.rule q.start k), hleave]
        rfl
    · have hrest := @ih fuel' (k + 1) hlt (by omega) (by omega)
      unfold walk
      cases slot? q.rule q.start k with
      | none => rfl
      | some s =>
        cases s with
        | skipped => exact hrest e e'
        | held m =>
          simp only [visit_uncounted hcount e e', hrest (e + 1) (e' + 1)]

theorem walk_anchor {m : Moment} {j : Nat} (h : slot? q.rule q.start j = some (.held m))
    (fuel k e e' : Nat) :
    ({ q with start := m } : Query).walk fuel k e = q.walk fuel (j + k) e' := by
  have hfloating := Moment.isFloating_of_zone ((slot?_ascending q.rule q.start).zone h)
  have hvisit (e e' : Nat) (n : Moment) :
      ({ q with start := m } : Query).visit e n = q.visit e' n := by
    simp [visit, pastEnding, ending?, hcount, hfloating]
  induction fuel generalizing k e e' with
  | zero => rfl
  | succ fuel ih =>
    have hrest := ih (k + 1)
    unfold walk
    simp only [slot?_anchor h k, hvisit e e']
    cases slot? q.rule q.start (j + k) with
    | none => rfl
    | some s =>
      cases s with
      | skipped => exact hrest e e'
      | held n => simp only [hrest (e + 1) (e' + 1), Nat.add_assoc]

end

/-- What a walk gives from one of its occurrences on, it gives from the slot of that. -/
theorem walk_from {fuel k e : Nat} {before after : List Occurrence} {o : Occurrence}
    (h : q.walk fuel k e = .ok (before ++ o :: after)) : ∃ j rest e', rest + j = fuel + k ∧
      q.Shows j o ∧ q.walk rest j e' = .ok (o :: after) := by
  induction fuel generalizing k e before with
  | zero => simp [walk] at h
  | succ fuel ih =>
    rcases walk_cases h with hnil | ⟨-, hrest⟩ | ⟨_, _, -, -, -, hrest⟩ | ⟨a, os, hos, ha, hrest⟩
    · simp at hnil
    · obtain ⟨j, rest, e', hj, hwalk⟩ := ih hrest
      exact ⟨j, rest, e', by omega, hwalk⟩
    · obtain ⟨j, rest, e', hj, hwalk⟩ := ih hrest
      exact ⟨j, rest, e', by omega, hwalk⟩
    · cases before with
      | nil =>
        obtain ⟨rfl, -⟩ := List.cons.inj hos
        exact ⟨k, fuel + 1, e, rfl, ha, h⟩
      | cons b before =>
        obtain ⟨-, rfl⟩ := List.cons.inj hos
        obtain ⟨j, rest, e', hj, hwalk⟩ := ih hrest
        exact ⟨j, rest, e', by omega, hwalk⟩

theorem occurrences_from (hcount : q.rule.count = 0) {n : Nat} (hn : n < slotLimit)
    (hstop : q.Stops n) {before after : List Occurrence} {o : Occurrence}
    (h : q.occurrences = .ok (before ++ o :: after)) :
    ∃ j, q.Shows j o ∧ ({ q with start := o.start } : Query).occurrences = .ok (o :: after) := by
  have hshort : q.walk (n + 1) 0 0 = .ok (before ++ o :: after) := by
    rw [← h]
    exact walk_of_stops hcount hstop (Nat.zero_le n) (by omega) (by omega) 0 0
  obtain ⟨j, rest, e, hj, hshows, hwalk⟩ := walk_from hshort
  have hrest : rest ≠ 0 := by
    rintro rfl
    simp [walk] at hwalk
  refine ⟨j, hshows, ?_⟩
  calc ({ q with start := o.start } : Query).walk slotLimit 0 0
      = q.walk slotLimit j 0 := walk_anchor hcount hshows.held slotLimit 0 0 0
    _ = q.walk rest j e := walk_of_stops hcount hstop (by omega) (by omega) (by omega) 0 e
    _ = .ok (o :: after) := hwalk

end Query

/-- An expansion without a count that stops by itself gives the same occurrences
from each of them on when it starts over there, and the slots of its rule are the
same from there on. -/
theorem expand_from_occurrence {r : Rule} {start finish first last : Moment} {duration : Int}
    (hcount : r.count = 0) (hduration : finish.sub start = .ok duration)
    (hstop : ∃ n < slotLimit, Query.Stops ⟨r, start, duration, first, last⟩ n)
    {before after : List Occurrence} {o : Occurrence}
    (h : expand r start finish first last = .ok (before ++ o :: after)) :
    expand r o.start o.finish first last = .ok (o :: after) ∧
      ∃ j, slot? r start j = some (.held o.start) ∧
        ∀ k, slot? r o.start k = slot? r start (j + k) := by
  rw [expand_of_sub hduration] at h
  obtain ⟨n, hn, hstop⟩ := hstop
  obtain ⟨j, hshows, hoccurrences⟩ := Query.occurrences_from hcount hn hstop h
  refine ⟨?_, j, hshows.held, slot?_anchor hshows.held⟩
  rw [expand_of_sub (Moment.sub_of_add? hshows.finish)]
  exact hoccurrences

/-- Every other week on Wednesday and Monday from Wednesday 4 March 2026 on, told
again from the Monday twelve days later. -/
theorem fortnight_from_monday :
    let r : Rule := ⟨.weekly [.wednesday, .monday], 2, by decide, .unbounded⟩
    let start : Moment := ⟨⟨63908211600000000, by decide, by decide⟩, .utc, false⟩
    let finish : Moment := ⟨⟨63908215200000000, by decide, by decide⟩, .utc, false⟩
    let first : Moment := ⟨⟨63908179200000000, by decide, by decide⟩, .utc, false⟩
    let last : Moment := ⟨⟨63910512000000000, by decide, by decide⟩, .utc, false⟩
    let monday : Occurrence := ⟨⟨⟨63909248400000000, by decide, by decide⟩, .utc, false⟩,
      ⟨⟨63909252000000000, by decide, by decide⟩, .utc, false⟩⟩
    let wednesday : Occurrence := ⟨⟨⟨63909421200000000, by decide, by decide⟩, .utc, false⟩,
      ⟨⟨63909424800000000, by decide, by decide⟩, .utc, false⟩⟩
    let second : Occurrence := ⟨⟨⟨63910458000000000, by decide, by decide⟩, .utc, false⟩,
      ⟨⟨63910461600000000, by decide, by decide⟩, .utc, false⟩⟩
    r.count = 0 ∧ finish.sub start = .ok microsPerHour ∧
      (∃ n < slotLimit, Query.Stops ⟨r, start, microsPerHour, first, last⟩ n) ∧
      expand r start finish first last =
        .ok ([⟨start, finish⟩] ++ monday :: [wednesday, second]) ∧
      expand r monday.start monday.finish first last = .ok [monday, wednesday, second] ∧
      ∃ j, slot? r start j = some (.held monday.start) ∧
        ∀ k, slot? r monday.start k = slot? r start (j + k) := by
  dsimp only
  suffices h : (∃ n < slotLimit, Query.Stops _ n) ∧ expand _ _ _ _ _ = .ok ([_] ++ _ :: _) from
    ⟨rfl, rfl, h.1, h.2, expand_from_occurrence rfl rfl h.1 h.2⟩
  exact ⟨⟨4, by decide, .inr ⟨⟨⟨63910630800000000, by decide, by decide⟩, .utc, false⟩, rfl, rfl⟩⟩,
    rfl⟩

end Household.Expansion
