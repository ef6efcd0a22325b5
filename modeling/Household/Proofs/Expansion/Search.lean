import Household.Proofs.Expansion.Weekdays

/-!
# The search for listed weekdays

The listed dates can be found by going through the listed days of one week
after the other, from the Monday of the start's week on. The days of that week
before the start are passed over, so that each search ends within seven looks,
with the next slot of the rule or with the end of the calendar.
-/

set_option autoImplicit false

namespace Household.Expansion

open Household.Calendar Household.Recurrence

variable {start : Moment} {interval : Nat} {days : List Weekday}

theorem moments_of_ended {dates : Nat → Option Date}
    (hended : ∀ {j k}, dates j = none → j ≤ k → dates k = none) {k : Nat} (hk : dates k = none)
    (n : Nat) (start : Moment) :
    (List.range' (k + 1) n).filterMap (fun i => (dates i).map start.onDate) = [] := by
  apply List.filterMap_eq_nil_iff.mpr
  intro i hi
  rw [eq_none_of_ended hended hk n i hi]
  rfl

/-- A Monday, and the listed days of its week that are still to be looked at. -/
structure Place where
  monday : Date
  rest : List Nat

inductive Look where
  | ended
  | early (p : Place)
  | found (m : Moment) (p : Place)

namespace Place

section

variable (start : Moment) (interval : Nat) (days : List Weekday)

def first : Place := ⟨start.date.monday, listedDays days⟩

/-- The same place, or the next week if there is nothing left of this one. -/
def refill? (p : Place) : Option Place :=
  if p.rest = [] then (p.monday.addDays? (7 * interval)).map (fun d => ⟨d, listedDays days⟩)
  else some p

def look (p : Place) : Look :=
  match p.refill? interval days with
  | some ⟨monday, offset::rest⟩ =>
    match monday.addDays? offset with
    | none => .ended
    | some d =>
      match (start.onDate d).before start with
      | .ok true => .early ⟨monday, rest⟩
      | _ => .found (start.onDate d) ⟨monday, rest⟩
  | _ => .ended

/-- The next moment and the place after it, if there is one; `none` if it is
not found within so many looks. -/
def next? : Nat → Place → Option (Option (Moment × Place))
  | 0, _ => none
  | looks + 1, p =>
    match p.look start interval days with
    | .ended => some none
    | .early q => next? looks q
    | .found m q => some (some (m, q))

def take? (looks : Nat) : Nat → Place → Option (List Moment)
  | 0, _ => some []
  | n + 1, p =>
    match p.next? start interval days looks with
    | none => none
    | some none => some []
    | some (some (m, q)) => (take? looks n q).map (m :: ·)

/-- The `j`th listed date is the next one to be looked at. -/
def At (j : Nat) (p : Place) : Prop :=
  ∃ n i, j = n * (listedDays days).length + i ∧ i ≤ (listedDays days).length ∧
    p.monday.number = start.date.monday.number + 7 * interval * n ∧
    p.rest = (listedDays days).drop i

theorem first_at : (first start days).At start interval days 0 :=
  ⟨0, 0, by simp, Nat.zero_le _, by simp [first], rfl⟩

end

variable {j : Nat} {p : Place}

theorem At.rest (h : p.At start interval days j) (hne : p.rest ≠ []) :
    ∃ offset rest, p.rest = offset :: rest ∧
      listedDate? start interval days j = p.monday.addDays? offset ∧
        At start interval days (j + 1) ⟨p.monday, rest⟩ := by
  obtain ⟨n, i, rfl, hi, hmonday, hrest⟩ := h
  have hlt : i < (listedDays days).length := by
    apply Nat.lt_of_le_of_ne hi
    rintro rfl
    rw [List.drop_length] at hrest
    exact hne hrest
  rw [List.drop_eq_getElem_cons hlt] at hrest
  refine ⟨_, _, hrest, ?_, n, i + 1, by rw [Nat.add_assoc], hlt, hmonday, rfl⟩
  show Date.addDays? _ (listedOffset interval days _) = _
  rw [listedOffset_week hlt]
  unfold Date.addDays?
  simp only [hmonday, Nat.add_assoc]

theorem At.refill (hd : days ≠ []) (h : p.At start interval days j) :
    p.refill? interval days = none ∧ listedDate? start interval days j = none ∨
      ∃ q, p.refill? interval days = some q ∧ q.rest ≠ [] ∧ q.At start interval days j := by
  by_cases hempty : p.rest = []
  · -- the end of one week is the beginning of the next
    obtain ⟨n, i, rfl, hi, hmonday, hrest⟩ := h
    have hpos := listedDays_pos hd
    have hlast : i = (listedDays days).length := by
      rw [hempty] at hrest
      exact Nat.le_antisymm hi (List.drop_eq_nil_iff.mp hrest.symm)
    have hnext : n * (listedDays days).length + i = (n + 1) * (listedDays days).length + 0 := by
      rw [hlast, Nat.add_mul, Nat.one_mul, Nat.add_zero]
    have hmul : 7 * interval * (n + 1) = 7 * interval * n + 7 * interval := Nat.mul_succ _ _
    rw [refill?, if_pos hempty, hnext]
    cases hadd : p.monday.addDays? (7 * interval) with
    | none =>
      refine .inl ⟨rfl, ?_⟩
      rw [listedDate?_eq_none_iff, listedOffset_week hpos, hmul]
      have hlimit := addDays?_eq_none_iff.mp hadd
      omega
    | some d =>
      have hnumber := addDays?_eq_some hadd
      refine .inr ⟨⟨d, listedDays days⟩, rfl, List.ne_nil_of_length_pos hpos, n + 1, 0, rfl,
        Nat.zero_le _, ?_, rfl⟩
      rw [hmul, hnumber, hmonday, Nat.add_assoc]
  · exact .inr ⟨p, if_neg hempty, hempty, h⟩

theorem before_start (d : Date) :
    (start.onDate d).before start = .ok (decide (d.number < start.date.number)) := by
  have hzone : (start.onDate d).zone = start.zone := rfl
  rw [Moment.before_eq (Moment.isFloating_of_zone hzone), Except.ok.injEq, decide_eq_decide,
    Moment.precedes_iff_of_zone hzone]
  constructor
  · intro hlt
    apply Nat.lt_of_not_le
    intro hle
    exact absurd (start_le_onDate hle) (Int.not_le.mpr hlt)
  · intro hlt
    have hday := (start.dayAfter_onDate hlt).wall
    rw [Moment.onDate_date] at hday
    simp only [microsPerDay] at hday
    omega

theorem At.look (hd : days ≠ []) (h : p.At start interval days j) :
    p.look start interval days = .ended ∧ listedDate? start interval days j = none ∨
      ∃ d q, listedDate? start interval days j = some d ∧ q.At start interval days (j + 1) ∧
        p.look start interval days = if d.number < start.date.number then .early q
          else .found (start.onDate d) q := by
  rcases h.refill hd with ⟨hnone, hended⟩ | ⟨⟨monday, rest⟩, hq, hne, hat⟩
  · exact .inl ⟨by simp only [Place.look, hnone], hended⟩
  · obtain ⟨offset, rest, rfl, hdate, hnext⟩ := hat.rest hne
    rw [hdate]
    cases hadd : monday.addDays? offset with
    | none => exact .inl ⟨by simp only [Place.look, hq, hadd], rfl⟩
    | some d =>
      refine .inr ⟨d, ⟨monday, rest⟩, rfl, hnext, ?_⟩
      simp only [Place.look, hq, hadd, before_start]
      by_cases hlt : d.number < start.date.number
      · simp [hlt]
      · simp [hlt]

def Finds (start : Moment) (interval : Nat) (days : List Weekday) (j : Nat)
    (r : Option (Option (Moment × Place))) : Prop :=
  r = some none ∧ listedDate? start interval days j = none ∨
    ∃ d q, r = some (some (start.onDate d, q)) ∧ listedDate? start interval days j = some d ∧
      q.At start interval days (j + 1)

theorem At.next_late (hi : 0 < interval) (hd : days ≠ []) (hj : listedBefore start days ≤ j)
    (h : p.At start interval days j) (looks : Nat) :
    Finds start interval days j (p.next? start interval days (looks + 1)) := by
  rcases h.look hd with ⟨hlook, hnone⟩ | ⟨d, q, hdate, hq, hlook⟩
  · exact .inl ⟨by simp only [next?, hlook], hnone⟩
  · have hlate : ¬d.number < start.date.number :=
      fun hlt => Nat.not_lt.mpr hj ((listedDate?_lt_start hi hd hdate).mp hlt)
    rw [if_neg hlate] at hlook
    exact .inr ⟨d, q, by simp only [next?, hlook], hdate, hq⟩

theorem At.next (hi : 0 < interval) (hd : days ≠ []) {looks : Nat}
    (hlooks : listedBefore start days ≤ j + looks) (h : p.At start interval days j) :
    Finds start interval days (max j (listedBefore start days))
      (p.next? start interval days (looks + 1)) := by
  induction looks generalizing j p with
  | zero =>
    rw [Nat.add_zero] at hlooks
    rw [Nat.max_eq_left hlooks]
    exact h.next_late hi hd hlooks 0
  | succ looks ih =>
    by_cases hj : listedBefore start days ≤ j
    · rw [Nat.max_eq_left hj]
      exact h.next_late hi hd hj (looks + 1)
    · have hmax : max j (listedBefore start days) = max (j + 1) (listedBefore start days) := by
        omega
      rw [hmax]
      rcases h.look hd with ⟨hlook, hnone⟩ | ⟨d, q, hdate, hq, hlook⟩
      · have hended : listedDate? start interval days (max (j + 1) (listedBefore start days)) =
            none := listedDate?_ended hi hd hnone (by omega)
        exact .inl ⟨by simp only [next?, hlook], hended⟩
      · have hearly := (listedDate?_lt_start hi hd hdate).mpr (Nat.not_le.mp hj)
        rw [if_pos hearly] at hlook
        rw [next?, hlook]
        exact ih (by omega) hq

theorem At.take (hi : 0 < interval) (hd : days ≠ []) {looks : Nat}
    (hlooks : listedBefore start days ≤ looks) (h : p.At start interval days j) (n : Nat) :
    p.take? start interval days (looks + 1) n =
      some ((List.range' (max j (listedBefore start days)) n).filterMap
        (fun i => (listedDate? start interval days i).map start.onDate)) := by
  induction n generalizing j p with
  | zero => rfl
  | succ n ih =>
    rw [List.range'_succ]
    have hj : listedBefore start days ≤ j + looks := by omega
    rcases h.next hi hd hj with ⟨hnext, hnone⟩ | ⟨d, q, hnext, hdate, hq⟩
    · have hrest := moments_of_ended (listedDate?_ended hi hd) hnone n start
      rw [List.filterMap_cons, hnone, Option.map_none, hrest]
      simp only [take?, hnext]
    · have hmax : max (max j (listedBefore start days) + 1) (listedBefore start days) =
          max j (listedBefore start days) + 1 := by omega
      have hrest := ih hq
      rw [hmax] at hrest
      rw [List.filterMap_cons, hdate, Option.map_some]
      simp only [take?, hnext, hrest, Option.map_some]

end Place

theorem listedBefore_le_six (start : Moment) (days : List Weekday) :
    listedBefore start days ≤ 6 := by
  have hweek : ∀ w < 7, ((List.range 7).filter (fun i => decide (i < w))).length ≤ 6 := by decide
  have hsub : ((listedDays days).filter (fun i => decide (i < start.date.weekday))).Sublist
      ((List.range 7).filter (fun i => decide (i < start.date.weekday))) :=
    List.filter_sublist.filter _
  exact Nat.le_trans hsub.length_le (hweek _ (Nat.mod_lt _ (by decide)))

/-! Expansions -/

theorem walk_congr {q q' : Query} (hslots : ∀ k, slot? q.rule q.start k = slot? q'.rule q'.start k)
    (hvisit : ∀ earlier m, q.visit earlier m = q'.visit earlier m) (fuel k earlier : Nat) :
    q.walk fuel k earlier = q'.walk fuel k earlier := by
  induction fuel generalizing k earlier with
  | zero => rfl
  | succ fuel ih =>
    unfold Query.walk
    simp only [hslots, hvisit, ih]

theorem slot?_weekly {r : Rule} (hr : r.pattern = .weekly days) (hd : days ≠ []) (start : Moment)
    (k : Nat) : slot? r start k =
      (weekDate? start r.interval days k).map (fun d => .held (start.onDate d)) := by
  cases days with
  | nil => exact absurd rfl hd
  | cons w ws =>
    simp only [slot?, hr]
    rfl

def Query.keep (q : Query) : List Moment → Nat → Except CalendarError (List Occurrence)
  | [], _ => .ok []
  | m::ms, earlier => do
    match ← q.visit earlier m with
    | .leave => return []
    | .outside => keep q ms (earlier + 1)
    | .keep o => return o :: (← keep q ms (earlier + 1))

def Slot.moment? : Slot → Option Moment
  | .held m => some m
  | .skipped => none

theorem walk_eq_keep {q : Query} (n k earlier : Nat) : q.walk n k earlier =
    q.keep ((List.range' k n).filterMap
      fun i => (slot? q.rule q.start i).bind Slot.moment?) earlier := by
  induction n generalizing k earlier with
  | zero => rfl
  | succ n ih =>
    unfold Query.walk
    rw [List.range'_succ, List.filterMap_cons]
    cases hk : slot? q.rule q.start k with
    | none =>
      have hrest : (List.range' (k + 1) n).filterMap
          (fun i => (slot? q.rule q.start i).bind Slot.moment?) = [] := by
        apply List.filterMap_eq_nil_iff.mpr
        intro i hi
        rw [eq_none_of_ended (slot?_ascending q.rule q.start).ended hk n i hi]
        rfl
      rw [hrest]
      rfl
    | some s =>
      cases s with
      | skipped => exact ih (k + 1) earlier
      | held m =>
        show (q.visit earlier m).bind _ = (q.visit earlier m).bind _
        apply congrArg
        funext v
        cases v with
        | leave => rfl
        | outside => exact ih (k + 1) (earlier + 1)
        | keep o => exact congrArg (fun os => os.bind (fun os => .ok (o :: os))) (ih _ _)

/-- What comes of a weekly rule with these weekdays: its slots are held on the
listed dates, seven looks find each of them, an expansion keeps what it wants
of those that are found, and it does not depend on how the weekdays are
listed. -/
structure Visits (start : Moment) (interval : Nat) (days : List Weekday) : Prop where
  listed : Enumerates (weekDate? start interval days) (Listed start interval days)
  slots : ∀ r : Rule, r.pattern = .weekly days → r.interval = interval → ∀ k,
    slot? r start k = (weekDate? start interval days k).map (fun d => .held (start.onDate d))
  found : ∀ n, (Place.first start days).take? start interval days 7 n =
    some ((List.range n).filterMap fun k => (weekDate? start interval days k).map start.onDate)
  expanded : ∀ r : Rule, r.pattern = .weekly days → r.interval = interval → ∃ ms,
    (Place.first start days).take? start interval days 7 slotLimit = some ms ∧
      ∀ finish first last, expand r start finish first last =
        (finish.sub start).bind fun duration => Query.keep ⟨r, start, duration, first, last⟩ ms 0
  sameSet : ∀ days', (∀ w, w ∈ days' ↔ w ∈ days) → ∀ (hi : 0 < interval) limit finish first last,
    expand ⟨.weekly days', interval, hi, limit⟩ start finish first last =
      expand ⟨.weekly days, interval, hi, limit⟩ start finish first last

theorem take?_first (start : Moment) (hi : 0 < interval) (hd : days ≠ []) (n : Nat) :
    (Place.first start days).take? start interval days 7 n =
      some ((List.range n).filterMap
        fun k => (weekDate? start interval days k).map start.onDate) := by
  have hbefore := listedBefore_le_six start days
  rw [(Place.first_at start interval days).take hi hd hbefore n, Nat.zero_max,
    List.range'_eq_map_range, List.filterMap_map]
  simp only [Function.comp_def, weekDate?, Nat.add_comm]

theorem weekdays_visited (start : Moment) (hi : 0 < interval) (hd : days ≠ []) :
    Visits start interval days where
  listed := weekDate?_enumerates start hi hd
  slots := by
    rintro r hr rfl k
    exact slot?_weekly hr hd start k
  found := take?_first start hi hd
  expanded := by
    rintro r hr rfl
    refine ⟨_, take?_first start hi hd slotLimit, fun finish first last => ?_⟩
    unfold expand
    apply congrArg (Except.bind (finish.sub start))
    funext duration
    have hmoments (k : Nat) : (slot? r start k).bind Slot.moment? =
        (weekDate? start r.interval days k).map start.onDate := by
      rw [slot?_weekly hr hd]
      cases weekDate? start r.interval days k with
      | none => rfl
      | some d => rfl
    simp only [Query.occurrences, walk_eq_keep, hmoments, List.range_eq_range']
  sameSet days' hsame hi limit finish first last := by
    have hd' : days' ≠ [] := by
      obtain ⟨w, hw⟩ := List.exists_mem_of_ne_nil days hd
      exact List.ne_nil_of_mem ((hsame w).mpr hw)
    have hdates (k : Nat) : weekDate? start interval days' k = weekDate? start interval days k := by
      simp only [weekDate?, listedDate?, listedBefore, listedDays_congr hsame]
    unfold expand
    congr
    funext duration
    apply walk_congr
    · intro k
      rw [slot?_weekly rfl hd', slot?_weekly rfl hd]
      exact congrArg _ (hdates k)
    · exact fun _ _ => rfl

/-- From a Wednesday on, every second week. -/
theorem fridays_and_mondays_visited :
    let start : Moment := ⟨⟨63908211600000000, by decide, by decide⟩, .utc, false⟩
    let days : List Weekday := [.friday, .monday, .friday]
    0 < 2 ∧ days ≠ [] ∧ start.date.weekday = Weekday.wednesday.index ∧
      (List.range 3).map (fun k => (weekDate? start 2 days k).map Date.number) =
        [some (start.date.number + 2), some (start.date.number + 12),
          some (start.date.number + 16)] ∧
      Visits start 2 days := by
  intro start days
  exact ⟨by decide, by decide, by decide, by decide, weekdays_visited start (by decide) (by decide)⟩

/-- The last day of the calendar is a Friday, in the middle of a week. -/
example :
    let start : Moment := ⟨⟨315537811200000000, by decide, by decide⟩, .utc, false⟩
    (List.range 2).map (fun k => (weekDate? start 1 [.saturday, .friday] k).map Date.number) =
      [some (dayCount - 1), none] := by decide

end Household.Expansion
