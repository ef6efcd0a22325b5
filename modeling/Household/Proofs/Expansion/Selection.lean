import Household.Expansion.Occurrence
import Household.Proofs.Expansion.Ascent

/-!
# The expansion as a selection

An expansion stops walking at the first slot that lies too late for it. Up to
the first slot past the last moment of the rule nothing is lost by that. If the
clocks of the event's zone never lie as much as a day apart, slots ascend for
every observer, and the result is what a filter selects from all slots below
the limit, the count being used up by held slots whether or not they lie in
the window.
-/

set_option autoImplicit false

namespace Household.Expansion

open Household.Calendar Household.Recurrence

def isHeld : Option Slot → Bool
  | some (.held _) => true
  | _ => false

def heldBefore (r : Rule) (start : Moment) (k : Nat) : Nat :=
  (List.range k).countP (fun j => isHeld (slot? r start j))

theorem heldBefore_succ (r : Rule) (start : Moment) (k : Nat) :
    heldBefore r start (k + 1) =
      heldBefore r start k + if isHeld (slot? r start k) then 1 else 0 := by
  simp [heldBefore, List.range_succ, List.countP_append, List.countP_singleton]

theorem heldBefore_le (r : Rule) (start : Moment) {j k : Nat} (h : j ≤ k) :
    heldBefore r start j ≤ heldBefore r start k := by
  induction h with
  | refl => exact Nat.le_refl _
  | step _ ih =>
    rw [heldBefore_succ]
    exact Nat.le_trans ih (Nat.le_add_right _ _)

def endingFrom? (r : Rule) (start : Moment) : Option Moment :=
  Query.ending? ⟨r, start, 0, start, start⟩

def isPast (r : Rule) (start : Moment) (k : Nat) : Bool :=
  match slot? r start k with
  | some (.held m) => (endingFrom? r start).any (fun e => decide (e.Precedes m))
  | _ => false

/-- How many of the slots below the limit come before the first that is past the
last moment of the rule. -/
def reach (r : Rule) (start : Moment) : Nat := (List.range slotLimit).findIdx (isPast r start)

theorem reach_le (r : Rule) (start : Moment) : reach r start ≤ slotLimit := by
  have h : reach r start ≤ (List.range slotLimit).length := List.findIdx_le_length
  rwa [List.length_range] at h

theorem isPast_of_lt_reach {r : Rule} {start : Moment} {k : Nat} (h : k < reach r start) :
    isPast r start k = false := by
  have hnot := List.not_of_lt_findIdx h
  rw [List.getElem_range] at hnot
  simpa using hnot

theorem isPast_reach {r : Rule} {start : Moment} (h : reach r start < slotLimit) :
    isPast r start (reach r start) = true := by
  have hlength : (List.range slotLimit).findIdx (isPast r start) <
      (List.range slotLimit).length := by
    rwa [List.length_range]
  have hpast := List.findIdx_getElem (w := hlength)
  rwa [List.getElem_range] at hpast

/-- By steady clocks all slots after the first past the last moment of the rule are past it. -/
theorem isPast_of_reach_le {r : Rule} {start m : Moment} (h : start.zone.Steady) {k : Nat}
    (hreach : reach r start ≤ k) (hlimit : k < slotLimit)
    (hk : slot? r start k = some (.held m)) : isPast r start k = true := by
  have hfirst := isPast_reach (Nat.lt_of_le_of_lt hreach hlimit)
  rcases Nat.eq_or_lt_of_le hreach with rfl | hlt
  · exact hfirst
  · cases hn : slot? r start (reach r start) with
    | none => simp [isPast, hn] at hfirst
    | some s =>
      cases s with
      | skipped => simp [isPast, hn] at hfirst
      | held n =>
        have hslots := slot?_ascending r start
        simp only [isPast, hn, hk, Option.any_eq_true, decide_eq_true_eq] at hfirst ⊢
        obtain ⟨e, he, hprecedes⟩ := hfirst
        have hday := hslots.dayAfter hn hk hlt
        exact ⟨e, he, hday.preceded_of_preceded (hslots.zone hn ▸ h) hprecedes⟩

namespace Query

/-- All moments float or none does, but for a floating start a last moment
of the rule may have a zone. -/
structure Coherent (q : Query) : Prop where
  first : q.first.isFloating = q.start.isFloating
  last : q.last.isFloating = q.start.isFloating
  ending : ∀ m ∈ q.rule.last?, m.isFloating = true → q.start.isFloating = true

structure Admits (q : Query) (k : Nat) (m finish : Moment) : Prop where
  ending : ∀ e ∈ q.ending?, ¬ e.Precedes m
  count : 0 < q.rule.count → heldBefore q.rule q.start k < q.rule.count
  last : m.Precedes q.last
  first : q.first.Precedes finish

instance (q : Query) (k : Nat) (m finish : Moment) : Decidable (q.Admits k m finish) :=
  decidable_of_iff ((∀ e ∈ q.ending?, ¬ e.Precedes m) ∧
      (0 < q.rule.count → heldBefore q.rule q.start k < q.rule.count) ∧
      m.Precedes q.last ∧ q.first.Precedes finish)
    ⟨fun ⟨he, hc, hl, hf⟩ => ⟨he, hc, hl, hf⟩, fun ⟨he, hc, hl, hf⟩ => ⟨he, hc, hl, hf⟩⟩

def selected? (q : Query) (k : Nat) : Option Occurrence :=
  match slot? q.rule q.start k with
  | some (.held m) =>
    match m.add? q.duration with
    | some finish => if q.Admits k m finish then some ⟨m, finish⟩ else none
    | none => none
  | _ => none

def selection (q : Query) : List Occurrence := (List.range slotLimit).filterMap q.selected?

def PastEnding (q : Query) (m : Moment) : Prop := ∃ e ∈ q.ending?, e.Precedes m

instance (q : Query) (m : Moment) : Decidable (q.PastEnding m) :=
  inferInstanceAs (Decidable (∃ e ∈ q.ending?, e.Precedes m))

def Leaves (q : Query) (k : Nat) (m : Moment) : Prop :=
  q.PastEnding m ∨ ¬ m.Precedes q.last ∨
    (0 < q.rule.count ∧ q.rule.count ≤ heldBefore q.rule q.start k) ∨
      m.add? q.duration = none

/-- What starts a day or more after something past the window is past it, too. -/
def Closes (q : Query) : Prop :=
  ∀ m n : Moment, m.zone = q.start.zone → n.DayAfter m → n.Precedes q.last → m.Precedes q.last

/-- What is selected from the slots before the first past the last moment of the rule. -/
def reached (q : Query) : List Occurrence :=
  (List.range (reach q.rule q.start)).filterMap q.selected?

variable {q : Query}

theorem closes_of_steady (h : q.start.zone.Steady) : q.Closes := by
  intro m n hm hn hlast
  exact hn.precedes_of_precedes (hm ▸ h) hlast

theorem closes_of_zone (h : q.last.zone = q.start.zone) : q.Closes := by
  intro m n hm hn hlast
  rw [Moment.precedes_iff_of_zone (hm.trans h.symm)]
  rw [Moment.precedes_iff_of_zone (hn.zone.trans (hm.trans h.symm))] at hlast
  have hday := hn.wall
  simp only [microsPerDay] at hday
  omega

theorem isPast_iff {k : Nat} {m : Moment} (hk : slot? q.rule q.start k = some (.held m)) :
    isPast q.rule q.start k = true ↔ q.PastEnding m := by
  simp only [isPast, hk, Option.any_eq_true, decide_eq_true_eq]
  rfl

/-- Of the slots that are not past the last moment of the rule, all those
after one at which the walk leaves are such slots. -/
theorem Leaves.later {j k : Nat} {m n : Moment} (h : q.Leaves j m) (hclose : q.Closes)
    (hd : 0 ≤ q.duration) (hm : m.zone = q.start.zone) (hpast : ¬q.PastEnding m)
    (hn : n.DayAfter m) (hjk : j ≤ k) : q.Leaves k n := by
  rcases h with hending | hlast | ⟨hpos, hcount⟩ | hadd
  · exact absurd hending hpast
  · exact .inr (.inl fun h => hlast (hclose m n hm hn h))
  · exact .inr (.inr (.inl ⟨hpos, Nat.le_trans hcount (heldBefore_le _ _ hjk)⟩))
  · exact .inr (.inr (.inr (hn.add?_eq_none hd hadd)))

theorem selected?_eq_none {k : Nat} {m : Moment} (hk : slot? q.rule q.start k = some (.held m))
    (h : q.Leaves k m) : q.selected? k = none := by
  simp only [selected?, hk]
  split
  · rename_i finish hf
    refine if_neg fun ha => ?_
    rcases h with ⟨e, he, hm⟩ | hlast | ⟨hpos, hcount⟩ | hadd
    · exact ha.ending e he hm
    · exact hlast ha.last
    · exact Nat.not_le_of_lt (ha.count hpos) hcount
    · rw [hadd] at hf
      simp at hf
  · rfl

theorem Leaves.selected?_eq_none {j k : Nat} {m : Moment}
    (hj : slot? q.rule q.start j = some (.held m)) (h : q.Leaves j m) (hclose : q.Closes)
    (hd : 0 ≤ q.duration) (hpast : ¬q.PastEnding m) (hjk : j ≤ k) : q.selected? k = none := by
  have hslots := slot?_ascending q.rule q.start
  rcases Nat.eq_or_lt_of_le hjk with rfl | hlt
  · exact Query.selected?_eq_none hj h
  · cases hk : slot? q.rule q.start k with
    | none => simp [selected?, hk]
    | some s =>
      cases s with
      | skipped => simp [selected?, hk]
      | held n =>
        exact Query.selected?_eq_none hk
          (h.later hclose hd (hslots.zone hj) hpast (hslots.dayAfter hj hk hlt) hjk)

theorem ending?_isFloating (hq : q.Coherent) {e : Moment} (he : e ∈ q.ending?) :
    e.isFloating = q.start.isFloating := by
  simp only [ending?, Option.mem_def, Option.map_eq_some_iff] at he
  obtain ⟨m, hm, rfl⟩ := he
  cases hs : q.start.isFloating with
  | true =>
    cases hf : m.isFloating with
    | true => simp [hf]
    | false => simp [Moment.float, Moment.isFloating]
  | false =>
    have hf : m.isFloating = false := by
      rw [Bool.eq_false_iff]
      intro h
      rw [hq.ending m hm h] at hs
      simp at hs
    simp [hf]

theorem pastEnding_eq (hq : q.Coherent) {m : Moment} (hm : m.isFloating = q.start.isFloating) :
    q.pastEnding m = .ok (decide (q.PastEnding m)) := by
  unfold pastEnding
  split
  · rename_i he
    have hnone : ¬ q.PastEnding m := by simp [PastEnding, he]
    simp [hnone]
  · rename_i e he
    have hf : e.isFloating = m.isFloating := by rw [ending?_isFloating hq he, hm]
    have hsome : q.PastEnding m ↔ e.Precedes m := by simp [PastEnding, he]
    simp [Moment.before_eq hf, hsome]

theorem visit_eq (hq : q.Coherent) (n : Nat) {m : Moment}
    (hm : m.isFloating = q.start.isFloating) :
    q.visit n m = .ok (
      if q.PastEnding m then .leave
      else if ¬ m.Precedes q.last then .leave
      else if q.rule.count ≠ 0 ∧ q.rule.count < n + 1 then .leave
      else
        match m.add? q.duration with
        | none => .leave
        | some finish => if q.first.Precedes finish then .keep ⟨m, finish⟩ else .outside) := by
  unfold visit
  rw [pastEnding_eq hq hm, Moment.before_eq (hm.trans hq.last.symm)]
  simp only [bind, Except.bind, pure, Except.pure, decide_eq_true_eq, Bool.not_eq_true',
    decide_eq_false_iff_not]
  split
  · rfl
  · split
    · rfl
    · split
      · rfl
      · cases hadd : m.add? q.duration with
        | none => rfl
        | some finish =>
          have hfinish : q.first.isFloating = finish.isFloating := by
            rw [hq.first, ← hm, Moment.isFloating, Moment.isFloating, (Moment.add?_eq_some hadd).2]
          simp only [Moment.before_eq hfinish, decide_eq_true_eq]
          by_cases hover : q.first.Precedes finish <;> simp [hover]

/-- What a visit comes to, and what the filter makes of the same slot. -/
theorem visit_spec (hq : q.Coherent) {k : Nat} {m : Moment}
    (hk : slot? q.rule q.start k = some (.held m)) :
    (q.Leaves k m ∧ q.visit (heldBefore q.rule q.start k) m = .ok .leave) ∨
    (q.selected? k = none ∧ q.visit (heldBefore q.rule q.start k) m = .ok .outside) ∨
    ∃ o, q.selected? k = some o ∧ q.visit (heldBefore q.rule q.start k) m = .ok (.keep o) := by
  have hzone := (slot?_ascending q.rule q.start).zone hk
  rw [visit_eq hq _ (by simp [Moment.isFloating, hzone])]
  by_cases hending : q.PastEnding m
  · exact .inl ⟨.inl hending, by rw [if_pos hending]⟩
  rw [if_neg hending]
  by_cases hlast : m.Precedes q.last
  · rw [if_neg (not_not_intro hlast)]
    by_cases hcount : q.rule.count ≠ 0 ∧ q.rule.count < heldBefore q.rule q.start k + 1
    · exact .inl ⟨.inr (.inr (.inl ⟨by omega, by omega⟩)), by rw [if_pos hcount]⟩
    rw [if_neg hcount]
    cases hadd : m.add? q.duration with
    | none => exact .inl ⟨.inr (.inr (.inr hadd)), rfl⟩
    | some finish =>
      have hadmits : q.Admits k m finish ↔ q.first.Precedes finish :=
        ⟨fun h => h.first, fun h => ⟨fun e he hm => hending ⟨e, he, hm⟩, by omega, hlast, h⟩⟩
      by_cases hover : q.first.Precedes finish
      · exact .inr (.inr ⟨⟨m, finish⟩, by simp [selected?, hk, hadd, hadmits, hover],
          by simp [hover]⟩)
      · exact .inr (.inl ⟨by simp [selected?, hk, hadd, hadmits, hover], by simp [hover]⟩)
  · exact .inl ⟨.inr (.inl hlast), by rw [if_pos hlast]⟩

theorem walk_of_isPast (hq : q.Coherent) {k : Nat} (h : isPast q.rule q.start k = true)
    (fuel earlier : Nat) : q.walk fuel k earlier = .ok [] := by
  cases fuel with
  | zero => rfl
  | succ fuel =>
    unfold walk
    cases hk : slot? q.rule q.start k with
    | none => rfl
    | some s =>
      cases s with
      | skipped => simp [isPast, hk] at h
      | held m =>
        have hm := Moment.isFloating_of_zone ((slot?_ascending q.rule q.start).zone hk)
        simp only [visit_eq hq earlier hm, if_pos ((isPast_iff hk).mp h)]
        rfl

/-- From slot `k` on, with the held slots before it counted, the walk gives what
the filter selects from the next `n` slots, if no more are within the rule. -/
theorem walk_eq (hq : q.Coherent) (hclose : q.Closes) (hd : 0 ≤ q.duration) {n fuel : Nat}
    (hn : n ≤ fuel) (k : Nat) (hwithin : ∀ j, k ≤ j → j < k + n → isPast q.rule q.start j = false)
    (hend : n < fuel → isPast q.rule q.start (k + n) = true) :
    q.walk fuel k (heldBefore q.rule q.start k) =
      .ok ((List.range' k n).filterMap q.selected?) := by
  induction n generalizing fuel k with
  | zero =>
    cases fuel with
    | zero => rfl
    | succ fuel => exact walk_of_isPast hq (hend (Nat.succ_pos _)) _ _
  | succ n ih =>
    obtain ⟨fuel, rfl⟩ := Nat.exists_eq_succ_of_ne_zero (Nat.ne_of_gt (Nat.zero_lt_of_lt hn))
    have hnext := ih (Nat.le_of_succ_le_succ hn) (k + 1)
      (fun j hj hjn => hwithin j (Nat.le_of_succ_le hj) (by omega))
      (fun hlt => by rw [Nat.add_right_comm]; exact hend (Nat.succ_lt_succ hlt))
    rw [heldBefore_succ] at hnext
    rw [List.range'_succ, List.filterMap_cons]
    unfold walk
    cases hk : slot? q.rule q.start k with
    | none =>
      have hrest : ∀ j ∈ List.range' (k + 1) n, q.selected? j = none := by
        intro j hj
        have hended := eq_none_of_ended (slot?_ascending q.rule q.start).ended hk n j hj
        simp [selected?, hended]
      simp [selected?, hk, List.filterMap_eq_nil_iff.mpr hrest]
    | some s =>
      rw [hk] at hnext
      cases s with
      | skipped =>
        simpa [selected?, hk, isHeld] using hnext
      | held m =>
        simp only [isHeld, if_true] at hnext
        rcases visit_spec hq hk with ⟨hleave, hv⟩ | ⟨hnone, hv⟩ | ⟨o, hsome, hv⟩
        · have hpast : ¬q.PastEnding m := by
            rw [← isPast_iff hk, hwithin k (Nat.le_refl k) (by omega)]
            exact Bool.false_ne_true
          have hrest : ∀ j ∈ List.range' (k + 1) n, q.selected? j = none := by
            intro j hj
            exact hleave.selected?_eq_none hk hclose hd hpast
              (Nat.le_of_succ_le (List.mem_range'_1.mp hj).1)
          simp [hv, Query.selected?_eq_none hk hleave, List.filterMap_eq_nil_iff.mpr hrest,
            bind, Except.bind, pure, Except.pure]
        · simp [hv, hnone, hnext, bind, Except.bind]
        · simp [hv, hsome, hnext, bind, Except.bind, pure, Except.pure]

theorem occurrences_eq_reached (hq : q.Coherent) (hclose : q.Closes) (hd : 0 ≤ q.duration) :
    q.occurrences = .ok q.reached := by
  rw [occurrences, reached, List.range_eq_range', ← walk_eq hq hclose hd (reach_le _ _) 0]
  · rfl
  · intro j _ hj
    rw [Nat.zero_add] at hj
    exact isPast_of_lt_reach hj
  · intro hlimit
    rw [Nat.zero_add]
    exact isPast_reach hlimit

theorem reached_eq_selection (h : q.start.zone.Steady) : q.reached = q.selection := by
  obtain ⟨n, hn⟩ := Nat.exists_eq_add_of_le (reach_le q.rule q.start)
  have hrest : ∀ j ∈ List.range' (reach q.rule q.start) n, q.selected? j = none := by
    intro j hj
    obtain ⟨hlow, hhigh⟩ := List.mem_range'_1.mp hj
    cases hk : slot? q.rule q.start j with
    | none => simp [selected?, hk]
    | some s =>
      cases s with
      | skipped => simp [selected?, hk]
      | held m =>
        have hpast := isPast_of_reach_le h hlow (by omega) hk
        exact selected?_eq_none hk (.inl ((isPast_iff hk).mp hpast))
  rw [selection, hn, List.range_eq_range', ← List.range'_append_1, List.filterMap_append,
    Nat.zero_add, List.filterMap_eq_nil_iff.mpr hrest, List.append_nil, ← List.range_eq_range',
    reached]

end Query

/-- An expansion of an event that does not end before it starts, in a zone whose
clocks never lie a day apart, is the selection from the slots of its rule. -/
theorem expand_eq_selection (r : Rule) (start finish first last : Moment) (duration : Int)
    (hsteady : start.zone.Steady) (hduration : finish.sub start = .ok duration)
    (hpos : 0 ≤ duration)
    (hfirst : first.isFloating = start.isFloating) (hlast : last.isFloating = start.isFloating)
    (hending : ∀ m ∈ r.last?, m.isFloating = true → start.isFloating = true) :
    expand r start finish first last =
      .ok (Query.selection ⟨r, start, duration, first, last⟩) := by
  have hq : Query.Coherent ⟨r, start, duration, first, last⟩ := ⟨hfirst, hlast, hending⟩
  rw [← Query.reached_eq_selection hsteady,
    ← Query.occurrences_eq_reached hq (Query.closes_of_steady hsteady) hpos]
  unfold expand
  rw [hduration]
  rfl

/-- Three times, every other week on Wednesday and Monday from 2 March 2026 at
nine in New York, seen from London over the days in which the clocks change. -/
theorem expand_across_zones :
    let start : Moment := ⟨⟨63908038800000000, by decide, by decide⟩, .region .newYork, false⟩
    let finish : Moment := ⟨⟨63908042400000000, by decide, by decide⟩, .region .newYork, false⟩
    let first : Moment := ⟨⟨63908265600000000, by decide, by decide⟩, .region .london, false⟩
    let last : Moment := ⟨⟨63911376000000000, by decide, by decide⟩, .region .london, false⟩
    let r : Rule := ⟨.weekly [.wednesday, .monday], 2, by decide, .times 3 (by decide)⟩
    start.zone.Steady ∧ finish.sub start = .ok microsPerHour ∧
      expand r start finish first last =
        .ok (Query.selection ⟨r, start, microsPerHour, first, last⟩) := by
  intro start finish first last r
  have hsteady : start.zone.Steady := Region.steady_of_mem_all (by decide)
  exact ⟨hsteady, rfl, expand_eq_selection _ _ _ _ _ _ hsteady rfl (by decide) rfl rfl (by decide)⟩

end Household.Expansion
