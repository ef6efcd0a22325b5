import Household.Proofs.Expansion.Sequence
import Household.Proofs.Lists

/-!
# Splitting a window

A window can be cut in two at any moment. What starts before the cut is seen
through the first part, what starts at it or later through the second; only
occurrences that are under way at the cut are seen through both.
-/

set_option autoImplicit false

namespace Household.Expansion

open Household.Calendar Household.Recurrence

def Occurrence.startsBefore (m : Moment) (o : Occurrence) : Bool := decide (o.start.Precedes m)

theorem Occurrence.startsBefore_iff {m : Moment} {o : Occurrence} (h : o.start.zone = m.zone) :
    o.startsBefore m = true ↔ o.start.wall.micros < m.wall.micros := by
  rw [startsBefore, decide_eq_true_iff, Moment.precedes_iff_of_zone h]

namespace Query

def window (q : Query) (a b : Moment) : Query := { q with first := a, last := b }

variable {q : Query} {a b c : Moment}

theorem selected?_window (hq : (q.window a b).OneZone) {k : Nat} {o : Occurrence} :
    (q.window a b).selected? k = some o ↔
      (Passes q.rule q.start k o.start ∧ o.start.add? q.duration = some o.finish) ∧
        o.start.wall.micros < b.wall.micros ∧
          a.wall.micros < o.start.wall.micros + q.duration := by
  rw [selected?_eq_some_iff, ← and_assoc]
  refine and_congr_right fun ⟨hp, hadd⟩ => ?_
  have hstart : o.start.zone = q.start.zone := (slot?_ascending q.rule q.start).zone hp.held
  obtain ⟨hwall, hfinish⟩ := Moment.add?_eq_some hadd
  have hlast : o.start.Precedes b ↔ o.start.wall.micros < b.wall.micros :=
    Moment.precedes_iff_of_zone (hstart.trans hq.last.symm)
  have hfirst : a.Precedes o.finish ↔ a.wall.micros < o.finish.wall.micros :=
    Moment.precedes_iff_of_zone (hq.first.trans (hfinish.trans hstart).symm)
  rw [hwall] at hfirst
  exact and_congr hlast hfirst

/-- Through two windows the same is seen as far as they agree at each slot. -/
theorem reached_filter_congr {a' b' : Moment} {p p' : Occurrence → Bool}
    (h : ∀ k o, (q.window a b).selected? k = some o ∧ p o = true ↔
      (q.window a' b').selected? k = some o ∧ p' o = true) :
    (q.window a b).reached.filter p = (q.window a' b').reached.filter p' := by
  unfold reached
  rw [List.filter_filterMap, List.filter_filterMap]
  apply List.filterMap_congr
  intro k _
  ext o
  rw [Option.filter_eq_some_iff, Option.filter_eq_some_iff]
  exact h k o

theorem startsBefore_of_passes {k : Nat} {o : Occurrence} (hb : b.zone = q.start.zone)
    (hp : Passes q.rule q.start k o.start) :
    o.startsBefore b = true ↔ o.start.wall.micros < b.wall.micros :=
  Occurrence.startsBefore_iff (((slot?_ascending q.rule q.start).zone hp.held).trans hb.symm)

theorem reached_before (ha : a.zone = q.start.zone) (hb : b.zone = q.start.zone)
    (hc : c.zone = q.start.zone) (hbc : ¬c.Precedes b) :
    (q.window a c).reached.filter (Occurrence.startsBefore b) = (q.window a b).reached := by
  rw [Moment.precedes_iff_of_zone (hc.trans hb.symm)] at hbc
  rw [← List.filter_true (q.window a b).reached]
  apply reached_filter_congr
  intro k o
  rw [selected?_window ⟨ha, hc⟩, selected?_window ⟨ha, hb⟩]
  constructor
  · rintro ⟨⟨hs, -, hfirst⟩, hbefore⟩
    exact ⟨⟨hs, (startsBefore_of_passes hb hs.1).mp hbefore, hfirst⟩, rfl⟩
  · rintro ⟨⟨hs, hbefore, hfirst⟩, -⟩
    exact ⟨⟨hs, by omega, hfirst⟩, (startsBefore_of_passes hb hs.1).mpr hbefore⟩

/-- Of what starts at the cut or later, no part of the window before it makes a difference. -/
theorem reached_after (ha : a.zone = q.start.zone) (hb : b.zone = q.start.zone)
    (hc : c.zone = q.start.zone) (hab : ¬b.Precedes a) (hd : 0 < q.duration) :
    (q.window a c).reached.filter (fun o => !o.startsBefore b) =
      (q.window b c).reached.filter (fun o => !o.startsBefore b) := by
  rw [Moment.precedes_iff_of_zone (hb.trans ha.symm)] at hab
  apply reached_filter_congr
  intro k o
  rw [selected?_window ⟨ha, hc⟩, selected?_window ⟨hb, hc⟩, Bool.not_eq_true', Bool.eq_false_iff]
  refine and_congr_left fun hlate => and_congr_right fun hs => and_congr_right fun _ => ?_
  -- it ends after its own start, which is no earlier than the cut
  rw [Ne, startsBefore_of_passes hb hs.1] at hlate
  constructor
  · intro
    omega
  · intro
    omega

theorem reached_split (ha : a.zone = q.start.zone) (hb : b.zone = q.start.zone)
    (hc : c.zone = q.start.zone) (hab : ¬b.Precedes a) (hbc : ¬c.Precedes b)
    (hd : 0 < q.duration) : (q.window a c).reached =
      (q.window a b).reached ++ (q.window b c).reached.filter (fun o => !o.startsBefore b) := by
  have hfirst : (q.window a c).reached.Pairwise
      (fun x y => y.startsBefore b = true → x.startsBefore b = true) := by
    apply (q.window a c).reached_ascending.imp_of_mem
    intro x y hx hy hday hbefore
    have hzone {o : Occurrence} (ho : o ∈ (q.window a c).reached) : o.start.zone = b.zone :=
      (mem_reached.mp ho).1.zone.trans hb.symm
    rw [Occurrence.startsBefore_iff (hzone hy)] at hbefore
    rw [Occurrence.startsBefore_iff (hzone hx)]
    have hwall := hday.wall
    simp only [microsPerDay] at hwall
    omega
  rw [← reached_before ha hb hc hbc, ← reached_after ha hb hc hab hd]
  exact (filter_append_filter_not hfirst).symm

/-! A last moment that cannot be compared -/

theorem slot?_zero_ne_skipped (r : Rule) (start : Moment) : slot? r start 0 ≠ some .skipped := by
  cases hp : r.pattern with
  | daily => simp [slot?, hp, daySlot?]
  | monthly day => simp [slot?, hp, monthSlot?]
  | yearly => simp [slot?, hp, yearSlot?_zero]
  | weekly days =>
    cases days with
    | nil => simp [slot?, hp, daySlot?]
    | cons w ws => simp [slot?, hp, weekSlot?]

theorem occurrences_mixed {m : Moment} (hm : q.rule.last? = some m)
    (hfloating : m.isFloating = true) (hstart : q.start.isFloating = false) :
    (∀ a b, (q.window a b).occurrences = .ok []) ∨
      ∀ a b, (q.window a b).occurrences = .error .mixedComparison := by
  have hslot (a b : Moment) : slot? (q.window a b).rule (q.window a b).start 0 =
      slot? q.rule q.start 0 := rfl
  have hwalk (a b : Moment) : (q.window a b).occurrences = (q.window a b).walk (9999 + 1) 0 0 := rfl
  cases hk : slot? q.rule q.start 0 with
  | none =>
    left
    intro a b
    rw [hwalk, walk, hslot, hk]
  | some s =>
    cases s with
    | skipped => exact absurd hk (slot?_zero_ne_skipped _ _)
    | held n =>
      have hn : n.isFloating = false := by
        rw [Moment.isFloating_of_zone ((slot?_ascending q.rule q.start).zone hk), hstart]
      have hbefore : m.before n = .error .mixedComparison :=
        Moment.before_mixed (by rw [hfloating, hn]; decide)
      right
      intro a b
      have hvisit : (q.window a b).visit 0 n = .error .mixedComparison := by
        simp only [visit, pastEnding, ending?, window, hm, Option.map_some, hstart, Bool.false_and,
          Bool.false_eq_true, if_false, hbefore]
        rfl
      rw [hwalk, walk, hslot, hk]
      simp only [hvisit]
      rfl

end Query

/-- What is seen through a window is what is seen through its part before a cut,
followed by what starts at the cut or later and is seen through the other part;
where the expansion fails, it fails through each of the three. -/
theorem expand_split {r : Rule} {start finish a b c : Moment} (hfinish : finish.zone = start.zone)
    (ha : a.zone = start.zone) (hb : b.zone = start.zone) (hc : c.zone = start.zone)
    (hpos : start.Precedes finish) (hab : ¬b.Precedes a) (hbc : ¬c.Precedes b) :
    (expand r start finish a c = do
      let os ← expand r start finish a b
      let ps ← expand r start finish b c
      return os ++ ps.filter (fun o => !o.startsBefore b)) ∧
    ((∀ m ∈ r.last?, m.isFloating = true → start.isFloating = true) → ∃ os ps,
      expand r start finish a b = .ok os ∧ expand r start finish b c = .ok ps ∧
        expand r start finish a c = .ok (os ++ ps.filter (fun o => !o.startsBefore b))) := by
  obtain ⟨duration, hduration, hd⟩ : ∃ d, finish.sub start = .ok d ∧ 0 < d := by
    rw [Moment.precedes_iff_of_zone hfinish.symm] at hpos
    exact ⟨finish.wall.micros - start.wall.micros, by simp [Moment.sub, Moment.distance?, hfinish],
      by omega⟩
  let q : Query := ⟨r, start, duration, a, c⟩
  have hexpand (x y : Moment) : expand r start finish x y = (q.window x y).occurrences :=
    expand_of_sub hduration
  have hok (hending : ∀ m ∈ r.last?, m.isFloating = true → start.isFloating = true)
      {x y : Moment} (hx : x.zone = start.zone) (hy : y.zone = start.zone) :
      expand r start finish x y = .ok (q.window x y).reached := by
    have hq : (q.window x y).OneZone := ⟨hx, hy⟩
    rw [hexpand]
    exact Query.occurrences_eq_reached (hq.coherent hending) (Query.closes_of_zone hy)
      (Int.le_of_lt hd)
  have hsplit : (q.window a c).reached = (q.window a b).reached ++
      (q.window b c).reached.filter (fun o => !o.startsBefore b) :=
    Query.reached_split ha hb hc hab hbc hd
  constructor
  · by_cases hending : ∀ m ∈ r.last?, m.isFloating = true → start.isFloating = true
    · rw [hok hending ha hc, hok hending ha hb, hok hending hb hc, hsplit]
      rfl
    · simp only [not_forall, Bool.not_eq_true] at hending
      obtain ⟨m, hm, hfloating, hstart⟩ := hending
      simp only [hexpand]
      rcases Query.occurrences_mixed (q := q) hm hfloating hstart with hempty | hfails
      · simp only [hempty]
        rfl
      · simp only [hfails]
        rfl
  · intro hending
    refine ⟨_, _, hok hending ha hb, hok hending hb hc, ?_⟩
    rw [hok hending ha hc, hsplit]

/-- Three nights in New York from ten o'clock until two, cut at the midnight of the second. -/
theorem nights_split :
    let r : Rule := ⟨.daily, 1, by decide, .times 3 (by decide)⟩
    let night (w w' : WallTime) : Occurrence :=
      ⟨⟨w, .region .newYork, false⟩, ⟨w', .region .newYork, false⟩⟩
    let one := night ⟨63908085600000000, by decide, by decide⟩
      ⟨63908100000000000, by decide, by decide⟩
    let two := night ⟨63908172000000000, by decide, by decide⟩
      ⟨63908186400000000, by decide, by decide⟩
    let three := night ⟨63908258400000000, by decide, by decide⟩
      ⟨63908272800000000, by decide, by decide⟩
    let a : Moment := ⟨⟨63908006400000000, by decide, by decide⟩, .region .newYork, false⟩
    let b : Moment := ⟨⟨63908179200000000, by decide, by decide⟩, .region .newYork, false⟩
    let c : Moment := ⟨⟨63908697600000000, by decide, by decide⟩, .region .newYork, false⟩
    one.start.Precedes one.finish ∧ ¬b.Precedes a ∧ ¬c.Precedes b ∧
      expand r one.start one.finish a b = .ok [one, two] ∧
      expand r one.start one.finish b c = .ok [two, three] ∧
      (expand r one.start one.finish a c = do
        let os ← expand r one.start one.finish a b
        let ps ← expand r one.start one.finish b c
        return os ++ ps.filter (fun o => !o.startsBefore b)) ∧
      (∀ m ∈ r.last?, m.isFloating = true → one.start.isFloating = true) ∧ ∃ os ps,
        expand r one.start one.finish a b = .ok os ∧ expand r one.start one.finish b c = .ok ps ∧
          expand r one.start one.finish a c =
            .ok (os ++ ps.filter (fun o => !o.startsBefore b)) := by
  dsimp only
  refine ⟨?pos, ?ab, ?bc, ?one, ?two,
    And.imp_right ?split (expand_split rfl rfl rfl rfl ?pos ?ab ?bc)⟩
  case one => rfl
  case two => rfl
  case split => exact fun h => ⟨by decide, h (by decide)⟩
  all_goals decide

end Household.Expansion
