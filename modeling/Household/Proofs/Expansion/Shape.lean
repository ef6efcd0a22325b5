import Household.Proofs.Expansion.Sequence
import Household.Proofs.Recurrence.Entries
import Mathlib.Data.List.Chain

/-!
# The shape of an expansion

Whatever an expansion returns, and however its window and its event lie to each
other, the occurrences come from held slots in their order. Once one is kept
the following are kept too, so that a rule that goes by days leaves no gap.
For observers elsewhere that takes clocks that never lie a day apart.
-/

set_option autoImplicit false

namespace Household.Expansion

open Household.Calendar Household.Recurrence

/-! Times of day -/

theorem daySlot?_timeOfDay {start m : Moment} {step k : Nat}
    (h : daySlot? start step k = some (.held m)) : m.wall.timeOfDay = start.wall.timeOfDay := by
  have hwall := (daySlot?_held h).1
  simp only [WallTime.timeOfDay, microsPerDay] at *
  omega

theorem civilSlot?_timeOfDay {start m : Moment} {c : Civil}
    (h : civilSlot? start c = some (.held m)) : m.wall.timeOfDay = start.wall.timeOfDay := by
  obtain ⟨d, rfl, -⟩ := civilSlot?_held h
  exact WallTime.timeOfDay_onDate _ _

theorem slot?_timeOfDay {r : Rule} {start m : Moment} {k : Nat}
    (h : slot? r start k = some (.held m)) : m.wall.timeOfDay = start.wall.timeOfDay := by
  unfold slot? at h
  split at h
  · exact daySlot?_timeOfDay h
  · exact daySlot?_timeOfDay h
  · obtain ⟨d, -, hm⟩ := Option.map_eq_some_iff.mp h
    rw [Slot.held.injEq] at hm
    rw [← hm]
    exact WallTime.timeOfDay_onDate _ _
  · unfold monthSlot? at h
    split at h
    · rw [Option.some.injEq, Slot.held.injEq] at h
      rw [h]
    · exact civilSlot?_timeOfDay h
  · exact civilSlot?_timeOfDay h

/-! Walks -/

namespace Query

variable {q : Query}

/-- The occurrence of slot number `k`, one that ends after the window has begun. -/
structure Shows (q : Query) (k : Nat) (o : Occurrence) : Prop where
  held : slot? q.rule q.start k = some (.held o.start)
  finish : o.start.add? q.duration = some o.finish
  first : q.first.Precedes o.finish

def Through (q : Query) : Nat → List Occurrence → Prop
  | _, [] => True
  | k, o::os => ∃ j, k ≤ j ∧ q.Shows j o ∧ Through q (j + 1) os

/-- Occurrences of one slot after the other, from number `k` on. -/
def Consecutive (q : Query) : Nat → List Occurrence → Prop
  | _, [] => True
  | k, o::os => q.Shows k o ∧ Consecutive q (k + 1) os

theorem visit_cases {earlier : Nat} {m : Moment} {v : Visit} (h : q.visit earlier m = .ok v) :
    v = .leave ∨ ∃ finish, m.add? q.duration = some finish ∧
      v = if q.first.Precedes finish then .keep ⟨m, finish⟩ else .outside := by
  unfold visit at h
  obtain ⟨past, -, h⟩ := bind_eq_ok h
  split at h
  · exact .inl (Except.ok.inj h).symm
  obtain ⟨early, -, h⟩ := bind_eq_ok h
  split at h
  · exact .inl (Except.ok.inj h).symm
  split at h
  · exact .inl (Except.ok.inj h).symm
  cases hadd : m.add? q.duration with
  | none =>
    rw [hadd] at h
    exact .inl (Except.ok.inj h).symm
  | some finish =>
    rw [hadd] at h
    obtain ⟨overlaps, hoverlaps, h⟩ := bind_eq_ok h
    rw [Moment.before_eq_ok hoverlaps] at h
    refine .inr ⟨finish, rfl, ?_⟩
    by_cases hfirst : q.first.Precedes finish
    · simpa [hfirst, pure, Except.pure, eq_comm] using h
    · simpa [hfirst, pure, Except.pure, eq_comm] using h

/-- What a walk that does not fail makes of its next slot: it ends there, goes
on without an occurrence of it, or keeps that. -/
theorem walk_cases {fuel k earlier : Nat} {os : List Occurrence}
    (h : q.walk (fuel + 1) k earlier = .ok os) :
    os = [] ∨
    (slot? q.rule q.start k = some .skipped ∧ q.walk fuel (k + 1) earlier = .ok os) ∨
    (∃ m finish, slot? q.rule q.start k = some (.held m) ∧ m.add? q.duration = some finish ∧
      ¬q.first.Precedes finish ∧ q.walk fuel (k + 1) (earlier + 1) = .ok os) ∨
    ∃ o rest, os = o :: rest ∧ q.Shows k o ∧ q.walk fuel (k + 1) (earlier + 1) = .ok rest := by
  unfold walk at h
  split at h
  · exact .inl (Except.ok.inj h).symm
  · rename_i hk
    exact .inr (.inl ⟨hk, h⟩)
  · rename_i m hk
    obtain ⟨v, hv, h⟩ := bind_eq_ok h
    rcases visit_cases hv with rfl | ⟨finish, hadd, rfl⟩
    · exact .inl (Except.ok.inj h).symm
    · by_cases hfirst : q.first.Precedes finish
      · simp only [if_pos hfirst] at h
        obtain ⟨rest, hrest, h⟩ := bind_eq_ok h
        exact .inr (.inr (.inr ⟨⟨m, finish⟩, rest, (Except.ok.inj h).symm, ⟨hk, hadd, hfirst⟩,
          hrest⟩))
      · simp only [if_neg hfirst] at h
        exact .inr (.inr (.inl ⟨m, finish, hk, hadd, hfirst, h⟩))

theorem Through.mono {j k : Nat} {os : List Occurrence} (h : q.Through k os) (hjk : j ≤ k) :
    q.Through j os := by
  cases os with
  | nil => trivial
  | cons o os =>
    obtain ⟨i, hi, hrest⟩ := h
    exact ⟨i, Nat.le_trans hjk hi, hrest⟩

theorem walk_through {fuel k earlier : Nat} {os : List Occurrence}
    (h : q.walk fuel k earlier = .ok os) : q.Through k os := by
  induction fuel generalizing k earlier os with
  | zero =>
    rw [← Except.ok.inj h]
    trivial
  | succ fuel ih =>
    rcases walk_cases h with rfl | ⟨-, hrest⟩ | ⟨_, _, -, -, -, hrest⟩ | ⟨o, rest, rfl, ho, hrest⟩
    · trivial
    · exact (ih hrest).mono (Nat.le_succ k)
    · exact (ih hrest).mono (Nat.le_succ k)
    · exact ⟨k, Nat.le_refl k, ho, ih hrest⟩

theorem Through.shows {k : Nat} {os : List Occurrence} (h : q.Through k os) {o : Occurrence}
    (ho : o ∈ os) : ∃ j, k ≤ j ∧ q.Shows j o := by
  induction os generalizing k with
  | nil => simp at ho
  | cons a os ih =>
    obtain ⟨j, hj, ha, hrest⟩ := h
    rcases List.mem_cons.mp ho with rfl | ho
    · exact ⟨j, hj, ha⟩
    · obtain ⟨i, hi, hshows⟩ := ih hrest ho
      exact ⟨i, by omega, hshows⟩

theorem Through.ascending {k : Nat} {os : List Occurrence} (h : q.Through k os) :
    os.Pairwise (fun a b => b.start.DayAfter a.start) := by
  induction os generalizing k with
  | nil => exact .nil
  | cons a os ih =>
    obtain ⟨j, -, ha, hrest⟩ := h
    refine List.pairwise_cons.mpr ⟨?_, ih hrest⟩
    intro b hb
    obtain ⟨i, hi, hshows⟩ := hrest.shows hb
    exact (slot?_ascending q.rule q.start).dayAfter ha.held hshows.held hi

theorem Shows.zone {k : Nat} {o : Occurrence} (h : q.Shows k o) : o.start.zone = q.start.zone :=
  (slot?_ascending q.rule q.start).zone h.held

theorem Through.ascending_walls {k : Nat} {os : List Occurrence} (h : q.Through k os) :
    os.Pairwise (fun a b => a.start.wall.micros < b.start.wall.micros) := by
  apply h.ascending.imp
  intro a b hday
  have hwall := hday.wall
  simp only [microsPerDay] at hwall
  omega

theorem Through.ascending_instants {k : Nat} {os : List Occurrence} (h : q.Through k os)
    (hsteady : q.start.zone.Steady) (haware : q.start.isFloating = false) :
    os.Pairwise (fun a b => ∃ x y,
      a.start.instant? = some x ∧ b.start.instant? = some y ∧ x < y) := by
  have hinstant : ∀ o ∈ os, ∃ x, o.start.instant? = some x := by
    intro o ho
    obtain ⟨j, -, hshows⟩ := h.shows ho
    apply o.start.isFloating_eq_false_iff.mp
    rw [Moment.isFloating_of_zone hshows.zone, haware]
  apply h.ascending.imp_of_mem
  intro a b ha hb hday
  obtain ⟨x, hx⟩ := hinstant a ha
  obtain ⟨y, hy⟩ := hinstant b hb
  obtain ⟨j, -, hshows⟩ := h.shows ha
  exact ⟨x, y, hx, hy, hday.instant?_lt (hshows.zone ▸ hsteady) hx hy⟩

/-! Rules that go by days -/

theorem Shows.precedes {j k : Nat} {o : Occurrence} {m finish : Moment} (h : q.Shows j o)
    (hsteady : q.start.zone.Steady) (hk : slot? q.rule q.start k = some (.held m))
    (hadd : m.add? q.duration = some finish) (hjk : j < k) : q.first.Precedes finish := by
  have hday := (slot?_ascending q.rule q.start).dayAfter h.held hk hjk
  have hzone : o.finish.zone = q.start.zone := (Moment.add?_eq_some h.finish).2.trans h.zone
  exact (hday.add? h.finish hadd).preceded_of_preceded (hzone ▸ hsteady) h.first

/-- After an occurrence that it keeps, a walk without skipped slots leaves none out. -/
theorem walk_consecutive (hsteady : q.start.zone.Steady)
    (hq : ∀ k, slot? q.rule q.start k ≠ some .skipped) {fuel k earlier : Nat}
    {os : List Occurrence} (h : q.walk fuel k earlier = .ok os) {j : Nat} {o : Occurrence}
    (ho : q.Shows j o) (hjk : j < k) : q.Consecutive k os := by
  induction fuel generalizing k earlier os with
  | zero =>
    rw [← Except.ok.inj h]
    trivial
  | succ fuel ih =>
    rcases walk_cases h with rfl | ⟨hskipped, -⟩ | ⟨m, finish, hk, hadd, hfirst, -⟩ |
      ⟨a, rest, rfl, ha, hrest⟩
    · trivial
    · exact absurd hskipped (hq k)
    · -- the slot would end before the window begins, after one that ends later than that
      exact absurd (ho.precedes hsteady hk hadd hjk) hfirst
    · exact ⟨ha, ih hrest (Nat.lt_succ_of_lt hjk)⟩

theorem walk_exists_consecutive (hsteady : q.start.zone.Steady)
    (hq : ∀ k, slot? q.rule q.start k ≠ some .skipped) {fuel k earlier : Nat}
    {os : List Occurrence} (h : q.walk fuel k earlier = .ok os) : ∃ j, q.Consecutive j os := by
  induction fuel generalizing k earlier os with
  | zero =>
    rw [← Except.ok.inj h]
    exact ⟨k, trivial⟩
  | succ fuel ih =>
    rcases walk_cases h with rfl | ⟨-, hrest⟩ | ⟨_, _, -, -, -, hrest⟩ | ⟨o, rest, rfl, ho, hrest⟩
    · exact ⟨k, trivial⟩
    · exact ih hrest
    · exact ih hrest
    · exact ⟨k, ho, walk_consecutive hsteady hq hrest ho (Nat.lt_succ_self k)⟩

def DaysApart (days : Nat) (a b : Occurrence) : Prop :=
  b.start.wall.micros = a.start.wall.micros + days * microsPerDay

theorem Consecutive.daysApart {days : Nat}
    (hq : ∀ k, slot? q.rule q.start k = daySlot? q.start days k) {k : Nat} {os : List Occurrence}
    (h : q.Consecutive k os) : os.IsChain (DaysApart days) := by
  induction os generalizing k with
  | nil => exact .nil
  | cons a os ih =>
    cases os with
    | nil => exact .singleton a
    | cons b os =>
      obtain ⟨ha, hb, hrest⟩ := h
      refine List.isChain_cons_cons.mpr ⟨?_, ih ⟨hb, hrest⟩⟩
      have hwall := (daySlot?_held ((hq k).symm.trans ha.held)).1
      have hwall' := (daySlot?_held ((hq (k + 1)).symm.trans hb.held)).1
      have hmul : (k + 1) * days = k * days + days := Nat.succ_mul k days
      simp only [DaysApart, microsPerDay] at *
      omega

theorem occurrences_daysApart (hsteady : q.start.zone.Steady) {days : Nat}
    (hq : ∀ k, slot? q.rule q.start k = daySlot? q.start days k) {os : List Occurrence}
    (h : q.occurrences = .ok os) : os.IsChain (DaysApart days) := by
  have hunskipped : ∀ k, slot? q.rule q.start k ≠ some .skipped := by
    intro k
    rw [hq]
    unfold daySlot?
    split
    · simp
    · simp
  obtain ⟨j, hconsecutive⟩ := walk_exists_consecutive hsteady hunskipped h
  exact hconsecutive.daysApart hq

end Query

open Query

/-- What every expansion of a rule looks like. -/
structure Shape (r : Rule) (start finish : Moment) (os : List Occurrence) : Prop where
  ascending : os.Pairwise (fun a b => a.start.wall.micros < b.start.wall.micros)
  instants : start.isFloating = false → os.Pairwise (fun a b => ∃ x y,
    a.start.instant? = some x ∧ b.start.instant? = some y ∧ x < y)
  zone : ∀ o ∈ os, o.start.zone = start.zone
  clock : ∀ o ∈ os, o.start.wall.hour = start.wall.hour ∧ o.start.wall.minute = start.wall.minute ∧
    o.start.wall.second = start.wall.second ∧ o.start.wall.subsecond = start.wall.subsecond
  lasting : ∀ o ∈ os, o.finish.sub o.start = finish.sub start
  daily : r.pattern = .daily → os.IsChain (DaysApart r.interval)
  weekly : r.pattern = .weekly [] → os.IsChain (DaysApart (7 * r.interval))

/-- In a zone whose clocks never lie a day apart. -/
theorem expansion_shape {r : Rule} {start finish first last : Moment} {os : List Occurrence}
    (hsteady : start.zone.Steady) (h : expand r start finish first last = .ok os) :
    Shape r start finish os := by
  obtain ⟨duration, hduration, hos⟩ := bind_eq_ok h
  have hthrough := walk_through hos
  constructor
  case ascending => exact hthrough.ascending_walls
  case instants => exact hthrough.ascending_instants hsteady
  case zone =>
    intro o ho
    obtain ⟨k, -, hshows⟩ := hthrough.shows ho
    exact hshows.zone
  case clock =>
    intro o ho
    obtain ⟨k, -, hshows⟩ := hthrough.shows ho
    have htime := slot?_timeOfDay hshows.held
    simp only [WallTime.hour, WallTime.minute, WallTime.second, WallTime.subsecond, htime, and_self]
  case lasting =>
    intro o ho
    obtain ⟨k, -, hshows⟩ := hthrough.shows ho
    rw [hduration]
    exact Moment.sub_of_add? hshows.finish
  case daily =>
    intro hr
    apply occurrences_daysApart hsteady _ hos
    simp [slot?, hr]
  case weekly =>
    intro hr
    apply occurrences_daysApart hsteady _ hos
    simp [slot?, hr]

/-- Every other day at half past nine in New York, over the days in which
summer time begins. -/
theorem shape_across_summer_time :
    let start : Moment := ⟨⟨63908472600000000, by decide, by decide⟩, .region .newYork, false⟩
    let finish : Moment := ⟨⟨63908476200000000, by decide, by decide⟩, .region .newYork, false⟩
    let first : Moment := ⟨⟨63908438400000000, by decide, by decide⟩, .region .newYork, false⟩
    let last : Moment := ⟨⟨63908784000000000, by decide, by decide⟩, .region .newYork, false⟩
    let start' : Moment := ⟨⟨63908645400000000, by decide, by decide⟩, .region .newYork, false⟩
    let finish' : Moment := ⟨⟨63908649000000000, by decide, by decide⟩, .region .newYork, false⟩
    let r : Rule := ⟨.daily, 2, by decide, .unbounded⟩
    start.zone.Steady ∧
      expand r start finish first last = .ok [⟨start, finish⟩, ⟨start', finish'⟩] ∧
      start'.distance? start = some (2 * microsPerDay) ∧
      start'.instant?.bind (fun y => start.instant?.map (y - ·)) =
        some (2 * microsPerDay - microsPerHour) ∧
      Shape r start finish [⟨start, finish⟩, ⟨start', finish'⟩] := by
  dsimp only
  have hsteady : (Zone.region .newYork).Steady := Region.steady_of_mem_all (by decide)
  suffices h : expand _ _ _ _ _ = .ok _ from
    ⟨hsteady, h, rfl, by decide, expansion_shape hsteady h⟩
  rfl

end Household.Expansion
