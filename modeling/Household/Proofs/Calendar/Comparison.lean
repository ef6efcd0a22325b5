import Household.Proofs.Calendar.Clocks

/-!
# Comparing moments

Two moments can be compared when both float or neither does. If the clocks of
a zone never lie as much as a day apart, then of two of its moments that are a
day apart by the wall clock the later one is later for everybody.
-/

set_option autoImplicit false

namespace Household.Calendar

theorem WallTime.date_eq_iff {w : WallTime} {d : Date} : w.date = d ↔
    (midnight d).micros ≤ w.micros ∧ w.micros < (midnight d).micros + microsPerDay := by
  have hw := w.nonneg
  rw [Date.ext_iff]
  simp only [date, midnight, microsPerDay]
  omega

namespace Moment

/-- `a` lies strictly before `b`; false where they cannot be compared. -/
def Precedes (a b : Moment) : Prop := ∃ d, a.distance? b = some d ∧ d < 0

instance (a b : Moment) : Decidable (a.Precedes b) :=
  decidable_of_iff (((a.distance? b).any (fun d => decide (d < 0))) = true) (by
    unfold Precedes
    cases a.distance? b <;> simp)

theorem isFloating_eq_false_iff (m : Moment) :
    m.isFloating = false ↔ ∃ n, m.instant? = some n := by
  obtain ⟨w, z, fold⟩ := m
  cases z with
  | floating => simp [isFloating, instant?, offset?, Zone.offset?]
  | fixed o => exact iff_of_true rfl ⟨_, rfl⟩
  | region r => exact iff_of_true rfl ⟨_, rfl⟩

theorem distance?_of_comparable {a b : Moment} (h : a.isFloating = b.isFloating) :
    ∃ d, a.distance? b = some d := by
  unfold distance?
  by_cases hz : a.zone = b.zone
  · exact ⟨_, if_pos hz⟩
  · rw [if_neg hz]
    cases ha : a.isFloating with
    | true =>
      have hb := h.symm.trans ha
      simp only [isFloating, beq_iff_eq] at ha hb
      exact absurd (ha.trans hb.symm) hz
    | false =>
      obtain ⟨x, hx⟩ := a.isFloating_eq_false_iff.mp ha
      obtain ⟨y, hy⟩ := b.isFloating_eq_false_iff.mp (h.symm.trans ha)
      exact ⟨x - y, by rw [hx, hy]⟩

theorem before_eq {a b : Moment} (h : a.isFloating = b.isFloating) :
    a.before b = .ok (decide (a.Precedes b)) := by
  obtain ⟨d, hd⟩ := distance?_of_comparable h
  simp [before, Precedes, hd]

theorem before_eq_ok {a b : Moment} {t : Bool} (h : a.before b = .ok t) :
    t = decide (a.Precedes b) := by
  unfold before at h
  split at h
  · rename_i d hd
    rw [Except.ok.injEq] at h
    rw [← h]
    simp [Precedes, hd]
  · simp at h

theorem isFloating_eq_of_distance? {a b : Moment} {d : Int} (h : a.distance? b = some d) :
    a.isFloating = b.isFloating := by
  unfold distance? at h
  by_cases hz : a.zone = b.zone
  · simp [isFloating, hz]
  · rw [if_neg hz] at h
    split at h
    · rename_i x y hx hy
      rw [a.isFloating_eq_false_iff.mpr ⟨x, hx⟩, b.isFloating_eq_false_iff.mpr ⟨y, hy⟩]
    · simp at h

theorem before_mixed {a b : Moment} (h : a.isFloating ≠ b.isFloating) :
    a.before b = .error .mixedComparison := by
  unfold before
  cases hd : a.distance? b with
  | none => rfl
  | some d => exact absurd (isFloating_eq_of_distance? hd) h

theorem precedes_iff_of_zone {a b : Moment} (h : a.zone = b.zone) :
    a.Precedes b ↔ a.wall.micros < b.wall.micros := by
  simp only [Precedes, distance?, if_pos h, Option.some.injEq]
  constructor
  · rintro ⟨d, rfl, hd⟩
    omega
  · intro hlt
    exact ⟨_, rfl, by omega⟩

/-- In the zone of `a`, at least a day after it. -/
structure DayAfter (b a : Moment) : Prop where
  zone : b.zone = a.zone
  wall : a.wall.micros + microsPerDay ≤ b.wall.micros

theorem DayAfter.instant?_lt {a b : Moment} (h : b.DayAfter a) (hz : a.zone.Steady) {x y : Int}
    (hx : a.instant? = some x) (hy : b.instant? = some y) : x < y := by
  simp only [instant?, offset?, Option.map_eq_some_iff] at hx hy
  obtain ⟨o, ho, rfl⟩ := hx
  obtain ⟨o', ho', rfl⟩ := hy
  rw [h.zone] at ho'
  have hoffset := hz _ _ _ _ _ _ ho ho'
  have hwall := h.wall
  omega

/-- Moving `a` on by a day or more moves it on from everything else. -/
theorem DayAfter.distance?_lt {a b c : Moment} (h : b.DayAfter a) (hz : a.zone.Steady)
    {d e : Int} (hd : a.distance? c = some d) (he : b.distance? c = some e) : d < e := by
  unfold distance? at hd he
  rw [h.zone] at he
  by_cases hc : a.zone = c.zone
  · rw [if_pos hc, Option.some.injEq] at hd he
    have hwall := h.wall
    simp only [microsPerDay] at hwall
    omega
  · rw [if_neg hc] at hd he
    split at hd
    · rename_i x z hx hz'
      split at he
      · rename_i y z'' hy hz''
        rw [hz', Option.some.injEq] at hz''
        have hlt := h.instant?_lt hz hx hy
        simp only [Option.some.injEq] at hd he
        omega
      · simp at he
    · simp at hd

theorem DayAfter.isFloating {a b : Moment} (h : b.DayAfter a) : b.isFloating = a.isFloating := by
  simp [Moment.isFloating, h.zone]

theorem DayAfter.precedes_of_precedes {a b c : Moment} (h : b.DayAfter a) (hz : a.zone.Steady)
    (hb : b.Precedes c) : a.Precedes c := by
  obtain ⟨e, he, hneg⟩ := hb
  obtain ⟨d, hd⟩ := distance?_of_comparable (h.isFloating.symm.trans (isFloating_eq_of_distance? he))
  exact ⟨d, hd, by have := h.distance?_lt hz hd he; omega⟩

theorem distance?_swap {a b : Moment} {d : Int} (h : a.distance? b = some d) :
    b.distance? a = some (-d) := by
  unfold distance? at h ⊢
  by_cases hz : a.zone = b.zone
  · rw [if_pos hz, Option.some.injEq] at h
    rw [if_pos hz.symm, ← h]
    congr 1
    omega
  · rw [if_neg hz] at h
    rw [if_neg (fun e => hz e.symm)]
    cases ha : a.instant? <;> cases hb : b.instant? <;> simp_all
    omega

theorem DayAfter.preceded_of_preceded {a b c : Moment} (h : b.DayAfter a) (hz : a.zone.Steady)
    (ha : c.Precedes a) : c.Precedes b := by
  obtain ⟨d, hd, hneg⟩ := ha
  have had := distance?_swap hd
  obtain ⟨e, he⟩ := distance?_of_comparable (h.isFloating.trans (isFloating_eq_of_distance? had))
  exact ⟨-e, distance?_swap he, by have := h.distance?_lt hz had he; omega⟩

theorem add?_eq_some {m n : Moment} {d : Int} (h : m.add? d = some n) :
    n.wall.micros = m.wall.micros + d ∧ n.zone = m.zone := by
  simp only [add?, WallTime.add?, WallTime.ofMicros?, Option.map_eq_some_iff] at h
  obtain ⟨w, hw, rfl⟩ := h
  split at hw
  · rw [Option.some.injEq] at hw
    exact ⟨by rw [← hw], rfl⟩
  · simp at hw

theorem add?_eq_none_iff {m : Moment} {d : Int} (hd : 0 ≤ d) :
    m.add? d = none ↔ wallLimit ≤ m.wall.micros + d := by
  have h0 := m.wall.nonneg
  simp only [add?, WallTime.add?, WallTime.ofMicros?, Option.map_eq_none_iff]
  split <;> simp only [reduceCtorEq, false_iff, true_iff] <;> omega

theorem exists_add? {m : Moment} {d : Int} (hd : 0 ≤ d) (h : m.wall.micros + d < wallLimit) :
    ∃ n, m.add? d = some n := by
  cases hadd : m.add? d with
  | none => exact absurd ((add?_eq_none_iff hd).mp hadd) (Int.not_le.mpr h)
  | some n => exact ⟨n, rfl⟩

theorem add_eq_ok {m n : Moment} {d : Int} (h : m.add? d = some n) : m.add d = .ok n := by
  simp only [add, h]

theorem add?_of_add? {m n : Moment} {d : Int} (h : m.add? d = some n) (e : Int) :
    n.add? e = m.add? (d + e) := by
  obtain ⟨hwall, hzone⟩ := add?_eq_some h
  simp only [add?, WallTime.add?, hwall, hzone, Int.add_assoc]

theorem sub_of_add? {m n : Moment} {d : Int} (h : m.add? d = some n) : n.sub m = .ok d := by
  obtain ⟨hwall, hzone⟩ := add?_eq_some h
  have hdiff : m.wall.micros + d - m.wall.micros = d := by omega
  simp only [sub, distance?, if_pos hzone, hwall, hdiff]

theorem isFloating_of_zone {a b : Moment} (h : a.zone = b.zone) : a.isFloating = b.isFloating := by
  simp [isFloating, h]

theorem DayAfter.add?_eq_none {a b : Moment} (h : b.DayAfter a) {d : Int} (hd : 0 ≤ d)
    (ha : a.add? d = none) : b.add? d = none := by
  rw [add?_eq_none_iff hd] at ha ⊢
  have hwall := h.wall
  simp only [microsPerDay] at hwall
  omega

theorem DayAfter.add? {a b a' b' : Moment} {d : Int} (h : b.DayAfter a) (ha : a.add? d = some a')
    (hb : b.add? d = some b') : b'.DayAfter a' := by
  obtain ⟨hwall, hzone⟩ := add?_eq_some ha
  obtain ⟨hwall', hzone'⟩ := add?_eq_some hb
  refine ⟨hzone'.trans (h.zone.trans hzone.symm), ?_⟩
  have hday := h.wall
  rw [hwall, hwall']
  omega

theorem dayAfter_onDate (m : Moment) {d e : Date} (h : d.number < e.number) :
    (m.onDate e).DayAfter (m.onDate d) := by
  refine ⟨rfl, ?_⟩
  simp only [onDate, WallTime.onDate, microsPerDay]
  omega

@[simp] theorem onDate_date (m : Moment) : m.onDate m.date = m := by
  simp [onDate, date]

@[simp] theorem date_onDate (m : Moment) (d : Date) : (m.onDate d).date = d :=
  WallTime.date_onDate m.wall d

@[simp] theorem onDate_onDate (m : Moment) (d e : Date) : (m.onDate d).onDate e = m.onDate e := by
  have hwall : (m.wall.onDate d).onDate e = m.wall.onDate e := by
    ext
    exact congrArg (e.number * microsPerDay + ·) (WallTime.timeOfDay_onDate m.wall d)
  simp only [onDate, hwall]

theorem date_le {m n : Moment} (h : m.wall.micros ≤ n.wall.micros) : m.date ≤ n.date := by
  show (m.wall.micros / microsPerDay).toNat ≤ (n.wall.micros / microsPerDay).toNat
  simp only [microsPerDay]
  omega

theorem date_eq_iff {m n : Moment} : m.date = n.date ↔
    n.startOfDay.wall.micros ≤ m.wall.micros ∧
      m.wall.micros < n.startOfDay.wall.micros + microsPerDay :=
  WallTime.date_eq_iff

end Moment

end Household.Calendar
