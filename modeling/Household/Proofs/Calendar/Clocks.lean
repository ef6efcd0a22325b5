import Household.Calendar.Moment

/-!
# The clocks of zones

How far a wall clock runs ahead is told by the data of its zone, whatever they
are: there is a region for every way in which clocks may go. What is needed of
a zone to put its moments in order by their instants is that its offsets lie
within less than a day of each other.
-/

set_option autoImplicit false

namespace Household.Calendar

/-- No two offsets of the zone are a day or more apart. -/
def Zone.Steady (z : Zone) : Prop :=
  ∀ w w' fold fold' o o', z.offset? w fold = some o → z.offset? w' fold' = some o' →
    o' < o + microsPerDay

theorem Zone.steady_floating : Zone.floating.Steady := by
  intro w w' fold fold' o o' h
  simp [offset?] at h

theorem Zone.steady_fixed (offset : Int) : (Zone.fixed offset).Steady := by
  intro w w' fold fold' o o' h h'
  simp only [offset?, Option.some.injEq] at h h'
  simp only [microsPerDay]
  omega

namespace Region

/-- Less than a day above the lowest offset. -/
structure Within (r : Region) (lowest : Int) : Prop where
  history : ∀ s ∈ r.history, lowest ≤ s.offset ∧ s.offset < lowest + microsPerDay
  standard : lowest ≤ r.standard ∧ r.standard < lowest + microsPerDay
  summer : ∀ s ∈ r.summer, lowest ≤ r.standard + s.saving ∧
    r.standard + s.saving < lowest + microsPerDay

theorem Within.offset {r : Region} {lowest : Int} (h : r.Within lowest) (w : WallTime)
    (fold : Bool) : lowest ≤ r.offset w fold ∧ r.offset w fold < lowest + microsPerDay := by
  unfold Region.offset
  split
  · rename_i s hs
    exact h.history s (List.mem_of_find?_eq_some hs)
  · split
    · exact h.standard
    · rename_i s hs
      split
      · exact h.summer s hs
      · exact h.standard

theorem Within.steady {r : Region} {lowest : Int} (h : r.Within lowest) :
    (Zone.region r).Steady := by
  intro w w' fold fold' o o' ho ho'
  simp only [Zone.offset?, Option.some.injEq] at ho ho'
  have hlow := (h.offset w fold).1
  have hhigh := (h.offset w' fold').2
  omega

/-- London from 25 February 1940 on, with the double summer time of 1941. -/
example : Within ⟨"Europe/London",
    [⟨61193588400 * 1000000, 61193584800 * 1000000, 0⟩,
      ⟨61231086000 * 1000000, 61231082400 * 1000000, microsPerHour⟩,
      ⟨61239553200 * 1000000, 61239549600 * 1000000, 2 * microsPerHour⟩],
    0, london.summer⟩ 0 := ⟨by decide, by decide, by decide⟩

theorem steady_of_mem_all {r : Region} (h : r ∈ all) : (Zone.region r).Steady := by
  have hwithin : r.Within r.standard := by
    simp only [all, List.mem_cons, List.not_mem_nil, or_false] at h
    rcases h with rfl | rfl | rfl | rfl <;>
      exact ⟨by decide, by decide, by decide⟩
  exact hwithin.steady

/-! Any clocks -/

def reading (clock : WallTime → Bool → Int) (fold : Bool) (n : Nat) : Int :=
  ((WallTime.ofMicros? n).map (clock · fold)).getD 0

/-- A record that gives each of the first points of the wall clock a time of its own. -/
def recorded (clock : WallTime → Bool → Int) (limit : Nat) : List Span :=
  (List.range limit).map (fun n => ⟨n + 1, 0, reading clock false n⟩) ++
    (List.range limit).map (fun n => ⟨0, n + 1, reading clock true n⟩)

theorem find?_range_lt {x : Int} {limit : Nat} (h0 : 0 ≤ x) (hx : x < limit) :
    (List.range limit).find? (fun n : Nat => decide (x < (n : Int) + 1)) = some x.toNat := by
  rw [List.find?_range_eq_some]
  refine ⟨?_, ?_, ?_⟩
  · simp only [decide_eq_true_eq]
    omega
  · rw [List.mem_range]
    omega
  · intro j hj
    simp only [Bool.not_eq_true', decide_eq_false_iff_not]
    omega

theorem find?_recorded (clock : WallTime → Bool → Int) {limit : Nat} {w : WallTime}
    (hw : w.micros < limit) (fold : Bool) :
    ((recorded clock limit).find? (fun s => s.covers w fold)).map (·.offset) =
      some (clock w fold) := by
  have hnonneg := w.nonneg
  have hfind := find?_range_lt hnonneg hw
  have hnone : ¬w.micros < 0 := Int.not_lt.mpr hnonneg
  have hreading : reading clock fold w.micros.toNat = clock w fold := by
    have hmicros : WallTime.ofMicros? w.micros = some w := dif_pos ⟨hnonneg, w.lt_limit⟩
    rw [reading, Int.toNat_of_nonneg hnonneg, hmicros]
    rfl
  have hpassed : (List.range limit).find? (fun _ => decide (w.micros < 0)) = none :=
    List.find?_eq_none.mpr fun _ _ => by simp [hnone]
  unfold recorded
  rw [List.find?_append, List.find?_map, List.find?_map]
  cases fold with
  | false =>
    have hhere : (List.range limit).find?
        ((fun s : Span => s.covers w false) ∘ fun n : Nat => ⟨n + 1, 0, reading clock false n⟩) =
          some w.micros.toNat := hfind
    rw [hhere, Option.map_some, Option.some_or, Option.map_some, hreading]
  | true =>
    have hbefore : (List.range limit).find?
        ((fun s : Span => s.covers w true) ∘ fun n : Nat => ⟨n + 1, 0, reading clock false n⟩) =
          none := hpassed
    have hhere : (List.range limit).find?
        ((fun s : Span => s.covers w true) ∘ fun n : Nat => ⟨0, n + 1, reading clock true n⟩) =
          some w.micros.toNat := hfind
    rw [hbefore, hhere, Option.map_none, Option.none_or, Option.map_some, Option.map_some, hreading]

/-- Nothing is asked of the clocks of a region: any offsets are those of some region. -/
theorem exists_region (name : String) (clock : WallTime → Bool → Int) :
    ∃ r : Region, r.name = name ∧ ∀ w fold, r.offset w fold = clock w fold := by
  obtain ⟨limit, hlimit⟩ := Int.eq_ofNat_of_zero_le (a := wallLimit) (by decide)
  refine ⟨⟨name, recorded clock limit, 0, none⟩, rfl, ?_⟩
  intro w fold
  have hw := w.lt_limit
  rw [hlimit] at hw
  obtain ⟨s, hs, hoffset⟩ := Option.map_eq_some_iff.mp (find?_recorded clock hw fold)
  simp only [Region.offset, hs, hoffset]

end Region

end Household.Calendar
