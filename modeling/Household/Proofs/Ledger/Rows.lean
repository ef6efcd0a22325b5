import Household.Ledger
import Household.Proofs.Calendar.Comparison
import Mathlib.Data.Set.Card

/-!
# Rows of the ledger

What one operation does to the row of a key: a record sets a stamp where there
is none, and a sweep removes the rows stamped before its cutoff, or none at
all where one of the stamps cannot be compared with it.
-/

set_option autoImplicit false

namespace Household

theorem Table.encard_keys {κ α : Type} [DecidableEq κ] (t : Table κ α) :
    {key | ∃ a, t.get? key = some a}.encard = t.size := by
  have hkeys : {key | ∃ a, t.get? key = some a} = ((t.entries.map Prod.fst).toFinset : Set κ) := by
    ext key
    simp [Table.find?_eq_some_iff]
  rw [hkeys, Set.encard_coe_eq_coe_finsetCard, List.toFinset_card_of_nodup t.nodup,
    List.length_map, Table.size]

namespace Ledger

open Household.Calendar

variable {l l' : Ledger} {key : Key} {now stamp cutoff : Moment}

theorem wasSent_eq_true_iff (l : Ledger) (key : Key) :
    l.wasSent key = true ↔ ∃ stamp, l.get? key = some stamp := Option.isSome_iff_exists

theorem wasSent_eq_false_iff (l : Ledger) (key : Key) :
    l.wasSent key = false ↔ l.get? key = none :=
  Option.isSome_eq_false_iff.trans Option.isNone_iff_eq_none

theorem get?_record (l : Ledger) (now : Moment) (key k : Key) :
    (l.record now key).get? k = if k = key ∧ l.get? k = none then some now else l.get? k := by
  unfold record
  by_cases hc : l.contains key = true
  · rw [if_pos hc]
    have hpresent : ¬(k = key ∧ l.get? k = none) := by
      rintro ⟨rfl, hnone⟩
      simp [Table.contains, hnone] at hc
    rw [if_neg hpresent]
  · rw [if_neg hc]
    by_cases hk : k = key
    · have hnone : l.get? k = none := by simpa [Table.contains, hk] using hc
      rw [if_pos ⟨hk, hnone⟩, hk, Table.get?_put_self]
    · rw [if_neg fun h => hk h.1, Table.get?_put_of_ne l now hk]

theorem wasSent_record (l : Ledger) (now : Moment) (key k : Key) :
    (l.record now key).wasSent k = true ↔ l.wasSent k = true ∨ k = key := by
  rw [wasSent_eq_true_iff, wasSent_eq_true_iff, get?_record]
  by_cases hk : k = key
  · cases hrow : l.get? k <;> simp [hk]
  · simp [hk]

/-! Sweeps -/

/-- Some stamp cannot be compared with the cutoff: one of the two floats and
the other does not. -/
def Mixes (l : Ledger) (cutoff : Moment) : Prop :=
  ∃ key stamp, l.get? key = some stamp ∧ stamp.isFloating ≠ cutoff.isFloating

theorem comparable_eq_false_iff (l : Ledger) (cutoff : Moment) :
    l.comparable cutoff = false ↔ l.Mixes cutoff := by
  have hmixed (stamp : Moment) :
      (stamp.distance? cutoff).isSome = false ↔ stamp.isFloating ≠ cutoff.isFloating := by
    rw [Option.isSome_eq_false_iff, Option.isNone_iff_eq_none]
    constructor
    · intro hnone h
      obtain ⟨d, hd⟩ := Moment.distance?_of_comparable h
      simp [hnone] at hd
    · intro h
      rw [Option.eq_none_iff_forall_ne_some]
      exact fun d hd => h (Moment.isFloating_eq_of_distance? hd)
  simp only [comparable, List.all_eq_false, Bool.not_eq_true, hmixed, Mixes,
    Table.find?_eq_some_iff, Prod.exists]

theorem isStale_iff : isStale cutoff stamp = true ↔ stamp.Precedes cutoff := by
  simp [isStale, Option.any_eq_true, Moment.Precedes]

theorem sweep_of_mixes (h : l.Mixes cutoff) : l.sweep cutoff = .error .mixedComparison := by
  rw [sweep, (comparable_eq_false_iff l cutoff).mpr h]
  rfl

theorem exists_sweep (h : ¬l.Mixes cutoff) : ∃ l', l.sweep cutoff = .ok l' := by
  rw [← comparable_eq_false_iff, Bool.not_eq_false] at h
  exact ⟨_, if_pos h⟩

theorem get?_of_sweep (h : l.sweep cutoff = .ok l') :
    l'.get? key = some stamp ↔ l.get? key = some stamp ∧ ¬stamp.Precedes cutoff := by
  unfold sweep at h
  split at h
  · obtain rfl := Except.ok.inj h
    rw [Table.get?_filter, Option.filter_eq_some_iff, Bool.not_eq_true', ← Bool.not_eq_true,
      isStale_iff]
  · simp at h

theorem size_of_sweep (h : l.sweep cutoff = .ok l') : l'.size + l.staleCount cutoff = l.size := by
  unfold sweep at h
  split at h
  · obtain rfl := Except.ok.inj h
    exact l.size_filter_not fun _ stamp => isStale cutoff stamp
  · simp at h

/-- A row is left by an event where it was there and no sweep reaches it, or
set by a record where there was none. -/
theorem get?_step (l : Ledger) (e : Moment × Op) (key : Key) (t : Moment) :
    (l.step e.1 e.2).2.get? key = some t ↔
      (l.get? key = some t ∧
        ∀ now cutoff, e = (now, .sweep cutoff) → l.Mixes cutoff ∨ ¬t.Precedes cutoff) ∨
      e = (t, .record key) ∧ l.get? key = none := by
  obtain ⟨now, op⟩ := e
  cases op with
  | wasSent k => simp [step]
  | record k =>
    simp only [step, get?_record]
    by_cases hfresh : key = k ∧ l.get? key = none
    · obtain ⟨rfl, hnone⟩ := hfresh
      simp [hnone]
    · rw [if_neg hfresh]
      simp only [Prod.mk.injEq, reduceCtorEq, and_false, false_implies, implies_true, and_true,
        Op.record.injEq]
      exact (or_iff_left fun h => hfresh ⟨h.1.2.symm, h.2⟩).symm
  | sweep cutoff =>
    by_cases hmixes : l.Mixes cutoff
    · simp +contextual [step, sweep_of_mixes hmixes, hmixes]
    · obtain ⟨l', hl'⟩ := exists_sweep hmixes
      simp [step, hl', get?_of_sweep hl', hmixes]

end Ledger

end Household
