import Household.Proofs.Ledger.Rows
import Household.Proofs.Lists
import Mathlib.Data.List.Induction

/-!
# The ledger and its history

The rows of the ledger are told by what was asked of it, under whatever
readings of the clock. A key has a row when it was recorded and no sweep since
then had a cutoff after the first of these records; sweeps that fail count for
nothing.
-/

set_option autoImplicit false

namespace Household.Ledger

open Household.Calendar

abbrev History := List (Moment × Op)

/-- The key that an operation is about; a sweep is about all of them. -/
def Op.key? : Op → Option Key
  | .wasSent key => some key
  | .record key => some key
  | .sweep _ => none

def ofHistory (es : History) : Ledger := Ledger.run Table.empty es

variable {es : History} {e : Moment × Op} {key : Key} {t : Moment}

theorem run_append (l : Ledger) (es rest : History) : l.run (es ++ rest) = (l.run es).run rest := by
  induction es generalizing l with
  | nil => rfl
  | cons e es ih => exact ih _

theorem ofHistory_concat (es : History) (e : Moment × Op) :
    ofHistory (es ++ [e]) = ((ofHistory es).step e.1 e.2).2 := run_append _ es [e]

/-! What the history says of a key -/

def Removes (es : History) (e : Moment × Op) (key : Key) : Prop :=
  (ofHistory es).wasSent key = true ∧ (ofHistory (es ++ [e])).wasSent key = false

/-- The key has not been recorded since its row was last removed: after each
of its records there was a removal. -/
def Lapsed (es : History) (key : Key) : Prop :=
  ∀ first now rest, es = first ++ (now, .record key) :: rest →
    ∃ mid e last, rest = mid ++ e :: last ∧ Removes (first ++ (now, .record key) :: mid) e key

/-- No sweep that went through in `rest`, which came after `es`, had a cutoff
strictly after `t`. -/
def Spared (es rest : History) (t : Moment) : Prop :=
  ∀ mid now cutoff last, rest = mid ++ (now, .sweep cutoff) :: last →
    (ofHistory (es ++ mid)).Mixes cutoff ∨ ¬t.Precedes cutoff

/-- At `t` the key was first recorded since its row was last removed, and no
sweep has reached the row since. -/
def Stands (es : History) (key : Key) (t : Moment) : Prop :=
  ∃ first rest, es = first ++ (t, .record key) :: rest ∧ Lapsed first key ∧
    Spared (first ++ [(t, .record key)]) rest t

/-! Histories by their last events -/

theorem wasSent_concat (h : (ofHistory (es ++ [e])).wasSent key = true) :
    (ofHistory es).wasSent key = true ∨ ∃ now, e = (now, .record key) := by
  rw [wasSent_eq_true_iff] at h ⊢
  obtain ⟨t, ht⟩ := h
  rw [ofHistory_concat, get?_step] at ht
  rcases ht with ⟨hrow, -⟩ | ⟨he, -⟩
  · exact .inl ⟨t, hrow⟩
  · exact .inr ⟨t, he⟩

theorem wasSent_concat_record (es : History) (now : Moment) (key : Key) :
    (ofHistory (es ++ [(now, .record key)])).wasSent key = true := by
  rw [ofHistory_concat]
  exact (wasSent_record _ now key key).mpr (.inr rfl)

theorem spared_concat {rest : History} : Spared es (rest ++ [e]) t ↔
    Spared es rest t ∧ ∀ now cutoff, e = (now, .sweep cutoff) →
      (ofHistory (es ++ rest)).Mixes cutoff ∨ ¬t.Precedes cutoff := by
  constructor
  · intro h
    constructor
    · rintro mid now cutoff last rfl
      exact h mid now cutoff (last ++ [e]) (by simp)
    · rintro now cutoff rfl
      exact h rest now cutoff [] rfl
  · rintro ⟨hrest, hlast⟩ mid now cutoff last heq
    rcases concat_eq_append_cons.mp heq with ⟨rfl, he, -⟩ | ⟨last', -, hsplit⟩
    · exact hlast now cutoff he
    · exact hrest mid now cutoff last' hsplit

theorem lapsed_iff (es : History) (key : Key) :
    Lapsed es key ↔ (ofHistory es).wasSent key = false := by
  induction es using List.reverseRecOn with
  | nil => exact iff_of_true (fun first now rest h => by simp at h) rfl
  | append_singleton es e ih =>
    constructor
    · intro h
      by_contra hrow
      rw [Bool.not_eq_false] at hrow
      -- the last record, which no removal follows
      rcases wasSent_concat hrow with hbefore | ⟨now, rfl⟩
      · have hlapsed : Lapsed es key := by
          rintro first now rest rfl
          obtain ⟨mid, e', last, hsplit, hremoves⟩ := h first now (rest ++ [e]) (by simp)
          rcases concat_eq_append_cons.mp hsplit with ⟨rfl, rfl, -⟩ | ⟨last', -, hrest⟩
          · exact absurd (hremoves.2.symm.trans hrow) Bool.false_ne_true
          · exact ⟨mid, e', last', hrest, hremoves⟩
        rw [ih.mp hlapsed] at hbefore
        exact absurd hbefore Bool.false_ne_true
      · obtain ⟨mid, e', last, hsplit, -⟩ := h es now [] rfl
        simp at hsplit
    · rintro hrow first now rest heq
      rcases concat_eq_append_cons.mp heq with ⟨rfl, rfl, -⟩ | ⟨rest, rfl, rfl⟩
      · rw [wasSent_concat_record] at hrow
        cases hrow
      · cases hbefore : (ofHistory (first ++ (now, .record key) :: rest)).wasSent key with
        | true => exact ⟨rest, e, [], rfl, hbefore, by simpa using hrow⟩
        | false =>
          obtain ⟨mid, e', last, rfl, hremoves⟩ := ih.mpr hbefore first now rest rfl
          exact ⟨mid, e', last ++ [e], by simp, hremoves⟩

theorem stands_concat : Stands (es ++ [e]) key t ↔
    (Stands es key t ∧ ∀ now cutoff, e = (now, .sweep cutoff) →
      (ofHistory es).Mixes cutoff ∨ ¬t.Precedes cutoff) ∨
    e = (t, .record key) ∧ Lapsed es key := by
  constructor
  · rintro ⟨first, rest, heq, hlapsed, hspared⟩
    rcases concat_eq_append_cons.mp heq with ⟨rfl, he, -⟩ | ⟨rest, rfl, rfl⟩
    · exact .inr ⟨he, hlapsed⟩
    · obtain ⟨hspared, hlast⟩ := spared_concat.mp hspared
      refine .inl ⟨⟨first, rest, rfl, hlapsed, hspared⟩, ?_⟩
      simpa using hlast
  · rintro (⟨⟨first, rest, rfl, hlapsed, hspared⟩, hlast⟩ | ⟨rfl, hlapsed⟩)
    · refine ⟨first, rest ++ [e], by simp, hlapsed, spared_concat.mpr ⟨hspared, ?_⟩⟩
      simpa using hlast
    · refine ⟨es, [], rfl, hlapsed, ?_⟩
      rintro mid now cutoff last hnone
      simp at hnone

theorem get?_ofHistory (es : History) (key : Key) (t : Moment) :
    (ofHistory es).get? key = some t ↔ Stands es key t := by
  induction es using List.reverseRecOn generalizing t with
  | nil =>
    refine iff_of_false (by simp [ofHistory, run]) ?_
    rintro ⟨first, rest, h, -⟩
    simp at h
  | append_singleton es e ih =>
    rw [ofHistory_concat, get?_step, stands_concat, ih, lapsed_iff, wasSent_eq_false_iff]

/-! The ledger of a history -/

/-- What a sweep after the history does: it fails and leaves everything as it
is, or removes the rows stamped before its cutoff and answers how many. -/
inductive Sweeps (l : Ledger) (cutoff : Moment) : Except CalendarError Reply × Ledger → Prop
  | fails : l.Mixes cutoff → Sweeps l cutoff (.error .mixedComparison, l)
  | removes {l' : Ledger} {n : Nat} : ¬l.Mixes cutoff → l'.size + n = l.size →
      (∀ key t, l'.get? key = some t ↔ l.get? key = some t ∧ ¬t.Precedes cutoff) →
      Sweeps l cutoff (.ok (.removed n), l')

structure Determines (es : History) (l : Ledger) : Prop where
  answers : ∀ now key, ∃ sent, l.step now (.wasSent key) = (.ok (.sent sent), l) ∧
    (sent = true ↔ ∃ t, Stands es key t)
  stamps : ∀ key t, l.get? key = some t ↔ Stands es key t
  counts : {key | ∃ t, Stands es key t}.encard = l.size
  sweeps : ∀ now cutoff, Sweeps l cutoff (l.step now (.sweep cutoff))
  keeps : ∀ now key t, l.get? key = some t → (l.step now (.record key)).2.get? key = some t
  apart : ∀ now op key k, op.key? = some k → key ≠ k → (l.step now op).2.get? key = l.get? key

theorem step_sweeps (l : Ledger) (now cutoff : Moment) :
    Sweeps l cutoff (l.step now (.sweep cutoff)) := by
  by_cases hmixes : l.Mixes cutoff
  · rw [step, sweep_of_mixes hmixes]
    exact .fails hmixes
  · obtain ⟨l', hl'⟩ := exists_sweep hmixes
    simp only [step, hl']
    exact .removes hmixes (size_of_sweep hl') fun _ _ => get?_of_sweep hl'

theorem get?_step_apart (l : Ledger) (now : Moment) {op : Op} {key k : Key} (hop : op.key? = some k)
    (hne : key ≠ k) : (l.step now op).2.get? key = l.get? key := by
  cases op with
  | wasSent k' => rfl
  | record k' =>
    obtain rfl := Option.some.inj hop
    exact (get?_record l now k' key).trans (if_neg fun h => hne h.1)
  | sweep cutoff => simp [Op.key?] at hop

theorem history_determines (es : History) : Determines es (ofHistory es) where
  answers now key := by
    refine ⟨(ofHistory es).wasSent key, rfl, ?_⟩
    simp only [wasSent_eq_true_iff, get?_ofHistory]
  stamps := get?_ofHistory es
  counts := by simpa only [get?_ofHistory] using (ofHistory es).encard_keys
  sweeps := step_sweeps _
  keeps now key t h := by
    simp [step, get?_record, h]
  apart now op key k hop hne := get?_step_apart _ now hop hne

end Household.Ledger
