import Household.Throttle
import Mathlib.Algebra.Order.Ring.Int

/-!
# Keys among themselves

What the calls for a key are answered depends on these calls alone. Other
keys have windows of their own, and a sweep forgets only windows into which no
later call falls, as long as the clock does not go back.
-/

set_option autoImplicit false

namespace Household.Throttle

variable {τ : Type}

def Op.isFor (key : String) : Op τ → Bool
  | .allow k _ _ => k == key
  | .sweep => false

section

variable [LT τ] [DecidableLT τ] (t : Throttle τ)

theorem open?_put_self (now : τ) (key : String) (w : Window τ) :
    open? (t.put key w) now key = if w.closes < now then none else some w := by
  simp [open?]

theorem open?_put_of_ne (now : τ) {key k : String} (w : Window τ) (h : key ≠ k) :
    open? (t.put k w) now key = t.open? now key := by
  simp only [open?, Table.get?_put_of_ne t w h]

variable [Add τ]

theorem open?_allow_of_ne (now later : τ) {key k : String} (limit : Int) (length : τ)
    (h : key ≠ k) : (t.allow now k limit length).2.open? later key = t.open? later key := by
  unfold allow
  split
  · exact open?_put_of_ne t later _ h
  · exact open?_put_of_ne t later _ h

theorem answers_length (ops : List (τ × Op τ)) : (t.answers ops).length = ops.length := by
  induction ops generalizing t with
  | nil => rfl
  | cons op ops ih => exact congrArg (· + 1) (ih _)

def answersFor (key : String) (ops : List (τ × Op τ)) : List ((τ × Op τ) × (Bool ⊕ Nat)) :=
  (ops.zip (t.answers ops)).filter (fun x => x.1.2.isFor key)

end

variable [Preorder τ] [DecidableLT τ] {t u : Throttle τ} {key : String} {now : τ}

/-- A window that a sweep forgets has closed for every later call. -/
theorem open?_sweep (t : Throttle τ) (key : String) {later : τ} (h : now ≤ later) :
    (t.sweep now).open? later key = t.open? later key := by
  unfold open? sweep
  rw [Table.get?_filter]
  cases t.get? key with
  | none => rfl
  | some w =>
    by_cases hclosed : w.closes < now
    · have hlater : w.closes < later := lt_of_lt_of_le hclosed h
      simp [Option.filter, hclosed, hlater]
    · simp [Option.filter, hclosed]

theorem size_sweep (t : Throttle τ) (now : τ) :
    (t.sweep now).size + t.closedCount now = t.size :=
  t.size_filter_not fun _ w => decide (w.closes < now)

/-- To calls for the key from `now` on the two throttles are one. -/
def Alike (key : String) (now : τ) (t u : Throttle τ) : Prop :=
  ∀ later, now ≤ later → t.open? later key = u.open? later key

theorem Alike.later {later : τ} (h : Alike key now t u) (hle : now ≤ later) :
    Alike key later t u :=
  fun last hlast => h last (le_trans hle hlast)

variable [Add τ]

theorem Alike.step_of_other (h : Alike key now t u) {op : Op τ} (hop : op.isFor key = false) :
    Alike key now (t.step now op).2 u := by
  intro later hlater
  rw [← h later hlater]
  cases op with
  | allow k limit length =>
    have hne : key ≠ k := fun e => by simp [Op.isFor, e] at hop
    exact open?_allow_of_ne t now later limit length hne
  | sweep => exact open?_sweep t key hlater

/-- A call for the key leaves one window under it, whatever else there is. -/
theorem Alike.step_of_own (h : Alike key now t u) {op : Op τ} (hop : op.isFor key = true) :
    (t.step now op).1 = (u.step now op).1 ∧ Alike key now (t.step now op).2 (u.step now op).2 := by
  cases op with
  | sweep => simp [Op.isFor] at hop
  | allow k limit length =>
    obtain rfl : k = key := by simpa [Op.isFor] using hop
    have hopen := h now (le_refl now)
    simp only [step, allow]
    rw [hopen]
    cases u.open? now k with
    | none =>
      refine ⟨rfl, fun later _ => ?_⟩
      rw [open?_put_self, open?_put_self]
    | some w =>
      refine ⟨rfl, fun later _ => ?_⟩
      rw [open?_put_self, open?_put_self]

theorem Alike.zip_filter (h : Alike key now t u) {ops : List (τ × Op τ)}
    (hfrom : ∀ op ∈ ops, now ≤ op.1) (hclock : (ops.map Prod.fst).Pairwise (· ≤ ·)) :
    t.answersFor key ops =
      (ops.filter (fun op => op.2.isFor key)).zip
        (u.answers (ops.filter (fun op => op.2.isFor key))) := by
  induction ops generalizing t u now with
  | nil => rfl
  | cons op ops ih =>
    obtain ⟨time, op⟩ := op
    rw [List.map_cons, List.pairwise_cons, List.forall_mem_map] at hclock
    obtain ⟨hrest, hclock⟩ := hclock
    have hnow : Alike key time t u := h.later (hfrom _ List.mem_cons_self)
    unfold answersFor at ih ⊢
    rw [answers, List.zip_cons_cons]
    by_cases hop : op.isFor key = true
    · obtain ⟨hanswer, hafter⟩ := hnow.step_of_own hop
      simp only [List.filter_cons, hop, if_true, answers, List.zip_cons_cons]
      rw [hanswer, ih hafter hrest hclock]
    · have hother := eq_false_of_ne_true hop
      simp only [List.filter_cons, hother, Bool.false_eq_true, if_false]
      exact ih (hnow.step_of_other hother) hrest hclock

theorem answersFor_eq_zip (t : Throttle τ) (key : String) {ops : List (τ × Op τ)}
    (hclock : (ops.map Prod.fst).Pairwise (· ≤ ·)) :
    t.answersFor key ops =
      (ops.filter (fun op => op.2.isFor key)).zip
        (t.answers (ops.filter (fun op => op.2.isFor key))) := by
  cases ops with
  | nil => rfl
  | cons op ops =>
    have hsame : Alike key op.1 t t := fun _ _ => rfl
    apply hsame.zip_filter _ hclock
    rw [List.map_cons, List.pairwise_cons, List.forall_mem_map] at hclock
    exact List.forall_mem_cons.mpr ⟨le_refl _, hclock.1⟩

/-- Each call for the key is answered as if there were no other keys and no
sweeps. -/
theorem answersFor_alone (t : Throttle τ) (key : String) (ops : List (τ × Op τ))
    (hclock : (ops.map Prod.fst).Pairwise (· ≤ ·)) :
    (t.answersFor key ops).map Prod.fst = ops.filter (fun op => op.2.isFor key) ∧
      (t.answersFor key ops).map Prod.snd = t.answers (ops.filter (fun op => op.2.isFor key)) := by
  have hlength := t.answers_length (ops.filter (fun op => op.2.isFor key))
  rw [answersFor_eq_zip t key hclock]
  constructor
  · exact List.map_fst_zip (Nat.le_of_eq hlength.symm)
  · exact List.map_snd_zip (Nat.le_of_eq hlength)

/-- Calls for two keys, and a sweep when the first window of either has closed. -/
def twoKeys : List (Int × Op Int) :=
  [(0, .allow "a" 1 10), (1, .allow "b" 5 2), (5, .allow "a" 1 10), (11, .sweep),
    (11, .allow "a" 1 10)]

theorem two_keys_apart :
    (twoKeys.map Prod.fst).Pairwise (· ≤ ·) ∧
      (answersFor .empty "a" twoKeys).map Prod.snd =
        answers .empty (twoKeys.filter (fun op => op.2.isFor "a")) ∧
      answers .empty (twoKeys.filter (fun op => op.2.isFor "a")) =
        [.inl true, .inl false, .inl true] := by
  have hclock : (twoKeys.map Prod.fst).Pairwise (· ≤ ·) := by decide
  exact ⟨hclock, (answersFor_alone .empty "a" twoKeys hclock).2, rfl⟩

end Household.Throttle
