import Household.Proofs.Throttle.Windows

/-!
# Counting by fixed windows

The times of the calls for a key can be cut into windows in one way only, and
the throttle counts by these windows without keeping them: of each window it
lets the first calls pass, as many as the limit says. Neither other keys nor
sweeps move a window.
-/

set_option autoImplicit false

namespace Household.Throttle

/-! Verdicts -/

theorem verdicts_eq (limit : Int) (k n : Nat) :
    verdicts limit k n = List.replicate (min n (limit - k).toNat) (.inl true) ++
      List.replicate (n - (limit - k).toNat) (.inl false) := by
  induction n generalizing k with
  | zero => simp [verdicts]
  | succ n ih =>
    rw [verdicts_succ, ih, verdict]
    by_cases hk : ((k + 1 : Nat) : Int) ≤ limit
    · have hleft : (limit - k).toNat = (limit - (k + 1 : Nat)).toNat + 1 := by omega
      rw [hleft, decide_eq_true hk, Nat.add_min_add_right, List.replicate_succ,
        Nat.add_sub_add_right]
      rfl
    · have hnone : (limit - (k + 1 : Nat)).toNat = 0 := by omega
      have hnone' : (limit - k).toNat = 0 := by omega
      rw [hnone, hnone', decide_eq_false hk, Nat.min_zero, Nat.min_zero, Nat.sub_zero,
        Nat.sub_zero, List.replicate_succ]
      rfl

/-! Windows -/

variable {τ : Type} [Add τ] [LinearOrder τ]

/-- Windows one after the other. Each is opened by its first call and holds the
later ones up to its closing; all calls after that are in the windows behind
it, so that the first of them opens the next one. -/
inductive Windowed (length : τ) : List (List τ) → Prop
  | nil : Windowed length []
  | cons {t : τ} {us : List τ} {ws : List (List τ)} : (∀ u ∈ us, u ≤ t + length) →
      (∀ v ∈ ws.flatten, t + length < v) → Windowed length ws → Windowed length ((t :: us) :: ws)

theorem windows_windowed (length : τ) {ts : List τ} (hts : ts.Pairwise (· ≤ ·)) :
    Windowed length (windows length ts) := by
  induction ts using windows.induct length with
  | case1 =>
    rw [windows]
    exact .nil
  | case2 t ts ih =>
    rw [List.pairwise_cons] at hts
    rw [windows]
    apply Windowed.cons
    · exact fun u hu => le_of_mem_upTo hu
    · intro v hv
      rw [windows_flatten] at hv
      exact lt_of_mem_past hts.2 hv
    · exact ih (hts.2.sublist (List.dropWhile_sublist _))

omit [Add τ] in
theorem upTo_append {closes : τ} {us vs : List τ} (hus : ∀ u ∈ us, u ≤ closes)
    (hvs : ∀ v ∈ vs, closes < v) :
    upTo closes (us ++ vs) = us ∧ past closes (us ++ vs) = vs := by
  induction us with
  | nil =>
    cases vs with
    | nil => exact ⟨rfl, rfl⟩
    | cons v vs =>
      have hv : ¬decide (v ≤ closes) = true := by simpa using hvs v List.mem_cons_self
      exact ⟨List.takeWhile_cons_of_neg hv, List.dropWhile_cons_of_neg hv⟩
  | cons u us ih =>
    rw [List.forall_mem_cons] at hus
    have hu : decide (u ≤ closes) = true := decide_eq_true hus.1
    obtain ⟨hupTo, hpast⟩ := ih hus.2
    constructor
    · rw [upTo, List.cons_append, List.takeWhile_cons, if_pos hu]
      exact congrArg (u :: ·) hupTo
    · rw [past, List.cons_append, List.dropWhile_cons, if_pos hu]
      exact hpast

/-- There is no other way to cut the calls into windows. -/
theorem Windowed.eq_windows {length : τ} {ws : List (List τ)} (h : Windowed length ws) :
    ws = windows length ws.flatten := by
  induction h with
  | nil => rw [List.flatten_nil, windows]
  | cons hus hws _ ih =>
    obtain ⟨hupTo, hpast⟩ := upTo_append hus hws
    rw [List.flatten_cons, List.cons_append, windows, hupTo, hpast, ← ih]

/-- Where all calls for a key have one limit and one length, they are answered
by the only windows into which they fall. -/
theorem counted_by_windows {key : String} {limit : Int} (hlimit : 1 ≤ limit) {length : τ}
    {ops : List (τ × Op τ)} (hclock : (ops.map Prod.fst).Pairwise (· ≤ ·))
    (hkey : ∀ op ∈ ops, op.2.isFor key = true → op.2 = .allow key limit length) :
    ∃ ws, Windowed length ws ∧ ws.flatten = timesFor key ops ∧
      (∀ ws', Windowed length ws' → ws'.flatten = timesFor key ops → ws' = ws) ∧
      answersFor .empty key ops = (callsAt key limit length (timesFor key ops)).zip
        (ws.flatMap (fun w => List.replicate (min w.length limit.toNat) (.inl true) ++
          List.replicate (w.length - limit.toNat) (.inl false))) := by
  refine ⟨windows length (timesFor key ops), windows_windowed length (timesFor_pairwise hclock),
    windows_flatten length _, ?_, ?_⟩
  · intro ws' hws' htimes
    rw [← htimes]
    exact hws'.eq_windows
  · have hverdicts (n : Nat) : verdicts limit 0 n =
        List.replicate (min n limit.toNat) (.inl true) ++
          List.replicate (n - limit.toNat) (.inl false) := by
      rw [verdicts_eq, Int.natCast_zero, Int.sub_zero]
    simp only [answersFor_eq_windows hlimit hclock hkey, hverdicts]

def busyKey : List (Int × Op Int) :=
  [(0, .allow "a" 2 10), (3, .allow "b" 1 4), (5, .allow "a" 2 10), (8, .sweep),
    (10, .allow "a" 2 10), (11, .allow "a" 2 10), (11, .allow "b" 1 4), (30, .sweep),
    (30, .allow "a" 2 10)]

theorem busy_key_counted :
    (1 : Int) ≤ 2 ∧ (busyKey.map Prod.fst).Pairwise (· ≤ ·) ∧
      (∀ op ∈ busyKey, op.2.isFor "a" = true → op.2 = .allow "a" 2 10) ∧
      Windowed (10 : Int) [[0, 5, 10], [11], [30]] ∧
      (answersFor .empty "a" busyKey).map Prod.snd =
        [.inl true, .inl true, .inl false, .inl true, .inl true] := by
  have hclock : (busyKey.map Prod.fst).Pairwise (· ≤ ·) := by decide
  have hkey : ∀ op ∈ busyKey, op.2.isFor "a" = true → op.2 = .allow "a" 2 10 := by
    simp [busyKey, Op.isFor]
  obtain ⟨ws, hws, htimes, honly, hanswers⟩ := counted_by_windows (by decide) hclock hkey
  have hwindowed : Windowed (10 : Int) [[0, 5, 10], [11], [30]] :=
    .cons (by decide) (by decide)
      (.cons (by decide) (by decide) (.cons (by decide) (by decide) .nil))
  have heq := honly _ hwindowed rfl
  refine ⟨by decide, hclock, hkey, hwindowed, ?_⟩
  rw [hanswers, ← heq]
  rfl

end Household.Throttle
