import Household.Proofs.Throttle.Isolation
import Mathlib.Algebra.Order.Monoid.Defs
import Mathlib.Data.List.TakeWhile

/-!
# Windows of a history

The calls for one key, all with one limit and one length, fall into windows.
Each is opened by the first call after the one before it has closed, and in
each the first calls pass, as many as the limit says. No stretch of time as
long as a window meets three of them.
-/

set_option autoImplicit false

namespace Household.Throttle

variable {τ : Type}

def callsAt (key : String) (limit : Int) (length : τ) (ts : List τ) : List (τ × Op τ) :=
  ts.map (fun t => (t, .allow key limit length))

def verdict (limit : Int) (i : Nat) : Bool ⊕ Nat := .inl (decide ((i : Int) ≤ limit))

/-- The answers to `n` calls of one window, after `k` others. -/
def verdicts (limit : Int) (k n : Nat) : List (Bool ⊕ Nat) :=
  (List.range' (k + 1) n).map (verdict limit)

def passed (xs : List ((τ × Op τ) × (Bool ⊕ Nat))) : List τ :=
  xs.filterMap (fun x => if x.2 = .inl true then some x.1.1 else none)

section

variable (key : String) (limit : Int) (length : τ)

theorem callsAt_append (ts us : List τ) :
    callsAt key limit length (ts ++ us) =
      callsAt key limit length ts ++ callsAt key limit length us := List.map_append

theorem callsAt_length (ts : List τ) : (callsAt key limit length ts).length = ts.length :=
  List.length_map _

theorem filter_isFor_eq_callsAt {ops : List (τ × Op τ)}
    (hkey : ∀ op ∈ ops, op.2.isFor key = true → op.2 = .allow key limit length) :
    ops.filter (fun op => op.2.isFor key) =
      callsAt key limit length ((ops.filter (fun op => op.2.isFor key)).map Prod.fst) := by
  rw [callsAt, List.map_map]
  symm
  calc
    _ = (ops.filter (fun op => op.2.isFor key)).map id := by
      apply List.map_congr_left
      intro op hop
      have hop := List.mem_filter.mp hop
      rw [Function.comp_apply, ← hkey op hop.1 hop.2]
      rfl
    _ = ops.filter (fun op => op.2.isFor key) := List.map_id _

theorem verdicts_succ (k n : Nat) :
    verdicts limit k (n + 1) = verdict limit (k + 1) :: verdicts limit (k + 1) n := rfl

theorem verdicts_length (k n : Nat) : (verdicts limit k n).length = n := by simp [verdicts]

theorem passed_verdicts (k : Nat) (ts : List τ) :
    passed ((callsAt key limit length ts).zip (verdicts limit k ts.length)) =
      ts.take (limit - k).toNat := by
  induction ts generalizing k with
  | nil => rw [List.take_nil]; rfl
  | cons t ts ih =>
    have hrest := ih (k + 1)
    unfold callsAt passed at hrest ⊢
    rw [List.map_cons, List.length_cons, verdicts_succ, List.zip_cons_cons, List.filterMap_cons,
      hrest, verdict]
    by_cases hk : ((k + 1 : Nat) : Int) ≤ limit
    · have htake : (limit - k).toNat = (limit - (k + 1 : Nat)).toNat + 1 := by omega
      rw [htake, List.take_succ_cons, decide_eq_true hk]
      rfl
    · have hnone : (limit - (k + 1 : Nat)).toNat = 0 := by omega
      have hnone' : (limit - k).toNat = 0 := by omega
      rw [hnone, hnone', decide_eq_false hk]
      rfl

theorem passed_flatten (ws : List (List τ)) :
    passed ((callsAt key limit length ws.flatten).zip
      (ws.flatMap (fun w => verdicts limit 0 w.length))) = ws.flatMap (List.take limit.toNat) := by
  induction ws with
  | nil => rfl
  | cons w ws ih =>
    have hfirst := passed_verdicts key limit length 0 w
    have hlength : (callsAt key limit length w).length = (verdicts limit 0 w.length).length := by
      rw [callsAt_length, verdicts_length]
    rw [Int.natCast_zero, Int.sub_zero] at hfirst
    rw [List.flatten_cons, List.flatMap_cons, List.flatMap_cons, callsAt_append,
      List.zip_append hlength, ← hfirst, ← ih]
    exact List.filterMap_append

end

section

variable [Add τ] [LT τ] [DecidableLT τ]

def after : Throttle τ → List (τ × Op τ) → Throttle τ
  | t, [] => t
  | t, (now, op)::ops => (t.step now op).2.after ops

theorem answers_append (t : Throttle τ) (xs ys : List (τ × Op τ)) :
    t.answers (xs ++ ys) = t.answers xs ++ (t.after xs).answers ys := by
  induction xs generalizing t with
  | nil => rfl
  | cons x xs ih => exact congrArg (_ :: ·) (ih _)

theorem after_append (t : Throttle τ) (xs ys : List (τ × Op τ)) :
    t.after (xs ++ ys) = (t.after xs).after ys := by
  induction xs generalizing t with
  | nil => rfl
  | cons x xs ih => exact ih _

end

section

variable [Add τ] [LinearOrder τ]

/-- The first calls among these, up to the closing of a window. -/
def upTo (closes : τ) (ts : List τ) : List τ := ts.takeWhile (fun u => decide (u ≤ closes))

def past (closes : τ) (ts : List τ) : List τ := ts.dropWhile (fun u => decide (u ≤ closes))

omit [Add τ] in
theorem upTo_append_past (closes : τ) (ts : List τ) : upTo closes ts ++ past closes ts = ts :=
  List.takeWhile_append_dropWhile

omit [Add τ] in
theorem le_of_mem_upTo {closes u : τ} {ts : List τ} (h : u ∈ upTo closes ts) : u ≤ closes := by
  simpa using List.mem_takeWhile_imp h

def windows (length : τ) : List τ → List (List τ)
  | [] => []
  | t :: ts => (t :: upTo (t + length) ts) :: windows length (past (t + length) ts)
termination_by ts => ts.length
decreasing_by exact Nat.lt_succ_of_le (List.dropWhile_sublist _).length_le

theorem windows_flatten (length : τ) (ts : List τ) : (windows length ts).flatten = ts := by
  induction ts using windows.induct length with
  | case1 => simp [windows]
  | case2 t ts ih => rw [windows, List.flatten_cons, ih, List.cons_append, upTo_append_past]

variable {t : Throttle τ} {key : String} {limit : Int} {length : τ}

variable (limit length) in
theorem answers_within {w : Window τ} (hw : t.get? key = some w) (ts : List τ)
    (hts : ∀ u ∈ ts, u ≤ w.closes) :
    t.answers (callsAt key limit length ts) = verdicts limit w.calls ts.length ∧
      (t.after (callsAt key limit length ts)).get? key =
        some ⟨w.calls + ts.length, w.closes⟩ := by
  induction ts generalizing t w with
  | nil => exact ⟨by rfl, hw⟩
  | cons u ts ih =>
    rw [List.forall_mem_cons] at hts
    have hopen : t.open? u key = some w := by
      simp [open?, hw, not_lt.mpr hts.1]
    have hstep : t.step u (.allow key limit length) =
        (verdict limit (w.calls + 1), t.put key ⟨w.calls + 1, w.closes⟩) := by
      simp [step, allow, verdict, hopen]
    obtain ⟨hanswers, hafter⟩ := ih (t.get?_put_self key ⟨w.calls + 1, w.closes⟩) hts.2
    constructor
    · rw [callsAt, List.map_cons, answers, hstep, List.length_cons, verdicts_succ]
      exact congrArg (_ :: ·) hanswers
    · rw [callsAt, List.map_cons, after, hstep, List.length_cons, Nat.add_comm ts.length,
        ← Nat.add_assoc]
      exact hafter

theorem answers_windows (hlimit : 1 ≤ limit) (ts : List τ)
    (hopen : ∀ u ∈ ts.head?, t.open? u key = none) :
    t.answers (callsAt key limit length ts) =
      (windows length ts).flatMap (fun w => verdicts limit 0 w.length) := by
  induction ts using windows.induct length generalizing t with
  | case1 => rw [windows]; rfl
  | case2 u ts ih =>
    have hstep : t.step u (.allow key limit length) =
        (verdict limit 1, t.put key ⟨1, u + length⟩) := by
      simp [step, allow, verdict, hopen u rfl, hlimit]
    obtain ⟨hanswers, hafter⟩ := answers_within limit length
      (t.get?_put_self key ⟨1, u + length⟩) (upTo (u + length) ts) fun v => le_of_mem_upTo
    have hlate : ∀ v ∈ (past (u + length) ts).head?,
        (after (t.put key ⟨1, u + length⟩)
          (callsAt key limit length (upTo (u + length) ts))).open? v key = none := by
      intro v hv
      have hpast := List.head?_dropWhile_not (fun v => decide (v ≤ u + length)) ts
      rw [← past, hv] at hpast
      have hclosed : u + length < v := by simpa using hpast
      simp [open?, hafter, hclosed]
    rw [windows, List.flatMap_cons, List.length_cons, verdicts_succ, ← ih hlate, ← hanswers,
      List.cons_append, ← answers_append, ← callsAt_append, upTo_append_past, callsAt,
      List.map_cons, answers, hstep]
    rfl

def timesFor (key : String) (ops : List (τ × Op τ)) : List τ :=
  (ops.filter (fun op => op.2.isFor key)).map Prod.fst

omit [Add τ] in
theorem timesFor_pairwise {ops : List (τ × Op τ)} (hclock : (ops.map Prod.fst).Pairwise (· ≤ ·)) :
    (timesFor key ops).Pairwise (· ≤ ·) := hclock.sublist (List.filter_sublist.map Prod.fst)

/-- The calls for a key, whatever else is done, with the answers of their windows. -/
theorem answersFor_eq_windows (hlimit : 1 ≤ limit) {ops : List (τ × Op τ)}
    (hclock : (ops.map Prod.fst).Pairwise (· ≤ ·))
    (hkey : ∀ op ∈ ops, op.2.isFor key = true → op.2 = .allow key limit length) :
    answersFor .empty key ops = (callsAt key limit length (timesFor key ops)).zip
      ((windows length (timesFor key ops)).flatMap (fun w => verdicts limit 0 w.length)) := by
  have hanswers : answers .empty (callsAt key limit length (timesFor key ops)) = _ :=
    answers_windows hlimit (timesFor key ops) fun u _ => rfl
  rw [answersFor_eq_zip _ key hclock, filter_isFor_eq_callsAt key limit length hkey, ← hanswers]
  rfl

end

/-! Stretches of time -/

theorem countP_take_le (p : τ → Bool) (n : Nat) (ts : List τ) : (ts.take n).countP p ≤ n :=
  Nat.le_trans List.countP_le_length (List.length_take_le n ts)

theorem lt_of_mem_past [LinearOrder τ] {closes u : τ} {ts : List τ} (hts : ts.Pairwise (· ≤ ·))
    (hu : u ∈ past closes ts) : closes < u := by
  induction ts with
  | nil => simp [past] at hu
  | cons t ts ih =>
    rw [List.pairwise_cons] at hts
    unfold past at hu
    rw [List.dropWhile_cons] at hu
    by_cases ht : t ≤ closes
    · rw [if_pos (decide_eq_true ht)] at hu
      exact ih hts.2 hu
    · rw [if_neg (by simp [ht]), List.mem_cons] at hu
      rcases hu with rfl | hu
      · exact not_le.mp ht
      · exact lt_of_lt_of_le (not_le.mp ht) (hts.1 u hu)

variable [AddCommMonoid τ] [LinearOrder τ] {length x : τ} {n : Nat}

/-- Whether a time lies in the stretch of a window's length from `x` on. -/
def inStretch (length x u : τ) : Bool := decide (x ≤ u) && decide (u ≤ x + length)

/-- How many of the first `n` calls of each window lie in a stretch. -/
def burst (length : τ) (n : Nat) (x : τ) (ts : List τ) : Nat :=
  ((windows length ts).flatMap (List.take n)).countP (inStretch length x)

theorem burst_cons (t : τ) (ts : List τ) :
    burst length n x (t :: ts) =
      ((t :: upTo (t + length) ts).take n).countP (inStretch length x) +
        burst length n x (past (t + length) ts) := by
  rw [burst, windows, List.flatMap_cons, List.countP_append]
  rfl

theorem burst_eq_zero {ts : List τ} (hts : ∀ u ∈ ts, x + length < u) : burst length n x ts = 0 := by
  apply List.countP_eq_zero.mpr
  intro u hu
  obtain ⟨w, hw, hmem⟩ := List.mem_flatMap.mp hu
  have hu : u ∈ ts := by
    rw [← windows_flatten length ts]
    exact List.mem_flatten_of_mem hw (List.mem_of_mem_take hmem)
  simp [inStretch, not_le.mpr (hts u hu)]

variable [IsOrderedAddMonoid τ]

theorem burst_le {ts : List τ} (hts : ts.Pairwise (· ≤ ·)) (hx : ∀ u ∈ ts.head?, x ≤ u) :
    burst length n x ts ≤ n := by
  cases ts with
  | nil => simp [burst, windows]
  | cons t ts =>
    rw [List.pairwise_cons] at hts
    have hrest : burst length n x (past (t + length) ts) = 0 := by
      apply burst_eq_zero
      intro u hu
      exact lt_of_le_of_lt (add_le_add_left (hx t rfl) length) (lt_of_mem_past hts.2 hu)
    rw [burst_cons, hrest]
    exact countP_take_le _ _ _

/-- A stretch as long as a window meets two windows at most. -/
theorem burst_le_double {ts : List τ} (hts : ts.Pairwise (· ≤ ·)) :
    burst length n x ts ≤ 2 * n := by
  induction ts using windows.induct length with
  | case1 => simp [burst, windows]
  | case2 t ts ih =>
    rw [List.pairwise_cons] at hts
    have hrest : (past (t + length) ts).Pairwise (· ≤ ·) :=
      hts.2.sublist (List.dropWhile_sublist _)
    have hfirst := countP_take_le (inStretch length x) n (t :: upTo (t + length) ts)
    rw [burst_cons]
    by_cases hx : ∀ u ∈ (past (t + length) ts).head?, x ≤ u
    · have hsecond : burst length n x (past (t + length) ts) ≤ n := burst_le hrest hx
      omega
    · -- the next window opens before the stretch begins, and this one has closed by then
      push Not at hx
      obtain ⟨u, hu, hbefore⟩ := hx
      have hu := List.mem_of_mem_head? hu
      have hclosed := lt_of_mem_past hts.2 hu
      have hnone : ((t :: upTo (t + length) ts).take n).countP (inStretch length x) = 0 := by
        apply List.countP_eq_zero.mpr
        intro v hv
        have hearly : v < x := by
          rcases List.mem_cons.mp (List.mem_of_mem_take hv) with rfl | hv
          · exact lt_of_le_of_lt (hts.1 u ((List.dropWhile_sublist _).subset hu)) hbefore
          · exact lt_of_le_of_lt (le_of_mem_upTo hv) (lt_trans hclosed hbefore)
        simp [inStretch, not_le.mpr hearly]
      have hsecond := ih hrest
      omega

theorem passed_in_stretch {key : String} {limit : Int} (hlimit : 1 ≤ limit)
    {ops : List (τ × Op τ)} (hclock : (ops.map Prod.fst).Pairwise (· ≤ ·))
    (hkey : ∀ op ∈ ops, op.2.isFor key = true → op.2 = .allow key limit length) (x : τ) :
    (passed (answersFor .empty key ops)).countP (inStretch length x) ≤ 2 * limit.toNat := by
  have hpassed := passed_flatten key limit length (windows length (timesFor key ops))
  rw [windows_flatten] at hpassed
  rw [answersFor_eq_windows hlimit hclock hkey, hpassed]
  exact burst_le_double (timesFor_pairwise hclock)

end Household.Throttle
