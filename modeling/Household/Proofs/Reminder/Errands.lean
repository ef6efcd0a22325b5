import Household.Housekeeping
import Household.Proofs.Reminder.Laws
import Household.Proofs.Throttle.Windows

/-!
# Errands

Ticks, sweeps and grocery notices under way together. Each goes on when it
gets the answer to the request it has made; in between the others go on. The
throttle answers for itself at the time of the request, all else is answered
in any way.
-/

set_option autoImplicit false

namespace Household.Reminder

open Plan

inductive Errand where
  | tick
  | sweep
  | grocery (household : Int) (excluded? : Option Int) (item : String)

/-- The scheduler, the janitor and the throttle between them, which lets
`limit` grocery notices through in a window of this length. -/
structure Service (τ : Type) where
  scheduler : Scheduler
  janitor : Janitor
  limit : Int
  length : τ

structure Entry (τ : Type) where
  errand : Nat
  time : τ
  exchange : Exchange

/-- The errands, each with what it has left to do, and all exchanges so far. -/
structure Desk (τ : Type) where
  throttle : Throttle τ
  errands : List (Errand × Plan (Option Bool))
  log : List (Entry τ)

inductive Move where
  | start (e : Errand)
  | answer (n : Nat) (reply : (q : Request) → Except Fault q.Reply)

variable {τ : Type}

/-- Whether a notice was let through is the result of a grocery errand. -/
def Service.plan (c : Service τ) : Errand → Plan (Option Bool)
  | .tick => c.scheduler.tick >>= fun _ => pure none
  | .sweep => c.janitor.sweep >>= fun _ => pure none
  | .grocery household excluded? item =>
    c.scheduler.grocery household excluded? item >>= fun passed => pure (some passed)

def traceOf (n : Nat) (log : List (Entry τ)) : List Exchange :=
  log.filterMap (fun x => if x.errand = n then some x.exchange else none)

namespace Desk

def empty : Desk τ := ⟨.empty, [], []⟩

def trace (d : Desk τ) (n : Nat) : List Exchange := traceOf n d.log

def errand? (d : Desk τ) (n : Nat) : Option Errand := d.errands[n]?.map Prod.fst

def result? (d : Desk τ) (n : Nat) : Option (Except Fault (Option Bool)) :=
  d.errands[n]?.bind (fun errand => errand.2.result?)

section

variable [Add τ] [LT τ] [DecidableLT τ] (c : Service τ)

def answer (t : Throttle τ) (now : τ) (reply : (q : Request) → Except Fault q.Reply) :
    (q : Request) → Except Fault q.Reply × Throttle τ
  | .allow key =>
    (.ok (t.allow now key c.limit c.length).1, (t.allow now key c.limit c.length).2)
  | .sweepThrottle => (.ok (t.closedCount now), t.sweep now)
  | q => (reply q, t)

def step (d : Desk τ) (now : τ) : Move → Desk τ
  | .start e => { d with errands := d.errands ++ [(e, c.plan e)] }
  | .answer n reply =>
    match d.errands[n]? with
    | none => d
    | some (e, p) =>
      match p.pending? with
      | none => d
      | some ⟨q, next⟩ =>
        let r := answer c d.throttle now reply q
        ⟨r.2, d.errands.set n (e, next r.1), d.log ++ [⟨n, now, ⟨q, r.1⟩⟩]⟩

def run : Desk τ → List (τ × Move) → Desk τ
  | d, [] => d
  | d, (now, m)::ms => run (d.step c now m) ms

inductive Step (d : Desk τ) (now : τ) : Desk τ → Prop
  | start (e : Errand) : Step d now { d with errands := d.errands ++ [(e, c.plan e)] }
  | idle : Step d now d
  | answer {n : Nat} {e : Errand} {p : Plan (Option Bool)} {q : Request}
      {next : Except Fault q.Reply → Plan (Option Bool)}
      (reply : (q : Request) → Except Fault q.Reply) (hn : d.errands[n]? = some (e, p))
      (hp : p.pending? = some ⟨q, next⟩) :
      Step d now ⟨(Desk.answer c d.throttle now reply q).2,
        d.errands.set n (e, next (Desk.answer c d.throttle now reply q).1),
        d.log ++ [⟨n, now, ⟨q, (Desk.answer c d.throttle now reply q).1⟩⟩]⟩

theorem step_spec (d : Desk τ) (now : τ) (m : Move) : Step c d now (step c d now m) := by
  cases m with
  | start e => exact .start e
  | answer n reply =>
    cases hn : d.errands[n]? with
    | none =>
      simp only [step, hn]
      exact .idle
    | some task =>
      obtain ⟨e, p⟩ := task
      cases hp : p.pending? with
      | none =>
        simp only [step, hn, hp]
        exact .idle
      | some pending =>
        simp only [step, hn, hp]
        exact .answer reply hn hp

theorem Step.log {c : Service τ} {d d' : Desk τ} {now : τ} (h : Step c d now d') :
    d'.log = d.log ∨ ∃ x : Entry τ, x.time = now ∧ d'.log = d.log ++ [x] := by
  cases h with
  | start e => exact .inl rfl
  | idle => exact .inl rfl
  | answer reply hn hp => exact .inr ⟨_, rfl, rfl⟩

theorem run_keeps {I : Desk τ → Prop} (hI : ∀ d now d', Step c d now d' → I d → I d')
    {d : Desk τ} (hd : I d) (ms : List (τ × Move)) : I (d.run c ms) := by
  induction ms generalizing d with
  | nil => exact hd
  | cons m ms ih => exact ih (hI d m.1 _ (step_spec c d m.1 m.2) hd)

theorem run_times (d : Desk τ) (ms : List (τ × Move)) :
    ∃ xs, (d.run c ms).log = d.log ++ xs ∧ (xs.map Entry.time).Sublist (ms.map Prod.fst) := by
  induction ms generalizing d with
  | nil => exact ⟨[], (List.append_nil _).symm, List.Sublist.refl _⟩
  | cons m ms ih =>
    obtain ⟨xs, hxs, htimes⟩ := ih (d.step c m.1 m.2)
    have hlog := (step_spec c d m.1 m.2).log
    show ∃ xs, ((d.step c m.1 m.2).run c ms).log = _ ∧ _
    rw [hxs]
    rcases hlog with hlog | ⟨x, hx, hlog⟩
    · exact ⟨xs, by rw [hlog], htimes.cons _⟩
    · refine ⟨x :: xs, by rw [hlog, List.append_assoc]; rfl, ?_⟩
      rw [List.map_cons, List.map_cons, hx]
      exact htimes.cons_cons _

end

end Desk

/-! Laws -/

theorem traceOf_append (n : Nat) (xs ys : List (Entry τ)) :
    traceOf n (xs ++ ys) = traceOf n xs ++ traceOf n ys := List.filterMap_append

theorem traceOf_singleton_self (n : Nat) (now : τ) (x : Exchange) :
    traceOf n [⟨n, now, x⟩] = [x] := by simp [traceOf]

theorem traceOf_singleton_of_ne {m n : Nat} (h : n ≠ m) (now : τ) (x : Exchange) :
    traceOf m [⟨n, now, x⟩] = [] := by simp [traceOf, h]

structure Lawful (law : Errand → Law)
    (Q : Errand → List Exchange → Except Fault (Option Bool) → Prop) (d : Desk τ) : Prop where
  asked : ∀ earlier x later, d.log = earlier ++ x :: later →
    ∃ e, d.errand? x.errand = some e ∧ law e (traceOf x.errand earlier) x.exchange.request
  obeys : ∀ (n : Nat) e p, d.errands[n]? = some (e, p) → p.Obeys (law e) (Q e) (d.trace n)

namespace Lawful

variable {law : Errand → Law} {Q : Errand → List Exchange → Except Fault (Option Bool) → Prop}
  {d : Desk τ}

theorem begun (h : Lawful law Q d) {x : Entry τ} (hx : x ∈ d.log) :
    ∃ e, d.errand? x.errand = some e := by
  obtain ⟨earlier, later, hlog⟩ := List.append_of_mem hx
  obtain ⟨e, he, -⟩ := h.asked earlier x later hlog
  exact ⟨e, he⟩

/-- The law holds along the trace of each errand. -/
theorem trace_law (h : Lawful law Q d) {n : Nat} {e : Errand} (he : d.errand? n = some e)
    {before after : List Exchange} {x : Exchange} (hx : d.trace n = before ++ x :: after) :
    law e before x.request := by
  -- where the trace is split, the log has an entry of this errand, behind some of others
  obtain ⟨first, rest, hlog, hbefore, hrest⟩ := List.filterMap_eq_append_iff.mp hx
  obtain ⟨others, y, later, rfl, hothers, hy, -⟩ := List.filterMap_eq_cons_iff.mp hrest
  rw [Option.ite_none_right_eq_some] at hy
  obtain ⟨rfl, hexchange⟩ := hy
  rw [← List.append_assoc] at hlog
  obtain ⟨e', he', hlaw⟩ := h.asked _ y later hlog
  have hnone : traceOf y.errand others = [] := List.filterMap_eq_nil_iff.mpr hothers
  rw [he, Option.some.injEq] at he'
  rw [traceOf_append, hnone, List.append_nil, traceOf, hbefore, Option.some.inj hexchange] at hlaw
  rw [he']
  exact hlaw

theorem result (h : Lawful law Q d) {n : Nat} {e : Errand} (he : d.errand? n = some e)
    {r : Except Fault (Option Bool)} (hr : d.result? n = some r) : Q e (d.trace n) r := by
  obtain ⟨⟨e', p⟩, hn, rfl⟩ := Option.map_eq_some_iff.mp he
  rw [Desk.result?, hn] at hr
  exact (h.obeys n e' p hn).result hr

theorem trace_of_none (h : Lawful law Q d) {n : Nat} (hn : d.errands[n]? = none) :
    d.trace n = [] := by
  apply List.filterMap_eq_nil_iff.mpr
  intro x hx
  obtain ⟨e, he⟩ := h.begun hx
  apply if_neg
  rintro rfl
  simp [Desk.errand?, hn] at he

section

variable {c : Service τ} (hplan : ∀ e, (c.plan e).Obeys (law e) (Q e) [])
include hplan

theorem start (h : Lawful law Q d) (e : Errand) :
    Lawful law Q { d with errands := d.errands ++ [(e, c.plan e)] } where
  asked earlier x later hlog := by
    obtain ⟨e', he', hlaw⟩ := h.asked earlier x later hlog
    refine ⟨e', ?_, hlaw⟩
    obtain ⟨task, htask, hfst⟩ := Option.map_eq_some_iff.mp he'
    have hlt : x.errand < d.errands.length := (List.getElem?_eq_some_iff.mp htask).1
    simp only [Desk.errand?, List.getElem?_append_left hlt]
    exact he'
  obeys n e' p hn := by
    by_cases hlt : n < d.errands.length
    · rw [List.getElem?_append_left hlt] at hn
      exact h.obeys n e' p hn
    · have hfresh : d.trace n = [] := h.trace_of_none (List.getElem?_eq_none (Nat.not_lt.mp hlt))
      rw [List.getElem?_append_right (Nat.not_lt.mp hlt), List.getElem?_singleton] at hn
      split at hn
      · obtain ⟨rfl, rfl⟩ := Prod.mk.inj (Option.some.inj hn)
        show Obeys _ _ _ (d.trace n)
        rw [hfresh]
        exact hplan e
      · simp at hn

end

theorem answer (h : Lawful law Q d) {n : Nat} {e : Errand} {p : Plan (Option Bool)} {q : Request}
    {next : Except Fault q.Reply → Plan (Option Bool)} (hn : d.errands[n]? = some (e, p))
    (hp : p.pending? = some ⟨q, next⟩) (t : Throttle τ) (now : τ) (r : Except Fault q.Reply) :
    Lawful law Q ⟨t, d.errands.set n (e, next r), d.log ++ [⟨n, now, ⟨q, r⟩⟩]⟩ := by
  obtain ⟨hlaw, hnext⟩ := (h.obeys n e p hn).pending hp
  have herrand (m : Nat) :
      (d.errands.set n (e, next r))[m]?.map Prod.fst = d.errand? m := by
    by_cases hm : n = m
    · subst hm
      simp [Desk.errand?, List.getElem?_set_self', hn]
    · rw [List.getElem?_set_ne hm]
      rfl
  constructor
  · intro earlier x later hlog
    show ∃ e', (d.errands.set n (e, next r))[x.errand]?.map Prod.fst = some e' ∧ _
    rw [herrand]
    have hlog : d.log ++ [⟨n, now, ⟨q, r⟩⟩] = earlier ++ x :: later := hlog
    -- either it is the new entry that is split off, or one of those before
    rcases List.eq_nil_or_concat later with rfl | ⟨later, y, rfl⟩
    · obtain ⟨rfl, hx⟩ := List.append_inj' hlog rfl
      rw [← (List.cons.inj hx).1]
      exact ⟨e, by simp [Desk.errand?, hn], hlaw⟩
    · rw [List.concat_eq_append, ← List.cons_append, ← List.append_assoc] at hlog
      obtain ⟨hlog, -⟩ := List.append_inj' hlog rfl
      exact h.asked earlier x later hlog
  · intro m e' p' hm
    show p'.Obeys _ _ (traceOf m (d.log ++ [⟨n, now, ⟨q, r⟩⟩]))
    rw [traceOf_append]
    by_cases hmn : n = m
    · subst hmn
      have hlt : n < d.errands.length := (List.getElem?_eq_some_iff.mp hn).1
      rw [List.getElem?_set_self hlt] at hm
      obtain ⟨rfl, rfl⟩ := Prod.mk.inj (Option.some.inj hm)
      rw [traceOf_singleton_self]
      exact hnext r
    · rw [List.getElem?_set_ne hmn] at hm
      rw [traceOf_singleton_of_ne hmn, List.append_nil]
      exact h.obeys m e' p' hm

variable [Add τ] [LT τ] [DecidableLT τ]

theorem of_run {c : Service τ} (hplan : ∀ e, (c.plan e).Obeys (law e) (Q e) [])
    (ms : List (τ × Move)) : Lawful law Q (Desk.empty.run c ms) := by
  apply Desk.run_keeps c
  · intro d now d' hstep h
    cases hstep with
    | start e => exact h.start hplan e
    | idle => exact h
    | answer reply hn hp => exact h.answer hn hp _ now _
  · constructor
    · intro earlier x later hlog
      simp [Desk.empty] at hlog
    · intro n e p hn
      simp [Desk.empty] at hn

end Lawful

end Household.Reminder
