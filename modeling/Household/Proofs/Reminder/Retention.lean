import Household.Proofs.Reminder.Shifts

/-!
# One summary a day

Rows of the ledger keep a summary from going out twice, and sweeps remove
rows. A row is stamped on its day at the earliest, so with a retention of a
day or more it is not removed before its day is over, and then no tick reads
that date any more.
-/

set_option autoImplicit false

namespace Household.Reminder

open Household.Calendar Plan

/-- The reading of the clock that an exchange shows, if it does. -/
def Exchange.reading? : Exchange → Option Moment
  | ⟨.clock, .ok now⟩ => some now
  | _ => none

def readsOn (d : Date) (xs : List Exchange) : Bool :=
  xs.any (fun x => x.reading?.any (fun now => decide (now.date = d)))

def FanOut.isSummary (household : Int) (f : FanOut) : Bool :=
  decide (f.household = household) && f.key?.any (fun key => key.kind == Kind.choresDue.name)

/-- The fan-outs of a job's summaries whose targets were listed, if the job
read the clock on the date. -/
def summariesOn (household : Int) (d : Date) (xs : List Exchange) : List FanOut :=
  if readsOn d xs then (fanOuts none xs).filter (fun f => f.isSummary household && f.listed)
  else []

def dayKey (household : Int) (d : Date) : Ledger.Key :=
  ⟨household, Kind.choresDue.name, summaryReference d, 0⟩

variable {ω : Type} {c : Clockwork ω} {s : Scheduler} {j : Janitor} {household : Int} {d : Date}
  {x y : Scene ω}

/-- No summary can go out for the day any more: it is over, or the row of its
summary stays until it is. -/
def Spent (c : Clockwork ω) (household : Int) (d : Date) (x : Scene ω) : Prop :=
  (WallTime.midnight d).micros + microsPerDay ≤ (c.time x.world).micros ∨
    ∃ stamp, x.ledger.get? (dayKey household d) = some stamp ∧ stamp.zone = .utc ∧
      (WallTime.midnight d).micros ≤ stamp.wall.micros

theorem Spent.later (h : Spent c household d x) (hl : Later c x y) : Spent c household d y := by
  rcases h with hover | ⟨stamp, hrow, hstamp⟩
  · exact .inl (Int.le_trans hover hl.time)
  · exact .inr ⟨stamp, hl.kept _ _ hrow, hstamp⟩

/-! Sweeps -/

/-- A row that is swept is at least as old as the retention. -/
theorem Spent.sweepLedger (h : Spent c household d x) {retention : Int}
    (hr : microsPerDay ≤ retention) {cutoff : Moment}
    (hc : (c.now x.world).add? (-retention) = some cutoff) :
    Spent c household d (c.handler (.sweepLedger cutoff) x).2 := by
  obtain ⟨hwall, hzone⟩ := Moment.add?_eq_some hc
  have hwall : cutoff.wall.micros = (c.time x.world).micros - retention := hwall
  simp only [Clockwork.handler]
  split
  · rename_i l hsweep
    rcases h with hover | ⟨stamp, hrow, hutc, hstamp⟩
    · exact .inl hover
    · by_cases hold : stamp.Precedes cutoff
      · -- stamped after midnight and before the cutoff: the retention has passed since
        left
        have hlt := (Moment.precedes_iff_of_zone (hutc.trans hzone.symm)).mp hold
        show _ ≤ (c.time x.world).micros
        omega
      · exact .inr ⟨stamp, (Ledger.get?_of_sweep hsweep).mpr ⟨hrow, hold⟩, hutc, hstamp⟩
  · exact h

theorem Spent.sweep (hr : microsPerDay ≤ j.retention) (h : Spent c household d x) :
    Spent c household d (run c.handler j.sweep x).2.2 := by
  have hlater := later_of_ledger c (x := x) (y := x) (Int.le_refl _) rfl
  have hthrottle := h.later (hlater.answer (q := .sweepThrottle) (by simp))
  rcases sweep_scene j c x with hscene | hscene
  · rw [hscene]
    exact hthrottle
  · rw [hscene]
    rcases sweepLedger_scene j c (c.handler .sweepThrottle x).2 with hscene | ⟨cutoff, hc, hscene⟩
    · rw [hscene]
      exact hthrottle
    · rw [hscene]
      exact Spent.sweepLedger (x := (c.handler .clock (c.handler .sweepThrottle x).2).2)
        hthrottle hr hc

theorem summariesOn_sweep (hx : x.trace = []) :
    summariesOn household d (run c.handler j.sweep x).2.2.trace = [] := by
  obtain ⟨xs, hxs, haside⟩ := trace_of_asks (handler_appends c) (fun _ _ => trivial)
    (sweep_asks (P := fun q => q.isAside = true) j rfl rfl fun _ => rfl) x
  rw [hxs, hx, List.nil_append, summariesOn, fanOuts_aside none haside]
  simp

/-! Ticks -/

theorem key_of_fanOut {xs : List Exchange} {key? : Option Ledger.Key} {f : FanOut}
    (hf : f ∈ fanOuts key? xs) :
    f.key? = key? ∨ ∃ key r, f.key? = some key ∧ ⟨.wasSent key, r⟩ ∈ xs := by
  induction xs generalizing key? with
  | nil => simp [fanOuts] at hf
  | cons x xs ih =>
    have skip (h : f ∈ fanOuts key? xs) :
        f.key? = key? ∨ ∃ key r, f.key? = some key ∧ ⟨.wasSent key, r⟩ ∈ x :: xs := by
      rcases ih h with h | ⟨key, r, hkey, hmem⟩
      · exact .inl h
      · exact .inr ⟨key, r, hkey, List.mem_cons_of_mem x hmem⟩
    obtain ⟨q, r⟩ := x
    cases q with
    | wasSent key =>
      rcases ih hf with h | ⟨key', r', hkey, hmem⟩
      · exact .inr ⟨key, r, h, List.mem_cons_self⟩
      · exact .inr ⟨key', r', hkey, List.mem_cons_of_mem _ hmem⟩
    | targets h =>
      rcases List.mem_cons.mp hf with rfl | hf
      · exact .inl rfl
      · exact skip hf
    | _ => exact skip hf

theorem reading_of_timely {now : Moment} {e : Exchange} (he : e.request.Timely now) :
    e.reading? = none := by
  obtain ⟨q, r⟩ := e
  cases q with
  | clock => exact he.elim
  | _ => rfl

section

variable {xs : List Exchange} (h : TickSpec c x y xs)
include h

theorem readsOn_tick : readsOn d y.trace = decide ((c.time x.world).date = d) := by
  have hrest : xs.any (fun e => e.reading?.any (fun now => decide (now.date = d))) = false := by
    rw [List.any_eq_false]
    intro e he
    simp [reading_of_timely (h.timely e he)]
  rw [h.trace, readsOn, List.any_cons, hrest, Bool.or_false]
  rfl

theorem key_of_summary {f : FanOut} {key : Ledger.Key} (hf : f ∈ fanOuts none y.trace)
    (hkey : f.key? = some key) (hkind : key.kind = Kind.choresDue.name) :
    key = dayKey f.household (c.time x.world).date := by
  obtain ⟨key', hkey', hhousehold⟩ := h.orderly.keyed f hf
  obtain rfl := Option.some.inj (hkey.symm.trans hkey')
  rw [h.trace] at hf
  rcases key_of_fanOut hf with hnone | ⟨key', r, hkey', hasked⟩
  · simp [hkey] at hnone
  · obtain rfl := Option.some.inj (hkey.symm.trans hkey')
    rcases List.mem_cons.mp hasked with hclock | hasked
    · simp at hclock
    · rw [h.timely _ hasked hkind, hhousehold]
      rfl

theorem summary_of_tick {f : FanOut} (hf : f ∈ summariesOn household d y.trace) :
    (c.time x.world).date = d ∧ f ∈ fanOuts none y.trace ∧
      f.key? = some (dayKey household d) ∧ f.listed = true := by
  rw [summariesOn, readsOn_tick h] at hf
  split at hf
  · rename_i hdate
    obtain ⟨hmem, hsummary⟩ := List.mem_filter.mp hf
    obtain ⟨key, hkey, -⟩ := h.orderly.keyed f hmem
    simp only [FanOut.isSummary, hkey, Option.any_some, Bool.and_eq_true, decide_eq_true_eq,
      beq_iff_eq] at hsummary hdate
    obtain ⟨⟨hown, hkind⟩, hlisted⟩ := hsummary
    refine ⟨hdate, hmem, ?_, hlisted⟩
    rw [hkey, key_of_summary h hmem hkey hkind, hown, hdate]
  · simp at hf

theorem summariesOn_length_le : (summariesOn household d y.trace).length ≤ 1 := by
  have hsub : (summariesOn household d y.trace).Sublist (fanOuts none y.trace) := by
    unfold summariesOn
    split
    · exact List.filter_sublist
    · exact List.nil_sublist _
  have hall : (summariesOn household d y.trace).filter
      (fun f => decide (f.key? = some (dayKey household d)) && f.listed) =
        summariesOn household d y.trace := by
    rw [List.filter_eq_self]
    intro f hf
    obtain ⟨-, -, hkey, hlisted⟩ := summary_of_tick h hf
    simp [hkey, hlisted]
  rw [← hall]
  exact Nat.le_trans (hsub.filter _).length_le (listed_once h.orderly.final (dayKey household d))

theorem summariesOn_of_spent (hspent : Spent c household d x) :
    summariesOn household d y.trace = [] := by
  apply List.eq_nil_iff_forall_not_mem.mpr
  intro f hf
  obtain ⟨hdate, hmem, hkey, -⟩ := summary_of_tick h hf
  rcases hspent with hover | ⟨stamp, hrow, -⟩
  · have hday := (WallTime.date_eq_iff.mp hdate).2
    omega
  · have hfresh := h.orderly.fresh f hmem _ hkey
    rw [(Ledger.wasSent_eq_true_iff _ _).mpr ⟨stamp, hrow⟩] at hfresh
    simp at hfresh

theorem spent_of_summary {f : FanOut} (hf : f ∈ summariesOn household d y.trace) :
    Spent c household d y := by
  obtain ⟨hdate, hmem, hkey, hlisted⟩ := summary_of_tick h hf
  have hsent := (h.orderly.recorded _).mpr (.inr ⟨f, hmem, hkey, hlisted⟩)
  obtain ⟨stamp, hstamp⟩ := (Ledger.wasSent_eq_true_iff _ _).mp hsent
  have hfresh := h.orderly.fresh f hmem _ hkey
  -- the fan-out found no row of its key, so the row is of this tick
  rcases h.later.stamped _ _ hstamp with hrow | ⟨hutc, hlate⟩
  · rw [(Ledger.wasSent_eq_true_iff _ _).mpr ⟨stamp, hrow⟩] at hfresh
    simp at hfresh
  · exact .inr ⟨stamp, hstamp, hutc, Int.le_trans (WallTime.date_eq_iff.mp hdate).1 hlate⟩

end

/-! All jobs -/

section

variable (hr : microsPerDay ≤ j.retention)
include hr

theorem job_of_spent (job : Job) (hx : x.trace = []) (h : Spent c household d x) :
    summariesOn household d (run c.handler (job.plan s j) x).2.2.trace = [] ∧
      Spent c household d (run c.handler (job.plan s j) x).2.2 := by
  cases job with
  | tick =>
    obtain ⟨xs, hspec⟩ := tick_spec s c hx
    exact ⟨summariesOn_of_spent hspec h, h.later hspec.later⟩
  | sweep => exact ⟨summariesOn_sweep hx, h.sweep hr⟩

omit hr in
theorem job_spends (household : Int) (d : Date) (job : Job) (hx : x.trace = []) :
    (summariesOn household d (run c.handler (job.plan s j) x).2.2.trace).length ≤ 1 ∧
      (summariesOn household d (run c.handler (job.plan s j) x).2.2.trace ≠ [] →
        Spent c household d (run c.handler (job.plan s j) x).2.2) := by
  cases job with
  | tick =>
    obtain ⟨xs, hspec⟩ := tick_spec s c hx
    refine ⟨summariesOn_length_le hspec, fun hsome => ?_⟩
    obtain ⟨f, hf⟩ := List.exists_mem_of_ne_nil _ hsome
    exact spent_of_summary hspec hf
  | sweep =>
    have hnone : summariesOn household d (run c.handler j.sweep x).2.2.trace = [] :=
      summariesOn_sweep hx
    exact ⟨by simp [Job.plan, hnone], fun h => absurd hnone h⟩

def summaries (household : Int) (d : Date) (xss : List (List Exchange)) : List FanOut :=
  xss.flatMap (summariesOn household d)

theorem summaries_of_spent (shifts : List (Shift c)) (h : Spent c household d x) :
    summaries household d (traces c s j shifts x) = [] := by
  induction shifts generalizing x with
  | nil => rfl
  | cons t ts ih =>
    obtain ⟨hnone, hspent⟩ := job_of_spent (s := s) hr t.job rfl (h.later (later_start c t x))
    rw [traces, summaries, List.flatMap_cons, hnone, List.nil_append]
    exact ih hspent

/-- Whatever is swept meanwhile, a household is sent one summary a day. -/
theorem summaries_length_le (shifts : List (Shift c)) (x : Scene ω) (household : Int) (d : Date) :
    (summaries household d (traces c s j shifts x)).length ≤ 1 := by
  induction shifts generalizing x with
  | nil => exact Nat.zero_le 1
  | cons t ts ih =>
    obtain ⟨honce, hspends⟩ := job_spends (s := s) (j := j) household d t.job (x := t.start x) rfl
    rw [traces, summaries, List.flatMap_cons, List.length_append]
    by_cases hnone : summariesOn household d
        (run c.handler (t.job.plan s j) (t.start x)).2.2.trace = []
    · rw [hnone, List.length_nil, Nat.zero_add]
      exact ih _
    · have hrest := summaries_of_spent (s := s) hr ts (hspends hnone)
      rw [summaries] at hrest
      rw [hrest]
      exact honce

end

def errands : Handler WallTime
  | .households, w => (.ok [1], w)
  | .events _ _, w => (.ok [], w)
  | .chores _, w => (.ok [⟨3, "Dishes", ⟨w, .utc, false⟩, "", some 1⟩], w)
  | .targets _, w => (.ok [⟨4, "x"⟩], w)
  | _, w => (.error (.failure "down"), w)

def errandClock : Clockwork WallTime where
  answer := errands
  time w := w
  onward q w := by cases q <;> exact Int.le_refl _

def hoursLater (hours : Nat) (job : Job) : Shift errandClock where
  job := job
  passes w := (w.add? (hours * microsPerHour)).getD w
  onward w := by
    unfold WallTime.add? WallTime.ofMicros?
    split
    · simp only [errandClock, Option.getD_some, microsPerHour]
      omega
    · exact Int.le_refl _

def errandShifts : List (Shift errandClock) :=
  [hoursLater 0 .tick, hoursLater 1 .sweep, hoursLater 1 .tick, hoursLater 24 .sweep,
    hoursLater 1 .tick]

theorem summary_each_day :
    let nine : WallTime := ⟨63908038800000000, by decide, by decide⟩
    let j : Janitor := ⟨"log", microsPerDay⟩
    let xss := traces errandClock ⟨"log", .ok 0, false⟩ j errandShifts ⟨nine, .empty, []⟩
    microsPerDay ≤ j.retention ∧ (summaries 1 nine.date xss).length = 1 ∧
      (xss.flatMap (fanOuts none)).length = 2 ∧
      ∀ household d, (summaries household d xss).length ≤ 1 :=
  ⟨by decide, rfl, rfl, summaries_length_le (by decide) errandShifts _⟩

end Household.Reminder
