import Household.Housekeeping
import Household.Proofs.Ledger.Rows
import Household.Proofs.Reminder.Deduplication
import Household.Proofs.Reminder.Requests

/-!
# Jobs under one clock

A scheduler and a janitor do their jobs on one ledger, one after another,
under one clock that never goes back. The other collaborators answer as they
like and take their time. A tick leaves the rows of the ledger as they are and
stamps the new ones no earlier than it began; a sweep removes old rows.
-/

set_option autoImplicit false

namespace Household.Reminder

open Household.Calendar Plan

variable {ω : Type}

/-- A world that answers requests, with a clock that never goes back. -/
structure Clockwork (ω : Type) where
  answer : Handler ω
  time : ω → WallTime
  onward : ∀ q w, (time w).micros ≤ (time (answer q w).2).micros

namespace Clockwork

variable (c : Clockwork ω)

def now (w : ω) : Moment := ⟨c.time w, .utc, false⟩

def told : Handler ω
  | .clock, w => (.ok (c.now w), w)
  | q, w => c.answer q w

def handler : Handler (Scene ω)
  | .sweepLedger cutoff, x =>
    match x.ledger.sweep cutoff with
    | .ok l =>
      (.ok (x.ledger.staleCount cutoff),
        ⟨x.world, l, x.trace ++ [⟨.sweepLedger cutoff, .ok (x.ledger.staleCount cutoff)⟩]⟩)
    | .error e =>
      (.error (.calendar e),
        { x with trace := x.trace ++ [⟨.sweepLedger cutoff, .error (.calendar e)⟩] })
  | q, x => withLedger c.told c.now q x

end Clockwork

inductive Job where
  | tick
  | sweep

def Job.plan (s : Scheduler) (j : Janitor) : Job → Plan Unit
  | tick => s.tick
  | sweep => j.sweep

/-- A job, and what becomes of the world before it. -/
structure Shift (c : Clockwork ω) where
  job : Job
  passes : ω → ω
  onward : ∀ w, (c.time w).micros ≤ (c.time (passes w)).micros

def Shift.start {c : Clockwork ω} (t : Shift c) (x : Scene ω) : Scene ω :=
  ⟨t.passes x.world, x.ledger, []⟩

def traces (c : Clockwork ω) (s : Scheduler) (j : Janitor) :
    List (Shift c) → Scene ω → List (List Exchange)
  | [], _ => []
  | t :: ts, x =>
    let y := (run c.handler (t.job.plan s j) (t.start x)).2.2
    y.trace :: traces c s j ts y

/-! Single requests -/

def Request.Timely (now : Moment) : Request → Prop
  | clock => False
  | wasSent key => key.kind = Kind.choresDue.name → key = summaryKey key.household now
  | sweepLedger _ => False
  | _ => True

/-- The scene `y` comes after `x`, with the rows of `x` and new ones. -/
structure Later (c : Clockwork ω) (x y : Scene ω) : Prop where
  time : (c.time x.world).micros ≤ (c.time y.world).micros
  kept : ∀ key stamp, x.ledger.get? key = some stamp → y.ledger.get? key = some stamp
  stamped : ∀ key stamp, y.ledger.get? key = some stamp → x.ledger.get? key = some stamp ∨
    stamp.zone = .utc ∧ (c.time x.world).micros ≤ stamp.wall.micros

section

variable (c : Clockwork ω)

theorem handler_appends : Appends c.handler := by
  intro q x
  cases q with
  | sweepLedger cutoff =>
    simp only [Clockwork.handler]
    split <;> rfl
  | _ => rfl

theorem time_told (q : Request) (w : ω) :
    (c.time w).micros ≤ (c.time (c.told q w).2).micros := by
  cases q with
  | clock => exact Int.le_refl _
  | _ => exact c.onward _ w

theorem handler_eq {q : Request} (hq : ∀ cutoff, q ≠ .sweepLedger cutoff) (x : Scene ω) :
    c.handler q x = withLedger c.told c.now q x := by
  cases q with
  | sweepLedger cutoff => exact absurd rfl (hq cutoff)
  | _ => rfl

theorem later_of_ledger {x y : Scene ω} (ht : (c.time x.world).micros ≤ (c.time y.world).micros)
    (hl : y.ledger = x.ledger) : Later c x y where
  time := ht
  kept key stamp h := by rwa [hl]
  stamped key stamp h := .inl (by rwa [← hl])

theorem later_start (t : Shift c) (x : Scene ω) : Later c x (t.start x) :=
  later_of_ledger c (t.onward x.world) rfl

variable {c} {x y : Scene ω}

theorem Later.record (h : Later c x y) (key : Ledger.Key) :
    Later c x (c.handler (.recordSent key) y).2 where
  time := h.time
  kept k stamp hk := by
    show (y.ledger.record (c.now y.world) key).get? k = some stamp
    have hrow := h.kept k stamp hk
    simp [Ledger.get?_record, hrow]
  stamped k stamp hk := by
    have hk : (y.ledger.record (c.now y.world) key).get? k = some stamp := hk
    rw [Ledger.get?_record] at hk
    split at hk
    · obtain rfl := Option.some.inj hk
      exact .inr ⟨rfl, h.time⟩
    · exact h.stamped k stamp hk

theorem Later.trans_ledger {z : Scene ω} (h : Later c x y)
    (ht : (c.time y.world).micros ≤ (c.time z.world).micros) (hl : z.ledger = y.ledger) :
    Later c x z where
  time := Int.le_trans h.time ht
  kept key stamp hk := by
    rw [hl]
    exact h.kept key stamp hk
  stamped key stamp hk := by
    rw [hl] at hk
    exact h.stamped key stamp hk

theorem Later.answer (h : Later c x y) {q : Request} (hq : ∀ cutoff, q ≠ .sweepLedger cutoff) :
    Later c x (c.handler q y).2 := by
  cases q with
  | sweepLedger cutoff => exact absurd rfl (hq cutoff)
  | recordSent key => exact h.record key
  | wasSent key => exact h.trans_ledger (Int.le_refl _) rfl
  | _ => exact h.trans_ledger (time_told c _ y.world) rfl

end

/-! A tick -/

section

variable (s : Scheduler) (now : Moment)

theorem upcoming_asks {A : Exchange → Prop} {P : Request → Prop}
    (hP : ∀ last, P (.events now last)) : (s.upcoming now).Asks A P := by
  refine (asks_ofExcept Fault.duration s.window).bind fun window => ?_
  refine (asks_ofExcept Fault.calendar (now.add window)).bind fun last => ?_
  refine (asks_call (hP last)).attempt.bind fun r => ?_
  cases r <;> trivial

theorem pass_asks : (s.pass now).Asks (fun _ => True) (Request.Timely now) := by
  have hasked : Request.Timely now .households := trivial
  refine (asks_call hasked).attempt.bind fun r => ?_
  cases r with
  | error f => trivial
  | ok households =>
    refine (upcoming_asks s now fun last => trivial).bind fun events => ?_
    refine asks_each fun household _ => ?_
    have hserve : (s.serve now events household).Asks (Exchange.Lists household fun _ => True)
        (Request.Serves household (fun _ => True)
          fun key => key.kind = Kind.choresDue.name → key = summaryKey key.household now) := by
      apply Scheduler.serve_asks
      · intro e lead hkind
        simp [reminderKey, Kind.name] at hkind
      · exact fun _ => rfl
    refine hserve.mono (fun _ _ _ _ _ _ => trivial) fun q hq => ?_
    cases q with
    | wasSent key => exact hq
    | clock | sweepLedger => exact hq.elim
    | _ => trivial

theorem tick_asks : s.tick.Asks (fun _ => True) (fun q => ∀ cutoff, q ≠ .sweepLedger cutoff) := by
  rw [tick_eq]
  refine asks_call_bind (q := .clock) (by simp) fun now _ => ?_
  refine (pass_asks s now).mono (fun _ h => h) ?_
  rintro q hq cutoff rfl
  exact hq

structure TickSpec (c : Clockwork ω) (x y : Scene ω) (xs : List Exchange) : Prop where
  later : Later c x y
  trace : y.trace = ⟨.clock, .ok (c.now x.world)⟩ :: xs
  orderly : Orderly x.ledger y.trace y.ledger
  timely : ∀ e ∈ xs, e.request.Timely (c.now x.world)

theorem tick_spec (c : Clockwork ω) {x : Scene ω} (hx : x.trace = []) :
    ∃ xs, TickSpec c x (run c.handler s.tick x).2.2 xs := by
  have hlater : Later c x (run c.handler s.tick x).2.2 :=
    run_keeps (fun _ _ => trivial) (tick_asks s) (fun _ _ hq h => h.answer hq)
      (later_of_ledger c (Int.le_refl _) rfl)
  obtain ⟨xs, htrace, htimely⟩ := trace_of_asks (handler_appends c) (fun _ _ => trivial)
    (pass_asks s (c.now x.world)) (c.handler .clock x).2
  rw [handler_appends, hx] at htrace
  -- nothing is swept in a tick, so it runs as over a ledger that cannot be swept
  have hsame : run c.handler s.tick x = run (withLedger c.told c.now) s.tick x :=
    run_congr (fun _ _ => trivial) (tick_asks s) (fun q y hq => handler_eq c hq y) x
  obtain ⟨ys, hys, horderly⟩ := tick_follows c.told c.now s x
  rw [← hsame, hx, List.nil_append] at hys
  rw [← hys, ← hsame] at horderly
  exact ⟨xs, hlater, htrace, horderly, htimely⟩

end

/-! A sweep -/

section

variable (j : Janitor)

theorem sweep_eq : ∃ f : Nat → Except Fault Nat → Plan Unit,
    (∀ windows r, (f windows r).Asks (fun _ => True) fun _ => False) ∧
      j.sweep = call .sweepThrottle >>= fun windows => attempt j.sweepLedger >>= f windows := by
  refine ⟨_, fun windows r => ?_, rfl⟩
  cases r <;> trivial

theorem sweep_asks {P : Request → Prop} (hthrottle : P .sweepThrottle) (hclock : P .clock)
    (hrows : ∀ cutoff, P (.sweepLedger cutoff)) : j.sweep.Asks (fun _ => True) P := by
  have hledger : j.sweepLedger.Asks (fun _ => True) P := by
    refine asks_call_bind (q := .clock) hclock fun now _ => ?_
    refine (asks_ofExcept _ _).bind fun cutoff => ?_
    exact asks_call (hrows cutoff)
  obtain ⟨f, hf, heq⟩ := sweep_eq j
  rw [heq]
  refine asks_call_bind (q := .sweepThrottle) hthrottle fun windows _ => ?_
  exact hledger.attempt.bind fun r => (hf windows r).mono (fun _ h => h) fun _ h => h.elim

variable (c : Clockwork ω) (x : Scene ω)

theorem sweepLedger_scene : (run c.handler j.sweepLedger x).2.2 = (c.handler .clock x).2 ∨
    ∃ cutoff, (c.now x.world).add? (-j.retention) = some cutoff ∧
      (run c.handler j.sweepLedger x).2.2 =
        (c.handler (.sweepLedger cutoff) (c.handler .clock x).2).2 := by
  have hrun : run c.handler j.sweepLedger x =
      run c.handler (ofExcept .calendar ((c.now x.world).add (-j.retention)) >>= fun cutoff =>
        call (.sweepLedger cutoff)) (c.handler .clock x).2 := rfl
  rw [hrun, Moment.add]
  cases (c.now x.world).add? (-j.retention) with
  | none => exact .inl rfl
  | some cutoff => exact .inr ⟨cutoff, rfl, rfl⟩

theorem sweep_scene : (run c.handler j.sweep x).2.2 = (c.handler .sweepThrottle x).2 ∨
    (run c.handler j.sweep x).2.2 =
      (run c.handler j.sweepLedger (c.handler .sweepThrottle x).2).2.2 := by
  obtain ⟨f, hf, heq⟩ := sweep_eq j
  show (outcome c.handler j.sweep x).2 = _ ∨ (outcome c.handler j.sweep x).2 = _
  rw [heq, outcome_bind, outcome_call]
  cases (c.handler .sweepThrottle x).1 with
  | error e => exact .inl rfl
  | ok w =>
    right
    dsimp only
    rw [outcome_attempt_bind]
    exact run_eq_of_asks (f := id) (fun _ _ => trivial) (hf w _) (fun _ _ h => h.elim) _

end

end Household.Reminder
