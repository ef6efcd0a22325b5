import Household.Proofs.Reminder.Notices

/-!
# One fan-out for each key

Whatever the world answers, a scheduler runs at most one fan-out for each key
whose targets are listed, and the ledger holds exactly the keys for which one
has run. Any other key is tried again by every tick in which its notice is to
go out.
-/

set_option autoImplicit false

namespace Household.Reminder

open Household.Calendar Plan

variable {ω σ : Type}

/-- A tick once the time is known. -/
def Scheduler.pass (s : Scheduler) (now : Moment) : Plan Unit := do
  match ← attempt (call .households) with
  | .error f =>
    reportTo s.logger .error s!"Reminder tick: listing households failed: {f.message}"
  | .ok households =>
    let events ← s.upcoming now
    each (s.serve now events) households

theorem tick_eq (s : Scheduler) : s.tick = call .clock >>= s.pass := rfl

/-- What a tick that starts at `x` learns before it serves its households. -/
structure Opening (h : Handler σ) (s : Scheduler) (x : σ) (now : Moment) (households : List Int)
    (events : List Event) : Prop where
  clock : (h .clock x).1 = .ok now
  households : (h .households (h .clock x).2).1 = .ok households
  events : (run h (s.upcoming now) (h .households (h .clock x).2).2).1 = .ok events

/-- The keys whose notices are to go out in a tick that starts at `x` and has
the trace `xs`. Reminders need the lead times before them to be readable;
summaries need chores that are due, in some answer where there are several. -/
inductive Eligible (h : Handler σ) (s : Scheduler) (x : σ) (xs : List Exchange) :
    Ledger.Key → Prop
  | reminder {now : Moment} {households : List Int} {events before after : List Event}
      {household lead : Int} {e : Event} : Opening h s x now households events →
      household ∈ households →
      events.filter (fun c => decide (c.household = household)) = before ++ e :: after →
      (∀ c ∈ before, ∀ reason, c.lead ≠ .unreadable reason) → e.lead = .minutes lead →
      Eligible h s x xs (reminderKey household e lead)
  | summary {now : Moment} {households : List Int} {events : List Event} {household : Int} :
      Opening h s x now households events → household ∈ households → now.wall.minute = 0 →
      ((∃ e ∈ xs, e.request = .chores household) →
        ∃ reply, ⟨.chores household, reply⟩ ∈ xs ∧ HasDue now reply) →
      Eligible h s x xs (summaryKey household now)

def ticks (h : Handler σ) (s : Scheduler) : Nat → σ → σ
  | 0, x => x
  | n + 1, x => (run h s.tick (ticks h s n x)).2.2

/-- Every fan-out is for a key of its household; a key is left alone once its
targets were listed, is recorded exactly then, and is tried by the next tick
otherwise. -/
structure Deduplicated (h : Handler (Scene ω)) (s : Scheduler) (x : Scene ω) : Prop where
  keyed : ∀ f ∈ fanOuts none x.trace, ∃ key, f.key? = some key ∧ key.household = f.household
  once : ∀ key, ((fanOuts none x.trace).filter
    (fun f => decide (f.key? = some key) && f.listed)).length ≤ 1
  final : (fanOuts none x.trace).Pairwise (fun f g => f.listed = true → f.key? ≠ g.key?)
  recorded : ∀ key, x.ledger.wasSent key = true ↔
    ∃ f ∈ fanOuts none x.trace, f.key? = some key ∧ f.listed = true
  retried : ∀ xs key, (run h s.tick x).2.2.trace = x.trace ++ xs → Eligible h s x xs key →
    x.ledger.wasSent key = false → ∃ f ∈ fanOuts none xs, f.key? = some key

variable (answer : Handler ω) (stamp : ω → Moment) (s : Scheduler)

theorem upcoming_follows (now : Moment) :
    Follows (withLedger answer stamp) Aside (s.upcoming now) := by
  refine Follows.bind adds_aside (follows_ofExcept adds_aside _ _) fun window => ?_
  refine Follows.bind adds_aside (follows_ofExcept adds_aside _ _) fun last => ?_
  have hcall := follows_call answer stamp (q := .events now last) rfl (by simp)
  refine Follows.bind adds_aside (Follows.attempt adds_aside hcall) fun r => ?_
  cases r with
  | ok events => exact follows_done adds_aside _
  | error f =>
    refine Follows.bind adds_aside (reportTo_succeeds s.logger adds_aside _ _).follows ?_
    exact fun _ => follows_done adds_aside _

theorem follows_of_aside {α : Type} {h : Handler (Scene ω)} {p : Plan α} (hp : Follows h Aside p)
    (now : Moment) : Follows h (Round now) p := by
  refine hp.mono ?_
  rintro l xs l' ⟨hxs, rfl⟩
  exact round_aside now _ hxs

theorem pass_follows (now : Moment) :
    Follows (withLedger answer stamp) (Round now) (s.pass now) := by
  have hcall := follows_call answer stamp (q := .households) rfl (by simp)
  refine Follows.bind (adds_round now)
    (Follows.attempt (adds_round now) (follows_of_aside hcall now)) fun r => ?_
  cases r with
  | error f => exact (reportTo_succeeds s.logger (adds_round now) _ _).follows
  | ok households =>
    refine Follows.bind (adds_round now)
      (follows_of_aside (upcoming_follows answer stamp s now) now) fun events => ?_
    exact follows_each (adds_round now)
      fun household _ => (serve_succeeds answer stamp s now events household).follows

theorem tick_follows : Follows (withLedger answer stamp) Orderly s.tick := by
  have hcall := follows_call answer stamp (q := .clock) rfl (by simp)
  rw [tick_eq]
  refine Follows.bind adds_orderly (hcall.mono ?_) fun now => ?_
  · rintro l xs l' ⟨hxs, rfl⟩
    exact orderly_of_no_fanOut _ fun key? => fanOuts_aside key? hxs
  · exact (pass_follows answer stamp s now).mono fun _ _ _ hround => hround.toOrderly

theorem ledger_of_aside {α : Type} {h : Handler (Scene ω)} {p : Plan α} (hp : Follows h Aside p)
    (x : Scene ω) : (run h p x).2.2.ledger = x.ledger := by
  obtain ⟨xs, -, -, hl⟩ := hp x
  exact hl

theorem attends_after_aside {α β : Type} {h : Handler (Scene ω)} {x : Scene ω} {now : Moment}
    {key : Ledger.Key} {A : Exchange → Prop} {p : Plan α} {f : α → Plan β} {a : α}
    (hp : Follows h Aside p) (ha : (run h p x).1 = .ok a)
    (hf : Ensures h (f a) (run h p x).2.2
      (fun _ ys l => Round now (run h p x).2.2.ledger ys l ∧ Attends key A ys)) :
    Ensures h (p >>= f) x (fun _ xs l => Round now x.ledger xs l ∧ Attends key A xs) := by
  rw [ledger_of_aside hp] at hf
  refine (hp x).bind_of_eq ha fun xs hxs => hf.mono ?_
  rintro r ys l ⟨hround, hattends⟩
  have haside := round_aside now x.ledger hxs.1
  exact ⟨haside.append hround, hattends.append_right haside hround⟩

/-- A tick attends to what the service of one of its households attends to. -/
theorem tick_attends {x : Scene ω} {now : Moment} {households : List Int} {events : List Event}
    {household : Int} {key : Ledger.Key} {A : Exchange → Prop}
    (ho : Opening (withLedger answer stamp) s x now households events)
    (hmem : household ∈ households) (hx : x.ledger.wasSent key = false)
    (hserve : Meets (withLedger answer stamp) now key A (s.serve now events household)) :
    Ensures (withLedger answer stamp) s.tick x
      (fun _ xs l => Round now x.ledger xs l ∧ Attends key A xs) := by
  have hserves (c : Int) := serve_succeeds answer stamp s now events c
  have hall : Meets (withLedger answer stamp) now key A (each (s.serve now events) households) := by
    obtain ⟨before, after, rfl⟩ := List.append_of_mem hmem
    exact each_meets (fun c _ => hserves c) hserve (hserves household).follows
      fun c _ => (hserves c).follows
  have hclock := follows_call answer stamp (q := .clock) rfl (by simp)
  have hhouseholds := Follows.attempt adds_aside
    (follows_call answer stamp (q := .households) rfl (by simp))
  have hupcoming := upcoming_follows answer stamp s now
  rw [tick_eq]
  apply attends_after_aside hclock ho.clock
  apply attends_after_aside hhouseholds (congrArg Except.ok ho.households)
  apply attends_after_aside hupcoming ho.events
  apply hall
  rw [ledger_of_aside hupcoming]
  exact hx

theorem tick_retries {x : Scene ω} {xs : List Exchange} {key : Ledger.Key}
    (hxs : (run (withLedger answer stamp) s.tick x).2.2.trace = x.trace ++ xs)
    (he : Eligible (withLedger answer stamp) s x xs key) (hx : x.ledger.wasSent key = false) :
    ∃ f ∈ fanOuts none xs, f.key? = some key := by
  cases he with
  | reminder ho hmem hevents hbefore hlead =>
    obtain ⟨ys, hys, -, hattends⟩ := tick_attends answer stamp s ho hmem hx
      (serve_meets_reminder answer stamp s _ hevents hbefore hlead (fun _ => False))
    rw [hxs] at hys
    obtain rfl := List.append_cancel_left hys
    rcases hattends with hfan | ⟨y, -, hfalse⟩
    · exact hfan
    · exact hfalse.elim
  | summary ho hmem hminute hdue =>
    obtain ⟨ys, hys, hround, hattends⟩ := tick_attends answer stamp s ho hmem hx
      (serve_meets_summary answer stamp s _ _ hminute)
    rw [hxs] at hys
    obtain rfl := List.append_cancel_left hys
    rcases hattends with hfan | hasked
    · exact hfan
    · obtain ⟨reply, hreply, hdue'⟩ := hdue hasked
      exact hround.summed _ reply hreply hdue'

theorem listed_once {fs : List FanOut}
    (hfs : fs.Pairwise (fun f g => f.listed = true → f.key? ≠ g.key?)) (key : Ledger.Key) :
    (fs.filter (fun f => decide (f.key? = some key) && f.listed)).length ≤ 1 := by
  have hpairs := hfs.filter (fun f => decide (f.key? = some key) && f.listed)
  have hmem (f : FanOut)
      (hf : f ∈ fs.filter (fun f => decide (f.key? = some key) && f.listed)) :
      f.key? = some key ∧ f.listed = true := by
    simpa using (List.mem_filter.mp hf).2
  match hlist : fs.filter (fun f => decide (f.key? = some key) && f.listed) with
  | [] => simp [hlist]
  | [f] => simp [hlist]
  | f :: g :: rest =>
    rw [hlist] at hpairs hmem
    obtain ⟨hf, hlisted⟩ := hmem f (by simp)
    obtain ⟨hg, -⟩ := hmem g (by simp)
    have hne := (List.pairwise_cons.mp hpairs).1 g (by simp) hlisted
    exact absurd (hf.trans hg.symm) hne

theorem ticks_orderly (w : ω) (n : Nat) :
    Orderly .empty (ticks (withLedger answer stamp) s n ⟨w, .empty, []⟩).trace
      (ticks (withLedger answer stamp) s n ⟨w, .empty, []⟩).ledger := by
  induction n with
  | zero => exact adds_orderly.nil _
  | succ n ih =>
    obtain ⟨xs, hxs, horderly⟩ := tick_follows answer stamp s
      (ticks (withLedger answer stamp) s n ⟨w, .empty, []⟩)
    rw [ticks, hxs]
    exact ih.append horderly

/-- From an empty ledger, whatever the world answers. -/
theorem ticks_deduplicated (w : ω) (n : Nat) :
    Deduplicated (withLedger answer stamp) s
      (ticks (withLedger answer stamp) s n ⟨w, .empty, []⟩) := by
  have h := ticks_orderly answer stamp s w n
  constructor
  · exact h.keyed
  · exact fun key => listed_once h.final key
  · exact h.final
  · intro key
    have hempty : Ledger.wasSent .empty key = false := rfl
    rw [h.recorded, hempty]
    simp
  · exact fun xs key => tick_retries answer stamp s

/-- A world with one reminder in a household that is listed twice, where the
first listing of targets fails and nothing can be sent. -/
def flaky (now : Moment) : Handler Nat
  | .clock, n => (.ok now, n)
  | .households, n => (.ok [1, 1], n)
  | .events _ _, n => (.ok [⟨7, "Dentist", 1, .minutes 15⟩], n)
  | .targets _, n => (if n = 0 then .error (.failure "down") else .ok [⟨4, "x"⟩], n + 1)
  | .isEnabled _ _ _, n => (.ok true, n)
  | _, n => (.error (.failure "down"), n)

example :
    let now : Moment := ⟨⟨63908038800000000, by decide, by decide⟩, .utc, false⟩
    let key : Ledger.Key := ⟨1, "calendar_reminder", "event-7", 15⟩
    let x := ticks (withLedger (flaky now) (fun _ => now)) ⟨"log", .ok 0, false⟩ 3 ⟨0, .empty, []⟩
    fanOuts none x.trace = [⟨some key, 1, false⟩, ⟨some key, 1, true⟩] := rfl

end Household.Reminder
