import Household.Proofs.Reminder.Faults

/-!
# Failures stay in their household

Whatever fails in the service of one household, the others are served as if
nothing had: with the same calls, the same rows in the ledger, and a tick that
comes to its end. A feed that has no answer costs the reminders, but not the
summaries.
-/

set_option autoImplicit false

namespace Household.Reminder

open Household.Calendar Plan

/-- No two households have targets with one endpoint. -/
def Separate (reply : Replies) : Prop :=
  ∀ A B endpoint, Owned reply A endpoint → Owned reply B endpoint → A = B

def callsFor (reply : Replies) (household : Int) (xs : List Exchange) : List Exchange :=
  xs.filter (fun x => decide (x.request.Concerns household (Owned reply household)))

variable {reply : Replies} {stamp : Moment} {faults : Faults} (s : Scheduler) (now : Moment)
  {A B household : Int} {x y : Scene Unit}

theorem callsFor_append (xs ys : List Exchange) :
    callsFor reply household (xs ++ ys) = callsFor reply household xs ++ callsFor reply household ys :=
  List.filter_append _ _

theorem concerns_unique (hs : Separate reply) {q : Request} (hA : q.Concerns A (Owned reply A))
    (hB : q.Concerns B (Owned reply B)) : A = B := by
  cases q with
  | chores h | targets h | isEnabled _ h => exact hA.symm.trans hB
  | send | removeEndpoint => exact hs _ _ _ hA hB
  | wasSent key | recordSent key => exact hA.symm.trans hB
  | _ => exact hA.elim

/-! The other households -/

/-- The same of one household: the calls for it, and its rows. -/
structure SameFor (reply : Replies) (household : Int) (x y : Scene Unit) : Prop where
  calls : callsFor reply household x.trace = callsFor reply household y.trace
  tuples : x.ledger.AgreeOn (fun key => key.household = household) y.ledger

theorem serve_apart (hs : Separate reply) (hne : household ≠ B) (stamp : Moment) (faults : Faults)
    (events : List Event) (x : Scene Unit) :
    SameFor reply B x (outcome (faulty reply stamp faults) (s.serve now events household) x).2 := by
  have hkeys (key : Ledger.Key) (h : key.household = household) : ¬key.household = B :=
    fun hB => hne (h.symm.trans hB)
  obtain ⟨xs, hxs, hconcerns, hrows⟩ :=
    outcome_apart (s.serve_concerns now events) stamp faults hkeys x
  have hnone : callsFor reply B xs = [] := by
    rw [callsFor, List.filter_eq_nil_iff]
    intro e he hB
    exact hne (concerns_unique hs (hconcerns e he) (of_decide_eq_true hB))
  refine ⟨?_, hrows⟩
  rw [hxs, callsFor_append, hnone, List.append_nil]

theorem SameFor.trans {z : Scene Unit} (h : SameFor reply B x y) (h' : SameFor reply B y z) :
    SameFor reply B x z :=
  ⟨h.calls.trans h'.calls, h.tuples.trans h'.tuples⟩

theorem SameFor.symm (h : SameFor reply B x y) : SameFor reply B y x :=
  ⟨h.calls.symm, h.tuples.symm⟩

section

variable (hs : Separate reply) (hne : B ≠ A)
  (hf : ∀ xs q f, faults xs q = some f → q.Concerns A (Owned reply A))
include hs hne hf

theorem faults_of_other {q : Request} (hq : q.Concerns B (Owned reply B)) (xs : List Exchange) :
    faults xs q = none := by
  cases hfault : faults xs q with
  | none => rfl
  | some f => exact absurd (concerns_unique hs hq (hf xs q f hfault)) hne

theorem serve_alike (events : List Event) (h : SameFor reply B x y) :
    SameFor reply B (outcome (faulty reply stamp faults) (s.serve now events B) x).2
      (outcome (faulty reply stamp noFaults) (s.serve now events B) y).2 := by
  obtain ⟨xs, hxs, hys, -, hrows⟩ := outcome_alike (s.serve_concerns now events) stamp
    (fun xs q hq => faults_of_other hs hne hf hq xs) (fun xs q _ => noFaults_eq xs q) h.tuples
  refine ⟨?_, hrows⟩
  rw [hxs, hys, callsFor_append, callsFor_append, h.calls]

theorem serve_sameFor (events : List Event) (household : Int) (h : SameFor reply B x y) :
    SameFor reply B (outcome (faulty reply stamp faults) (s.serve now events household) x).2
      (outcome (faulty reply stamp noFaults) (s.serve now events household) y).2 := by
  by_cases hhousehold : household = B
  · subst hhousehold
    exact serve_alike s now hs hne hf events h
  · have hx := serve_apart s now hs hhousehold stamp faults events x
    have hy := serve_apart s now hs hhousehold stamp noFaults events y
    exact hx.symm.trans (h.trans hy)

theorem each_sameFor (events : List Event) (households : List Int) (h : SameFor reply B x y) :
    SameFor reply B
      (outcome (faulty reply stamp faults) (each (s.serve now events) households) x).2
      (outcome (faulty reply stamp noFaults) (each (s.serve now events) households) y).2 := by
  induction households generalizing x y with
  | nil => exact h
  | cons household households ih =>
    rw [outcome_each_cons _ (serve_ok _ s now events x), outcome_each_cons _ (serve_ok _ s now events y)]
    exact ih (serve_sameFor s now hs hne hf events household h)

end

/-! Summaries without the feed -/

def Exchange.lookedUp? : Exchange → Option Ledger.Key
  | ⟨.wasSent key, _⟩ => some key
  | _ => none

/-- The calls for summaries: those from the look-up of a summary's key up to
the next look-up, where `inside` is whether such a key was looked up last. -/
def summaryCalls : Bool → List Exchange → List Exchange
  | _, [] => []
  | inside, x :: xs =>
    if (x.lookedUp?.map isSummary).getD inside then
      x :: summaryCalls ((x.lookedUp?.map isSummary).getD inside) xs
    else summaryCalls ((x.lookedUp?.map isSummary).getD inside) xs

theorem summaryCalls_append (inside : Bool) (xs ys : List Exchange) :
    ∃ inside', summaryCalls inside (xs ++ ys) = summaryCalls inside xs ++ summaryCalls inside' ys := by
  induction xs generalizing inside with
  | nil => exact ⟨inside, rfl⟩
  | cons x xs ih =>
    obtain ⟨inside', h⟩ := ih ((x.lookedUp?.map isSummary).getD inside)
    refine ⟨inside', ?_⟩
    rw [List.cons_append, summaryCalls, summaryCalls, h]
    split <;> simp

section

variable {xs : List Exchange}

theorem summaryCalls_eq_nil
    (hxs : ∀ e ∈ xs, ∀ key, e.request = .wasSent key → isSummary key = false) :
    summaryCalls false xs = [] := by
  induction xs with
  | nil => rfl
  | cons x xs ih =>
    rw [List.forall_mem_cons] at hxs
    have hout : (x.lookedUp?.map isSummary).getD false = false := by
      obtain ⟨q, r⟩ := x
      cases q with
      | wasSent key => exact hxs.1 key rfl
      | _ => rfl
    rw [summaryCalls, hout]
    exact ih hxs.2

theorem summaryCalls_of_head (hxs : ∀ e ∈ xs.head?, ∃ key, e.request = .wasSent key)
    (inside inside' : Bool) : summaryCalls inside xs = summaryCalls inside' xs := by
  cases xs with
  | nil => rfl
  | cons x xs =>
    obtain ⟨key, hkey⟩ := hxs x rfl
    obtain ⟨q, r⟩ := x
    obtain rfl := hkey
    rfl

end

/-- The same calls for summaries, whatever was looked up before. -/
def SameSummaries (xs ys : List Exchange) : Prop :=
  ∀ inside inside', summaryCalls inside xs = summaryCalls inside' ys

theorem SameSummaries.append {xs ys xs' ys' : List Exchange} (h : SameSummaries xs ys)
    (h' : SameSummaries xs' ys') : SameSummaries (xs ++ xs') (ys ++ ys') := by
  intro inside inside'
  obtain ⟨a, ha⟩ := summaryCalls_append inside xs xs'
  obtain ⟨b, hb⟩ := summaryCalls_append inside' ys ys'
  rw [ha, hb, h inside inside', h' a b]

/-- From `x` and `y` on, two runs have made the same summaries. -/
structure SummarizedAlike (x y x' y' : Scene Unit) : Prop where
  calls : ∃ xs ys, x'.trace = x.trace ++ xs ∧ y'.trace = y.trace ++ ys ∧ SameSummaries xs ys
  tuples : x'.ledger.AgreeOn (fun key => isSummary key = true) y'.ledger

theorem SummarizedAlike.trans {x' y' x'' y'' : Scene Unit} (h : SummarizedAlike x y x' y')
    (h' : SummarizedAlike x' y' x'' y'') : SummarizedAlike x y x'' y'' := by
  obtain ⟨xs, ys, hx, hy, hsame⟩ := h.calls
  obtain ⟨xs', ys', hx', hy', hsame'⟩ := h'.calls
  refine ⟨⟨xs ++ xs', ys ++ ys', ?_, ?_, hsame.append hsame'⟩, h'.tuples⟩
  · rw [hx', hx, List.append_assoc]
  · rw [hy', hy, List.append_assoc]

section

variable (reply stamp faults)

theorem reminders_apart (household : Int) (events : List Event) (x : Scene Unit) :
    ∃ xs, (outcome (faulty reply stamp faults) (each (s.announce household) events) x).2.trace =
        x.trace ++ xs ∧ (∀ inside, summaryCalls inside xs = []) ∧
      x.ledger.AgreeOn (fun key => isSummary key = true)
        (outcome (faulty reply stamp faults) (each (s.announce household) events) x).2.ledger := by
  have hp : (each (s.announce household) events).Asks
      (Exchange.Lists household (Owned reply household))
      (Request.Serves household (Owned reply household) fun key => isSummary key = false) :=
    asks_each fun e _ => s.announce_asks fun lead => rfl
  obtain ⟨xs, hxs, hserves, hrows⟩ := outcome_apart hp stamp faults
    (fun key (h : isSummary key = false) => ne_true_of_eq_false h) x
  have hlooks : (each (s.announce household) events).LooksUp :=
    looksUp_each (s.announce_looksUp household)
  have hhead := head_of_looksUp (faulty_appends reply stamp faults) hlooks hxs
  -- a summary may have been looked up last, but the first call here is a look-up again
  refine ⟨xs, hxs, fun inside => ?_, hrows⟩
  rw [summaryCalls_of_head hhead inside false]
  apply summaryCalls_eq_nil
  intro e he key hkey
  have hserve := hserves e he
  rw [hkey] at hserve
  exact hserve

theorem reminders_alike (household : Int) (events events' : List Event)
    (h : x.ledger.AgreeOn (fun key => isSummary key = true) y.ledger) :
    SummarizedAlike x y
      (outcome (faulty reply stamp faults) (each (s.announce household) events) x).2
      (outcome (faulty reply stamp noFaults) (each (s.announce household) events') y).2 := by
  obtain ⟨xs, hxs, hnone, hrows⟩ := reminders_apart reply stamp faults s household events x
  obtain ⟨ys, hys, hnone', hrows'⟩ := reminders_apart reply stamp noFaults s household events' y
  refine ⟨⟨xs, ys, hxs, hys, fun inside inside' => ?_⟩, hrows.symm.trans (h.trans hrows')⟩
  rw [hnone, hnone']

variable {faults} (hf : ∀ xs q, (∀ first last, q ≠ .events first last) → faults xs q = none)
include hf

theorem closeService_alike (household : Int)
    (h : x.ledger.AgreeOn (fun key => isSummary key = true) y.ledger) :
    SummarizedAlike x y
      (outcome (faulty reply stamp faults) (s.closeService now household) x).2
      (outcome (faulty reply stamp noFaults) (s.closeService now household) y).2 := by
  have hp : (s.closeService now household).Asks (Exchange.Lists household (Owned reply household))
      (Request.Serves household (Owned reply household) fun key => isSummary key = true) :=
    s.closeService_asks now rfl
  have hfaults (xs : List Exchange) (q : Request)
      (hq : q.Serves household (Owned reply household) fun key => isSummary key = true) :
      faults xs q = none := by
    apply hf
    rintro first last rfl
    exact hq
  obtain ⟨xs, hxs, hys, -, hrows⟩ :=
    outcome_alike hp stamp hfaults (fun xs q _ => noFaults_eq xs q) h
  have hhead := head_of_looksUp (faulty_appends reply stamp faults)
    (s.closeService_looksUp now household) hxs
  exact ⟨⟨xs, xs, hxs, hys, summaryCalls_of_head hhead⟩, hrows⟩

theorem serve_summarizedAlike (household : Int) (events events' : List Event)
    (h : x.ledger.AgreeOn (fun key => isSummary key = true) y.ledger) :
    SummarizedAlike x y
      (outcome (faulty reply stamp faults) (s.serve now events household) x).2
      (outcome (faulty reply stamp noFaults) (s.serve now events' household) y).2 := by
  rw [outcome_serve, outcome_serve]
  have hreminders := reminders_alike reply stamp faults s household
    (events.filter (fun e => decide (e.household = household)))
    (events'.filter (fun e => decide (e.household = household))) h
  exact hreminders.trans (closeService_alike reply stamp s now hf household hreminders.tuples)

theorem each_summarizedAlike (households : List Int) (events events' : List Event)
    (h : x.ledger.AgreeOn (fun key => isSummary key = true) y.ledger) :
    SummarizedAlike x y
      (outcome (faulty reply stamp faults) (each (s.serve now events) households) x).2
      (outcome (faulty reply stamp noFaults) (each (s.serve now events') households) y).2 := by
  induction households generalizing x y with
  | nil =>
    exact ⟨⟨[], [], (List.append_nil _).symm, (List.append_nil _).symm, fun _ _ => rfl⟩, h⟩
  | cons household households ih =>
    rw [outcome_each_cons _ (serve_ok _ s now events x),
      outcome_each_cons _ (serve_ok _ s now events' y)]
    have hserve := serve_summarizedAlike reply stamp s now hf household events events' h
    exact hserve.trans (ih hserve.tuples)

end

/-! Whole ticks -/

/-- Only calls of which the household is the subject fail. -/
def FailsOnly (reply : Replies) (household : Int) (faults : Faults) : Prop :=
  ∀ xs q f, faults xs q = some f → q.Concerns household (Owned reply household)

/-- The feed has no answer to what events there are, and nothing else fails. -/
def feedDown (f : Fault) : Faults
  | _, .events _ _ => some f
  | _, _ => none

theorem feedDown_eq (f : Fault) (xs : List Exchange) (q : Request)
    (hq : ∀ first last, q ≠ .events first last) : feedDown f xs q = none := by
  cases q with
  | events first last => exact absurd rfl (hq first last)
  | _ => rfl

def tickUnder (reply : Replies) (stamp : Moment) (s : Scheduler) (l : Ledger) (faults : Faults) :
    Except Fault Unit × Scene Unit :=
  outcome (faulty reply stamp faults) s.tick ⟨(), l, []⟩

/-- What failures in a tick do not touch, compared with the tick without them. -/
structure Contained (reply : Replies) (stamp : Moment) (s : Scheduler) (l : Ledger) : Prop where
  others : ∀ A faults, FailsOnly reply A faults → ∀ B, B ≠ A →
    SameFor reply B (tickUnder reply stamp s l faults).2 (tickUnder reply stamp s l noFaults).2
  quiet : ∀ A faults, FailsOnly reply A faults → (tickUnder reply stamp s l faults).1 = .ok ()
  summaries : ∀ f, summaryCalls false (tickUnder reply stamp s l (feedDown f)).2.trace =
    summaryCalls false (tickUnder reply stamp s l noFaults).2.trace
  summaryTuples : ∀ f, (tickUnder reply stamp s l (feedDown f)).2.ledger.AgreeOn
    (fun key => isSummary key = true) (tickUnder reply stamp s l noFaults).2.ledger
  feedQuiet : ∀ f, (tickUnder reply stamp s l (feedDown f)).1 = .ok ()

section

variable {last : Moment} {households : List Int} (hb : Begins reply s now last households)
include hb

theorem tickUnder_eq {events : List Event} (he : reply (.events now last) = .ok events)
    (hclock : ∀ xs, faults xs .clock = none) (hhouseholds : ∀ xs, faults xs .households = none)
    (hevents : ∀ xs, faults xs (.events now last) = none) (l : Ledger) :
    tickUnder reply stamp s l faults =
      outcome (faulty reply stamp faults) (each (s.serve now events) households)
        ⟨(), l, opening now last households (.ok events)⟩ := by
  refine outcome_tick hb hclock hhouseholds (.ok events) (fun x => ?_) l
  rw [faulty_of_none (hevents _), ← he]
  rfl

theorem tickUnder_feedDown (f : Fault) (l : Ledger) :
    tickUnder reply stamp s l (feedDown f) =
      outcome (faulty reply stamp (feedDown f)) (each (s.serve now []) households)
        ⟨(), l, opening now last households (.error f)⟩ :=
  outcome_tick hb (fun _ => rfl) (fun _ => rfl) (.error f) (fun _ => rfl) l

/-- Whatever fails in one household, the ledger of the scheduler being any. -/
theorem failures_contained (hs : Separate reply) {events : List Event}
    (he : reply (.events now last) = .ok events) (stamp : Moment) (l : Ledger) :
    Contained reply stamp s l := by
  have hclean : tickUnder reply stamp s l noFaults = _ :=
    tickUnder_eq s now hb he (fun _ => rfl) (fun _ => rfl) (fun _ => rfl) l
  have houtside {A : Int} {faults : Faults} (hf : FailsOnly reply A faults) (q : Request)
      (hq : ¬q.Concerns A (Owned reply A)) (xs : List Exchange) : faults xs q = none := by
    cases hfault : faults xs q with
    | none => rfl
    | some f => exact absurd (hf xs q f hfault) hq
  have hfaulty {A : Int} {faults : Faults} (hf : FailsOnly reply A faults) :
      tickUnder reply stamp s l faults = _ :=
    tickUnder_eq s now hb he (houtside hf .clock id) (houtside hf .households id)
      (houtside hf (.events now last) id) l
  have hsummaries (f : Fault) : SummarizedAlike
      ⟨(), l, opening now last households (.error f)⟩ ⟨(), l, opening now last households (.ok events)⟩
      (tickUnder reply stamp s l (feedDown f)).2 (tickUnder reply stamp s l noFaults).2 := by
    rw [tickUnder_feedDown s now hb, hclean]
    exact each_summarizedAlike reply stamp s now (feedDown_eq f) households [] events fun _ _ => rfl
  refine ⟨?_, ?_, ?_, ?_, ?_⟩
  · intro A faults hf B hne
    rw [hfaulty hf, hclean]
    exact each_sameFor s now hs hne hf events households ⟨rfl, fun _ _ => rfl⟩
  · intro A faults hf
    rw [hfaulty hf]
    exact each_ok _ (fun _ => serve_ok _ s now events) households _
  · intro f
    obtain ⟨xs, ys, hx, hy, hsame⟩ := (hsummaries f).calls
    rw [hx, hy]
    exact hsame false false
  · exact fun f => (hsummaries f).tuples
  · intro f
    rw [tickUnder_feedDown s now hb]
    exact each_ok _ (fun _ => serve_ok _ s now []) households _

end

def twoHomes (now : Moment) : Replies
  | .clock => .ok now
  | .households => .ok [1, 2]
  | .events _ _ => .ok [⟨7, "Dentist", 1, .minutes 15⟩, ⟨8, "Vet", 2, .minutes 15⟩]
  | .chores household => .ok [⟨3, "Dishes", now, "", some household⟩]
  | .targets household =>
    .ok (if household = 1 then [⟨4, "x"⟩] else if household = 2 then [⟨5, "y"⟩] else [])
  | .isEnabled _ _ _ => .ok true
  | .send _ _ => .ok ()
  | _ => .error (.failure "down")

theorem separate_twoHomes (now : Moment) : Separate (twoHomes now) := by
  have home {household : Int} {endpoint : String} (h : Owned (twoHomes now) household endpoint) :
      household = 1 ∧ endpoint = "x" ∨ household = 2 ∧ endpoint = "y" := by
    simp only [Owned, owns, twoHomes] at h
    split at h
    · rename_i hone
      simp only [List.any_cons, List.any_nil, Bool.or_false, beq_iff_eq] at h
      exact .inl ⟨hone, h.symm⟩
    · split at h
      · rename_i htwo
        simp only [List.any_cons, List.any_nil, Bool.or_false, beq_iff_eq] at h
        exact .inr ⟨htwo, h.symm⟩
      · simp at h
  intro A B endpoint hA hB
  rcases home hA with ⟨rfl, rfl⟩ | ⟨rfl, rfl⟩ <;> rcases home hB with ⟨rfl, h⟩ | ⟨rfl, h⟩
  · rfl
  · simp at h
  · simp at h
  · rfl

theorem two_homes_contained :
    let now : Moment := ⟨⟨63908038800000000, by decide, by decide⟩, .utc, false⟩
    let s : Scheduler := ⟨"log", .ok 0, false⟩
    Begins (twoHomes now) s now now [1, 2] ∧ Separate (twoHomes now) ∧
      (∃ events, twoHomes now (.events now now) = .ok events) ∧
      (callsFor (twoHomes now) 2 (tickUnder (twoHomes now) now s .empty noFaults).2.trace).length = 11 ∧
      Contained (twoHomes now) now s .empty := by
  intro now s
  have hb : Begins (twoHomes now) s now now [1, 2] := ⟨rfl, rfl, 0, rfl, rfl⟩
  exact ⟨hb, separate_twoHomes now, ⟨_, rfl⟩, by decide +kernel,
    failures_contained s now hb (separate_twoHomes now) rfl now .empty⟩

end Household.Reminder
