import Household.Proofs.Reminder.Notices

/-!
# What a plan may ask for

The requests that a plan can come to make while it is answered in a given
way. The service of a household asks for nothing but what concerns this
household: it pushes to the targets that were listed for it, and it looks up
and records the keys of its reminders and of its summary.
-/

set_option autoImplicit false

namespace Household.Reminder

open Household.Calendar

namespace Plan

variable {α β σ : Type} {A : Exchange → Prop} {P : Request → Prop}

/-- Every request that the plan may come to make fulfils `P`, as long as the
exchanges before it fulfil `A`. -/
def Asks (A : Exchange → Prop) (P : Request → Prop) : Plan α → Prop
  | done _ => True
  | ask q next => P q ∧ ∀ r, A ⟨q, r⟩ → (next r).Asks A P
  | report _ rest => rest.Asks A P

theorem Asks.andThen {p : Plan α} {f : Except Fault α → Plan β} (hp : p.Asks A P)
    (hf : ∀ r, (f r).Asks A P) : (p.andThen f).Asks A P := by
  induction p with
  | done r => exact hf r
  | ask q next ih => exact ⟨hp.1, fun r hr => ih r (hp.2 r hr)⟩
  | report e rest ih => exact ih hp

theorem Asks.bind {p : Plan α} {f : α → Plan β} (hp : p.Asks A P) (hf : ∀ a, (f a).Asks A P) :
    (p >>= f).Asks A P := by
  apply Asks.andThen hp
  intro r
  cases r with
  | ok a => exact hf a
  | error e => trivial

theorem Asks.attempt {p : Plan α} (hp : p.Asks A P) : p.attempt.Asks A P :=
  hp.andThen fun _ => trivial

theorem Asks.mono {B : Exchange → Prop} {Q : Request → Prop} {p : Plan α} (hp : p.Asks A P)
    (hB : ∀ x, B x → A x) (hQ : ∀ q, P q → Q q) : p.Asks B Q := by
  induction p with
  | done r => trivial
  | ask q next ih => exact ⟨hQ q hp.1, fun r hr => ih r (hp.2 r (hB _ hr))⟩
  | report e rest ih => exact ih hp

theorem asks_any (p : Plan α) : p.Asks A fun _ => True := by
  induction p with
  | done r => trivial
  | ask q next ih => exact ⟨trivial, fun r _ => ih r⟩
  | report e rest ih => exact ih

theorem asks_call {q : Request} (h : P q) : (call q).Asks A P := ⟨h, fun _ _ => trivial⟩

theorem asks_call_bind {q : Request} {f : q.Reply → Plan α} (h : P q)
    (hf : ∀ a, A ⟨q, .ok a⟩ → (f a).Asks A P) : (call q >>= f).Asks A P := by
  refine ⟨h, fun r hr => ?_⟩
  cases r with
  | ok a => exact hf a hr
  | error e => trivial

theorem asks_ofExcept {ε : Type} (fault : ε → Fault) (r : Except ε α) :
    (ofExcept fault r).Asks A P := by
  cases r <;> trivial

theorem asks_each {f : β → Plan Unit} {bs : List β} (hf : ∀ b ∈ bs, (f b).Asks A P) :
    (each f bs).Asks A P := by
  induction bs with
  | nil => trivial
  | cons b bs ih =>
    rw [List.forall_mem_cons] at hf
    exact hf.1.bind fun _ => ih hf.2

section

variable {h : Handler σ} {p : Plan α} (hA : ∀ q s, A ⟨q, (h q s).1⟩) (hp : p.Asks A P)
include hA hp

/-- What every request of the plan keeps is kept by its run. -/
theorem run_keeps {I : σ → Prop} (hI : ∀ q s, P q → I s → I (h q s).2) {s : σ} (hs : I s) :
    I (run h p s).2.2 := by
  induction p generalizing s with
  | done r => exact hs
  | ask q next ih => exact ih _ (hp.2 _ (hA q s)) (hI q s hp.1 hs)
  | report e rest ih => exact ih hp hs

theorem run_eq_of_asks {τ : Type} {f : σ → τ} (hf : ∀ q s, P q → f (h q s).2 = f s) (s : σ) :
    f (run h p s).2.2 = f s :=
  run_keeps (I := fun t => f t = f s) hA hp (fun q t hq ht => (hf q t hq).trans ht) rfl

/-- Who answers the requests of the plan alike runs it alike. -/
theorem run_congr {h' : Handler σ} (hh : ∀ q s, P q → h' q s = h q s) (s : σ) :
    run h' p s = run h p s := by
  induction p generalizing s with
  | done r => rfl
  | ask q next ih =>
    show run h' (next (h' q s).1) (h' q s).2 = run h (next (h q s).1) (h q s).2
    rw [hh q s hp.1]
    exact ih _ (hp.2 _ (hA q s)) _
  | report e rest ih =>
    show (_, e :: _, _) = (_, e :: _, _)
    rw [ih hp s]

end

def Appends {ω : Type} (h : Handler (Scene ω)) : Prop :=
  ∀ q x, (h q x).2.trace = x.trace ++ [⟨q, (h q x).1⟩]

theorem trace_of_asks {ω : Type} {h : Handler (Scene ω)} (hh : Appends h) {p : Plan α}
    (hA : ∀ q s, A ⟨q, (h q s).1⟩) (hp : p.Asks A P) (x : Scene ω) :
    ∃ xs, (run h p x).2.2.trace = x.trace ++ xs ∧ ∀ e ∈ xs, P e.request := by
  apply run_keeps (I := fun y : Scene ω => ∃ xs, y.trace = x.trace ++ xs ∧ ∀ e ∈ xs, P e.request)
    hA hp
  · rintro q y hq ⟨xs, hxs, hP⟩
    refine ⟨xs ++ [⟨q, (h q y).1⟩], ?_, ?_⟩
    · rw [hh, hxs, List.append_assoc]
    · rw [List.forall_mem_append]
      exact ⟨hP, by simpa using hq⟩
  · exact ⟨[], (List.append_nil _).symm, by simp⟩

def LooksUp : Plan α → Prop
  | done _ => True
  | ask q _ => ∃ key, q = .wasSent key
  | report _ rest => rest.LooksUp

theorem LooksUp.andThen {p : Plan α} {f : Except Fault α → Plan β} (hp : p.LooksUp)
    (hf : ∀ r, (f r).LooksUp) : (p.andThen f).LooksUp := by
  induction p with
  | done r => exact hf r
  | ask q next => exact hp
  | report e rest ih => exact ih hp

theorem looksUp_each {f : β → Plan Unit} {bs : List β} (hf : ∀ b, (f b).LooksUp) :
    (each f bs).LooksUp := by
  induction bs with
  | nil => trivial
  | cons b bs ih =>
    apply (hf b).andThen
    intro r
    cases r with
    | ok a => exact ih
    | error e => trivial

theorem head_of_looksUp {ω : Type} {h : Handler (Scene ω)} (hh : Appends h) {p : Plan α}
    (hp : p.LooksUp) {x : Scene ω} {xs : List Exchange}
    (hxs : (run h p x).2.2.trace = x.trace ++ xs) :
    ∀ e ∈ xs.head?, ∃ key, e.request = .wasSent key := by
  induction p with
  | done r =>
    have hnil : xs = [] := List.append_cancel_left (hxs.symm.trans (List.append_nil _).symm)
    simp [hnil]
  | report e rest ih => exact ih hp hxs
  | ask q next =>
    -- the trace only grows, so this exchange stays the first of the new ones
    obtain ⟨ys, hys, -⟩ := trace_of_asks (A := fun _ => True) hh (fun _ _ => trivial)
      (asks_any (next (h q x).1)) (h q x).2
    have hall : x.trace ++ xs = x.trace ++ (⟨q, (h q x).1⟩ :: ys) := by
      rw [← hxs, ← List.singleton_append, ← List.append_assoc, ← hh q x]
      exact hys
    rw [List.append_cancel_left hall]
    intro e he
    rw [← Option.mem_some.mp he]
    exact hp

/-! Outcomes -/

theorem ok_bind (a : α) (f : α → Plan β) : (done (.ok a) >>= f) = f a := rfl

theorem error_bind (e : Fault) (f : α → Plan β) : (fail e >>= f) = fail e := rfl

section

variable (h : Handler σ)

def outcome (p : Plan α) (s : σ) : Except Fault α × σ := ((run h p s).1, (run h p s).2.2)

theorem outcome_ask (q : Request) (next : Except Fault q.Reply → Plan α) (s : σ) :
    outcome h (ask q next) s = outcome h (next (h q s).1) (h q s).2 := rfl

theorem outcome_call (q : Request) (s : σ) : outcome h (call q) s = h q s := rfl

theorem outcome_bind (p : Plan α) (f : α → Plan β) (s : σ) :
    outcome h (p >>= f) s =
      match (outcome h p s).1 with
      | .ok a => outcome h (f a) (outcome h p s).2
      | .error e => (.error e, (outcome h p s).2) := by
  show outcome h (p.andThen _) s = _
  simp only [outcome, run_andThen]
  cases (run h p s).1 <;> rfl

theorem outcome_attempt_bind (p : Plan α) (f : Except Fault α → Plan β) (s : σ) :
    outcome h (attempt p >>= f) s = outcome h (f (outcome h p s).1) (outcome h p s).2 := by
  show outcome h (p.attempt.andThen _) s = _
  simp only [outcome, attempt, run_andThen, run]

end

end Plan

open Plan

/-- The requests with which a household is served, where `owned` are endpoints
of its targets and `keys` are those of its notices. -/
def Request.Serves (household : Int) (owned : String → Prop) (keys : Ledger.Key → Prop) :
    Request → Prop
  | chores h => h = household
  | targets h => h = household
  | isEnabled _ h _ => h = household
  | send t _ => owned t.endpoint
  | removeEndpoint endpoint => owned endpoint
  | wasSent key => keys key
  | recordSent key => keys key
  | _ => False

def Request.Concerns (household : Int) (owned : String → Prop) : Request → Prop :=
  Serves household owned fun key => key.household = household

instance (household : Int) (owned : String → Prop) [DecidablePred owned] :
    DecidablePred (Request.Concerns household owned)
  | .chores h => inferInstanceAs (Decidable (h = household))
  | .targets h => inferInstanceAs (Decidable (h = household))
  | .isEnabled _ h _ => inferInstanceAs (Decidable (h = household))
  | .send t _ => inferInstanceAs (Decidable (owned t.endpoint))
  | .removeEndpoint endpoint => inferInstanceAs (Decidable (owned endpoint))
  | .wasSent key => inferInstanceAs (Decidable (key.household = household))
  | .recordSent key => inferInstanceAs (Decidable (key.household = household))
  | .clock | .households | .events _ _ | .sweepLedger _ | .allow _ | .sweepThrottle => isFalse id

def isSummary (key : Ledger.Key) : Bool := key.kind == Kind.choresDue.name

/-- The targets that are listed for the household have owned endpoints. -/
def Exchange.Lists (household : Int) (owned : String → Prop) (x : Exchange) : Prop :=
  ∀ ts, x = ⟨.targets household, .ok ts⟩ → ∀ t ∈ ts, owned t.endpoint

section

variable (logger : String) {household : Int} {owned : String → Prop} {keys : Ledger.Key → Prop}
  {A : Exchange → Prop}

theorem reportTo_asks {P : Request → Prop} (level : Log.Level) (text : String) :
    (reportTo logger level text).Asks A P := trivial

theorem removeTarget_asks {endpoint : String} (h : owned endpoint) :
    (removeTarget logger endpoint).Asks A (Request.Serves household owned keys) := by
  refine (asks_call (q := .removeEndpoint endpoint) h).attempt.bind fun r => ?_
  cases r with
  | ok _ => trivial
  | error e => exact reportTo_asks logger _ _

theorem push_asks (kind : Kind) (payload : Payload) {t : Target} (h : owned t.endpoint) :
    (push logger kind payload t).Asks A (Request.Serves household owned keys) := by
  refine (asks_call (q := .send t payload) h).attempt.bind fun r => ?_
  cases r with
  | ok _ => trivial
  | error e =>
    cases e with
    | expired reason =>
      refine (reportTo_asks logger _ _).bind fun _ => ?_
      exact (removeTarget_asks logger h).bind fun _ => trivial
    | _ => exact (reportTo_asks logger _ _).bind fun _ => trivial

theorem pushIfEnabled_asks (kind : Kind) (payload : Payload) {t : Target} (h : owned t.endpoint) :
    (pushIfEnabled logger household kind payload t).Asks A
      (Request.Serves household owned keys) := by
  have hasked : Request.Serves household owned keys (.isEnabled t.user household kind) := rfl
  refine (asks_call hasked).attempt.bind fun r => ?_
  cases r with
  | ok enabled =>
    cases enabled with
    | true => exact push_asks logger kind payload h
    | false => trivial
  | error e => exact (reportTo_asks logger _ _).bind fun _ => trivial

theorem pushAll_asks (kind : Kind) (payload : Payload) (excluded? : Option Int) {ts : List Target}
    (hts : ∀ t ∈ ts, owned t.endpoint) (sent : Nat) :
    (pushAll logger household kind payload excluded? ts sent).Asks A
      (Request.Serves household owned keys) := by
  induction ts generalizing sent with
  | nil => trivial
  | cons t ts ih =>
    rw [List.forall_mem_cons] at hts
    rw [pushAll]
    split
    · exact ih hts.2 sent
    · exact (pushIfEnabled_asks logger kind payload hts.1).bind fun ok => ih hts.2 _

theorem deliver_asks (kind : Kind) (payload : Payload) (excluded? : Option Int) :
    (deliver logger household kind payload excluded?).Asks (Exchange.Lists household owned)
      (Request.Serves household owned keys) :=
  asks_call_bind (q := .targets household) rfl fun ts hts =>
    pushAll_asks logger kind payload excluded? (hts ts rfl) 0

end

namespace Scheduler

variable (s : Scheduler) {household : Int} {owned : String → Prop} {keys : Ledger.Key → Prop}

theorem deliverOnce_asks (kind : Kind) {key : Ledger.Key} (hkey : keys key) (payload : Payload) :
    (s.deliverOnce kind key payload).Asks (Exchange.Lists key.household owned)
      (Request.Serves key.household owned keys) := by
  refine asks_call_bind (q := .wasSent key) hkey fun sent _ => ?_
  cases sent with
  | true => trivial
  | false =>
    refine (deliver_asks s.logger kind payload none).bind fun n => ?_
    exact (asks_call (q := .recordSent key) hkey).bind fun _ => trivial

theorem announce_asks {e : Event} (hkeys : ∀ lead, keys (reminderKey household e lead)) :
    (s.announce household e).Asks (Exchange.Lists household owned)
      (Request.Serves household owned keys) := by
  unfold announce
  split
  · trivial
  · trivial
  · rename_i lead _
    refine (deliverOnce_asks s _ (hkeys lead) _).attempt.bind fun r => ?_
    split
    · trivial
    · exact reportTo_asks s.logger _ _
    · exact reportTo_asks s.logger _ _

variable (now : Moment)

theorem dueChores_asks {A : Exchange → Prop} {P : Request → Prop} (cs : List Chore) :
    (dueChores now cs).Asks A P := by
  induction cs with
  | nil => trivial
  | cons c cs ih =>
    have warned : (Plan.each note c.warnings).Asks A P := asks_each fun _ _ => trivial
    refine warned.bind fun _ => ?_
    refine (asks_ofExcept Fault.chore (c.isDue now)).bind fun due => ?_
    exact ih.bind fun rest => trivial

theorem summarize_asks (hkeys : keys (summaryKey household now)) :
    (s.summarize household now).Asks (Exchange.Lists household owned)
      (Request.Serves household owned keys) := by
  unfold summarize
  split
  · trivial
  · refine asks_call_bind (q := .wasSent (summaryKey household now)) hkeys fun sent _ => ?_
    cases sent with
    | true => trivial
    | false =>
      refine asks_call_bind (q := .chores household) rfl fun chores _ => ?_
      refine (dueChores_asks now chores).bind fun due => ?_
      split
      · trivial
      · refine (deliver_asks s.logger _ _ none).bind fun n => ?_
        exact (asks_call (q := .recordSent (summaryKey household now)) hkeys).bind fun _ => trivial

theorem closeService_asks (hkeys : keys (summaryKey household now)) :
    (s.closeService now household).Asks (Exchange.Lists household owned)
      (Request.Serves household owned keys) := by
  refine (summarize_asks s now hkeys).attempt.bind fun r => ?_
  cases r <;> trivial

theorem afterReminders_asks (hkeys : keys (summaryKey household now)) (r : Except Fault Unit) :
    (s.afterReminders now household r).Asks (Exchange.Lists household owned)
      (Request.Serves household owned keys) := by
  cases r with
  | ok _ => exact closeService_asks s now hkeys
  | error f => exact (reportTo_asks s.logger _ _).bind fun _ => closeService_asks s now hkeys

theorem serve_asks (hreminders : ∀ e lead, keys (reminderKey household e lead))
    (hsummary : keys (summaryKey household now)) (events : List Event) :
    (s.serve now events household).Asks (Exchange.Lists household owned)
      (Request.Serves household owned keys) := by
  rw [serve_eq]
  refine (asks_each fun e _ => announce_asks s (hreminders e)).attempt.bind fun r => ?_
  exact afterReminders_asks s now hsummary r

theorem serve_concerns (events : List Event) :
    (s.serve now events household).Asks (Exchange.Lists household owned)
      (Request.Concerns household owned) := by
  apply serve_asks
  · exact fun _ _ => rfl
  · rfl

theorem announce_looksUp (household : Int) (e : Event) : (s.announce household e).LooksUp := by
  unfold announce
  split
  · trivial
  · trivial
  · exact ⟨_, rfl⟩

theorem closeService_looksUp (household : Int) : (s.closeService now household).LooksUp := by
  unfold closeService summarize
  split
  · trivial
  · exact ⟨_, rfl⟩

end Scheduler

end Household.Reminder
