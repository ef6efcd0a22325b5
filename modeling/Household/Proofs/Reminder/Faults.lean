import Household.Proofs.Reminder.Deduplication
import Household.Proofs.Reminder.Requests

/-!
# Failing calls

The answers of collaborators depend on the request alone here, and any call
may fail instead. A plan none of whose calls fail comes to the same from any
two ledgers that agree on the keys it looks up, and it leaves all other keys
as they are. The service of a household comes to its end whatever fails.
-/

set_option autoImplicit false

namespace Household

def Ledger.AgreeOn (keys : Ledger.Key → Prop) (l l' : Ledger) : Prop :=
  ∀ key, keys key → l.wasSent key = l'.wasSent key

theorem Ledger.AgreeOn.record {keys : Ledger.Key → Prop} {l l' : Ledger} (h : l.AgreeOn keys l')
    (now now' : Calendar.Moment) (key : Ledger.Key) :
    (l.record now key).AgreeOn keys (l'.record now' key) := by
  intro k hk
  rw [Bool.eq_iff_iff, wasSent_record, wasSent_record, h k hk]

theorem Ledger.AgreeOn.trans {keys : Ledger.Key → Prop} {l l' l'' : Ledger}
    (h : l.AgreeOn keys l') (h' : l'.AgreeOn keys l'') : l.AgreeOn keys l'' :=
  fun key hkey => (h key hkey).trans (h' key hkey)

theorem Ledger.AgreeOn.symm {keys : Ledger.Key → Prop} {l l' : Ledger} (h : l.AgreeOn keys l') :
    l'.AgreeOn keys l :=
  fun key hkey => (h key hkey).symm

namespace Reminder

open Household.Calendar Plan

/-- Answers that depend on the request alone. -/
abbrev Replies := (q : Request) → Except Fault q.Reply

/-- Which calls fail, after what was asked and answered before. -/
abbrev Faults := List Exchange → Request → Option Fault

def noFaults : Faults := fun _ _ => none

theorem noFaults_eq (xs : List Exchange) (q : Request) : noFaults xs q = none := rfl

/-- These answers over a ledger, where some calls fail. -/
def faulty (reply : Replies) (stamp : Moment) (faults : Faults) : Handler (Scene Unit) :=
  fun q x =>
    match faults x.trace q with
    | some f => (.error f, { x with trace := x.trace ++ [⟨q, .error f⟩] })
    | none => withLedger (fun q w => (reply q, w)) (fun _ => stamp) q x

def owns (reply : Replies) (household : Int) (endpoint : String) : Bool :=
  match reply (.targets household) with
  | .ok ts => ts.any (fun t => t.endpoint == endpoint)
  | .error _ => false

abbrev Owned (reply : Replies) (household : Int) (endpoint : String) : Prop :=
  owns reply household endpoint = true

variable {α β : Type} {reply : Replies} {stamp : Moment} {faults faults' : Faults}
  {household : Int} {keys keys' : Ledger.Key → Prop}

theorem faulty_of_none {q : Request} {x : Scene Unit} (h : faults x.trace q = none) :
    faulty reply stamp faults q x = withLedger (fun q w => (reply q, w)) (fun _ => stamp) q x := by
  simp only [faulty, h]

section

variable (reply stamp faults)

theorem faulty_appends : Appends (faulty reply stamp faults) := by
  intro q x
  unfold faulty
  split
  · rfl
  · cases q <;> rfl

theorem faulty_lists (household : Int) (q : Request) (x : Scene Unit) :
    Exchange.Lists household (Owned reply household) ⟨q, (faulty reply stamp faults q x).1⟩ := by
  intro ts hts t ht
  obtain ⟨rfl, hreply⟩ := Exchange.mk.inj hts
  have hreply := eq_of_heq hreply
  unfold faulty at hreply
  split at hreply
  · simp at hreply
  · have hreply : reply (.targets household) = .ok ts := hreply
    simp only [Owned, owns, hreply, List.any_eq_true]
    exact ⟨t, ht, beq_self_eq_true _⟩

end

/-! Plans for one household -/

section

variable {p : Plan α} (hp : p.Asks (Exchange.Lists household (Owned reply household))
  (Request.Serves household (Owned reply household) keys))
include hp

theorem outcome_apart (stamp : Moment) (faults : Faults) (hkeys : ∀ key, keys key → ¬keys' key)
    (x : Scene Unit) :
    ∃ xs, (outcome (faulty reply stamp faults) p x).2.trace = x.trace ++ xs ∧
      (∀ e ∈ xs, e.request.Serves household (Owned reply household) keys) ∧
        x.ledger.AgreeOn keys' (outcome (faulty reply stamp faults) p x).2.ledger := by
  obtain ⟨xs, hxs, hserves⟩ := trace_of_asks (faulty_appends reply stamp faults)
    (faulty_lists reply stamp faults household) hp x
  refine ⟨xs, hxs, hserves, ?_⟩
  apply run_keeps (I := fun y : Scene Unit => x.ledger.AgreeOn keys' y.ledger)
    (faulty_lists reply stamp faults household) hp
  · intro q y hq hy
    unfold faulty
    split
    · exact hy
    · cases q with
      | recordSent key =>
        intro k hk
        have hne : k ≠ key := fun h => hkeys key hq (h ▸ hk)
        rw [hy k hk, Bool.eq_iff_iff]
        exact ((Ledger.wasSent_record _ _ _ _).trans (or_iff_left hne)).symm
      | _ => exact hy
  · exact fun _ _ => rfl

theorem outcome_alike (stamp : Moment)
    (hf : ∀ xs q, Request.Serves household (Owned reply household) keys q → faults xs q = none)
    (hf' : ∀ xs q, Request.Serves household (Owned reply household) keys q → faults' xs q = none)
    {x y : Scene Unit} (hxy : x.ledger.AgreeOn keys y.ledger) :
    ∃ xs, (outcome (faulty reply stamp faults) p x).2.trace = x.trace ++ xs ∧
      (outcome (faulty reply stamp faults') p y).2.trace = y.trace ++ xs ∧
        (outcome (faulty reply stamp faults) p x).1 =
          (outcome (faulty reply stamp faults') p y).1 ∧
        (outcome (faulty reply stamp faults) p x).2.ledger.AgreeOn keys
          (outcome (faulty reply stamp faults') p y).2.ledger := by
  induction p generalizing x y with
  | done r => exact ⟨[], (List.append_nil _).symm, (List.append_nil _).symm, rfl, hxy⟩
  | report e rest ih => exact ih hp hxy
  | ask q next ih =>
    have hanswer : (faulty reply stamp faults q x).1 = (faulty reply stamp faults' q y).1 ∧
        (faulty reply stamp faults q x).2.ledger.AgreeOn keys
          (faulty reply stamp faults' q y).2.ledger := by
      rw [faulty_of_none (hf _ q hp.1), faulty_of_none (hf' _ q hp.1)]
      cases q with
      | wasSent key => exact ⟨congrArg Except.ok (hxy key hp.1), hxy⟩
      | recordSent key => exact ⟨rfl, hxy.record _ _ key⟩
      | _ => exact ⟨rfl, hxy⟩
    obtain ⟨hreply, hledger⟩ := hanswer
    -- with one answer both runs go on with the same plan
    have hnext := hp.2 _ (faulty_lists reply stamp faults household q x)
    obtain ⟨xs, hxs, hys, hsame⟩ := ih _ hnext hledger
    have hx := faulty_appends reply stamp faults q x
    have hy := faulty_appends reply stamp faults' q y
    rw [← hreply] at hy
    rw [hx, List.append_assoc] at hxs
    rw [hy, List.append_assoc] at hys
    rw [outcome_ask, outcome_ask, ← hreply]
    exact ⟨_, hxs, hys, hsame⟩

end

/-! The service of a household -/

section

variable {σ : Type} (h : Handler σ) (s : Scheduler) (now : Moment)

theorem outcome_afterReminders (r : Except Fault Unit) (x : σ) :
    outcome h (s.afterReminders now household r) x = outcome h (s.closeService now household) x := by
  cases r <;> rfl

theorem outcome_serve (events : List Event) (x : σ) :
    outcome h (s.serve now events household) x =
      outcome h (s.closeService now household)
        (outcome h (each (s.announce household)
          (events.filter (fun e => decide (e.household = household)))) x).2 := by
  rw [serve_eq, outcome_attempt_bind, outcome_afterReminders]

theorem outcome_closeService (x : σ) : (outcome h (s.closeService now household) x).1 = .ok () := by
  rw [Scheduler.closeService, outcome_attempt_bind]
  cases (outcome h (s.summarize household now) x).1 <;> rfl

theorem serve_ok (events : List Event) (x : σ) :
    (outcome h (s.serve now events household) x).1 = .ok () := by
  rw [outcome_serve]
  exact outcome_closeService h s now _

theorem outcome_each_cons {f : β → Plan Unit} {b : β} {x : σ}
    (hb : (outcome h (f b) x).1 = .ok ()) (bs : List β) :
    outcome h (each f (b :: bs)) x = outcome h (each f bs) (outcome h (f b) x).2 := by
  show outcome h (f b >>= fun _ => each f bs) x = _
  rw [outcome_bind, hb]

theorem each_ok {f : β → Plan Unit} (hf : ∀ b x, (outcome h (f b) x).1 = .ok ()) (bs : List β)
    (x : σ) : (outcome h (each f bs) x).1 = .ok () := by
  induction bs generalizing x with
  | nil => rfl
  | cons b bs ih =>
    rw [outcome_each_cons h (hf b x)]
    exact ih _

end

/-! The beginning of a tick -/

/-- What the answers tell a tick before it asks for its events. -/
structure Begins (reply : Replies) (s : Scheduler) (now last : Moment) (households : List Int) :
    Prop where
  clock : reply .clock = .ok now
  households : reply .households = .ok households
  window : ∃ window, s.window = .ok window ∧ now.add window = .ok last

def opening (now last : Moment) (households : List Int) (r : Except Fault (List Event)) :
    List Exchange :=
  [⟨.clock, .ok now⟩, ⟨.households, .ok households⟩, ⟨.events now last, r⟩]

section

variable {s : Scheduler} {now last : Moment} {households : List Int}

theorem outcome_upcoming {σ : Type} {h : Handler σ} (hb : Begins reply s now last households)
    (x : σ) : outcome h (s.upcoming now) x =
      (.ok ((h (.events now last) x).1.toOption.getD []), (h (.events now last) x).2) := by
  obtain ⟨window, hwindow, hlast⟩ := hb.window
  unfold Scheduler.upcoming
  simp only [hwindow, hlast, Plan.ofExcept, ok_bind]
  rw [outcome_attempt_bind, outcome_call]
  cases (h (.events now last) x).1 <;> rfl

theorem outcome_tick (hb : Begins reply s now last households)
    (hclock : ∀ xs, faults xs .clock = none) (hhouseholds : ∀ xs, faults xs .households = none)
    (r : Except Fault (List Event))
    (hr : ∀ x, faulty reply stamp faults (.events now last) x =
      (r, { x with trace := x.trace ++ [⟨.events now last, r⟩] })) (l : Ledger) :
    outcome (faulty reply stamp faults) s.tick ⟨(), l, []⟩ =
      outcome (faulty reply stamp faults) (each (s.serve now (r.toOption.getD [])) households)
        ⟨(), l, opening now last households r⟩ := by
  have hask (x : Scene Unit) : faulty reply stamp faults .clock x =
      (.ok now, { x with trace := x.trace ++ [⟨.clock, .ok now⟩] }) := by
    rw [faulty_of_none (hclock _), ← hb.clock]
    rfl
  have hlist (x : Scene Unit) : faulty reply stamp faults .households x =
      (.ok households, { x with trace := x.trace ++ [⟨.households, .ok households⟩] }) := by
    rw [faulty_of_none (hhouseholds _), ← hb.households]
    rfl
  rw [tick_eq, outcome_bind, outcome_call, hask]
  dsimp only
  rw [Scheduler.pass, outcome_attempt_bind, outcome_call, hlist]
  dsimp only
  rw [outcome_bind, outcome_upcoming hb, hr]
  rfl

end

end Reminder

end Household
