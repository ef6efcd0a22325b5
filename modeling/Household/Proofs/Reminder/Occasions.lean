import Household.Proofs.Reminder.Containment
import Household.Proofs.Reminder.Errands

/-!
# Occasions

What an errand may tell a household of, and when. A push needs an occasion, a
target that was listed for the household, and a user who was just found to
want such notices. A fan-out that has its occasion keeps to this, whatever
fails at the single targets.
-/

set_option autoImplicit false

namespace Household.Reminder

open Household.Calendar Plan Scheduler

/-! What an errand may tell -/

/-- The key under which an event is announced, if it has lead minutes. -/
def Event.key? (household : Int) (e : Event) : Option Ledger.Key :=
  match e.lead with
  | .minutes lead => some (reminderKey household e lead)
  | _ => none

def Event.isReadable (e : Event) : Bool :=
  match e.lead with
  | .unreadable _ => false
  | _ => true

theorem Event.key?_of_minutes {e : Event} {lead : Int} (h : e.lead = .minutes lead)
    (household : Int) : e.key? household = some (reminderKey household e lead) := by
  rw [Event.key?, h]

theorem Event.isReadable_of_minutes {e : Event} {lead : Int} (h : e.lead = .minutes lead) :
    e.isReadable = true := by rw [Event.isReadable, h]

/-- The reminders that a household hears of, up to lead minutes that cannot be
read. -/
def remindersOf (es : List Event) (household : Int) : List Ledger.Key :=
  ((es.filter (fun e => decide (e.household = household))).takeWhile Event.isReadable).filterMap
    (Event.key? household)

def isReminder (key : Ledger.Key) : Bool := key.kind == Kind.calendarReminder.name

def reminded (xs : List Exchange) : List Ledger.Key :=
  xs.filterMap (fun x => x.lookedUp?.filter isReminder)

/-- The chores that are due, where this can be said of all of them. -/
structure DueAmong (now : Moment) (cs due : List Chore) : Prop where
  known : ∀ c ∈ cs, ∃ b, c.isDue now = .ok b
  eq : due = cs.filter (fun c => decide ((c.isDue now).toOption = some true))

/-- After these exchanges an errand may tell a household of something, apart
from a user who is left out. -/
inductive Occasion : Errand → List Exchange → Int → Kind → Payload → Option Int → Prop
  | reminder {now last : Moment} {households : List Int} {es : List Event} {rest : List Exchange}
      {e : Event} {lead : Int} : e.household ∈ households → e ∈ es → e.lead = .minutes lead →
      Occasion .tick (opening now last households (.ok es) ++ rest ++
          [⟨.wasSent (reminderKey e.household e lead), .ok false⟩])
        e.household .calendarReminder (.ofEvent e lead) none
  | summary {now last : Moment} {households : List Int} {r : Except Fault (List Event)}
      {rest : List Exchange} {household : Int} {cs due : List Chore} : household ∈ households →
      now.wall.minute = 0 → DueAmong now cs due →
      Occasion .tick (opening now last households r ++ rest ++
          [⟨.wasSent (summaryKey household now), .ok false⟩, ⟨.chores household, .ok cs⟩])
        household .choresDue (.ofChores due) none
  | grocery {before : List Exchange} {household : Int} {excluded? : Option Int} {item : String} :
      Occasion (.grocery household excluded? item) before household .groceryAdded
        (.ofGrocery item) excluded?

def Request.isPush : Request → Bool
  | isEnabled _ _ _ => true
  | send _ _ => true
  | removeEndpoint _ => true
  | _ => false

/-- After the exchanges `earlier` these targets were listed for the household,
and there were only pushes since. -/
def Listing (earlier : List Exchange) (household : Int) (ts : List Target) (xs : List Exchange) :
    Prop :=
  ∃ pushes, xs = earlier ++ ⟨.targets household, .ok ts⟩ :: pushes ∧
    ∀ x ∈ pushes, x.request.isPush = true

/-- After these exchanges a target may be sent a payload. -/
inductive Sanctioned (e : Errand) (t : Target) (payload : Payload) : List Exchange → Prop
  | intro {earlier xs : List Exchange} {household : Int} {kind : Kind} {excluded? : Option Int}
      {ts : List Target} : Occasion e earlier household kind payload excluded? →
      Listing earlier household ts xs → t ∈ ts → excluded? ≠ some t.user →
      Sanctioned e t payload (xs ++ [⟨.isEnabled t.user household kind, .ok true⟩])

/-- It is the turn of this reminder: the households that were listed come one
after the other, each with its own events in the order of the feed. -/
inductive InTurn (key : Ledger.Key) : Errand → List Exchange → Prop
  | intro {now last : Moment} {households : List Int} {r : Except Fault (List Event)}
      {rest : List Exchange} :
      (reminded rest ++ [key] <+: households.flatMap (remindersOf (r.toOption.getD []))) →
      InTurn key .tick (opening now last households r ++ rest)

/-- Only sanctioned pushes are sent, and reminders come in turn. -/
def Errand.conduct (e : Errand) : Law
  | before, .send t payload => Sanctioned e t payload before
  | before, .wasSent key => isReminder key = true → InTurn key e before
  | _, _ => True

/-! Fan-outs -/

section

variable {e : Errand} {earlier xs : List Exchange} {household : Int} {kind : Kind}
  {payload : Payload} {excluded? : Option Int} {ts : List Target} (logger : String)

theorem Listing.add {x : Exchange} (h : Listing earlier household ts xs)
    (hx : x.request.isPush = true) : Listing earlier household ts (xs ++ [x]) := by
  obtain ⟨pushes, rfl, hpushes⟩ := h
  refine ⟨pushes ++ [x], by rw [List.append_assoc, List.cons_append], ?_⟩
  rw [List.forall_mem_append, List.forall_mem_singleton]
  exact ⟨hpushes, hx⟩

theorem removeTarget_listing (h : Listing earlier household ts xs) (endpoint : String) :
    (removeTarget logger endpoint).Obeys e.conduct (fun ys _ => Listing earlier household ts ys)
      xs := by
  have hlaw : e.conduct xs (.removeEndpoint endpoint) := trivial
  apply (obeys_call hlaw).attempt_bind
  rintro ys r rfl
  cases r with
  | ok _ => exact h.add rfl
  | error f => exact h.add rfl

theorem push_listing (kind : Kind) {t : Target} (h : Listing earlier household ts xs)
    (hsend : Sanctioned e t payload xs) :
    (push logger kind payload t).Obeys e.conduct (fun ys _ => Listing earlier household ts ys)
      xs := by
  have hlaw : e.conduct xs (.send t payload) := hsend
  apply (obeys_call hlaw).attempt_bind
  rintro ys r rfl
  have hsent : Listing earlier household ts (xs ++ [⟨.send t payload, r⟩]) := h.add rfl
  cases r with
  | ok _ => exact hsent
  | error f =>
    cases f with
    | expired reason =>
      apply (removeTarget_listing logger hsent t.endpoint).bind
      · exact fun ys _ hys => hys
      · exact fun ys _ hys => hys
    | _ => exact hsent

variable (hoccasion : Occasion e earlier household kind payload excluded?)
include hoccasion

theorem pushIfEnabled_listing {t : Target} (h : Listing earlier household ts xs) (ht : t ∈ ts)
    (hexcluded : excluded? ≠ some t.user) :
    (pushIfEnabled logger household kind payload t).Obeys e.conduct
      (fun ys _ => Listing earlier household ts ys) xs := by
  have hlaw : e.conduct xs (.isEnabled t.user household kind) := trivial
  apply (obeys_call hlaw).attempt_bind
  rintro ys r rfl
  cases r with
  | ok enabled =>
    cases enabled with
    | true => exact push_listing logger kind (h.add rfl) (.intro hoccasion h ht hexcluded)
    | false => exact h.add rfl
  | error f => exact h.add rfl

theorem pushAll_listing {us : List Target} (h : Listing earlier household ts xs)
    (hus : ∀ u ∈ us, u ∈ ts) (sent : Nat) :
    (pushAll logger household kind payload excluded? us sent).Obeys e.conduct
      (fun ys _ => Listing earlier household ts ys) xs := by
  induction us generalizing xs sent with
  | nil => exact h
  | cons u us ih =>
    rw [List.forall_mem_cons] at hus
    rw [pushAll]
    by_cases hexcluded : excluded? = some u.user
    · rw [if_pos hexcluded]
      exact ih h hus.2 sent
    · rw [if_neg hexcluded]
      apply (pushIfEnabled_listing logger hoccasion h hus.1 hexcluded).bind
      · exact fun ys ok hys => ih hys hus.2 _
      · exact fun ys _ hys => hys

theorem deliver_listing :
    (deliver logger household kind payload excluded?).Obeys e.conduct
      (fun ys _ => (∃ f, ys = earlier ++ [⟨.targets household, .error f⟩]) ∨
        ∃ ts, Listing earlier household ts ys) earlier := by
  have hlaw : e.conduct earlier (.targets household) := trivial
  apply (obeys_call hlaw).bind
  · rintro ys ts rfl
    have hlisted : Listing earlier household ts (earlier ++ [⟨.targets household, .ok ts⟩]) :=
      ⟨[], rfl, by simp⟩
    exact (pushAll_listing logger hoccasion hlisted (fun _ hu => hu) 0).mono
      fun ys _ hys => .inr ⟨ts, hys⟩
  · rintro ys f rfl
    exact .inl ⟨f, rfl⟩

end

end Household.Reminder
