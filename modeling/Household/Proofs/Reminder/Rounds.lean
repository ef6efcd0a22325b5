import Household.Reminder.Tick

/-!
# Rounds of fan-outs

What a plan asks and is answered, in order, is its trace. A fan-out shows in
the trace as the listing of its targets, and it is for the key that was looked
up in the ledger last. A trace is orderly when every fan-out is for a key that
was not recorded, and exactly the keys whose targets could be listed are
recorded afterwards.
-/

set_option autoImplicit false

namespace Household.Reminder

open Household.Calendar

structure Exchange where
  request : Request
  reply : Except Fault request.Reply

structure FanOut where
  key? : Option Ledger.Key
  household : Int
  /-- Whether its targets could be listed. -/
  listed : Bool

/-- The fan-outs of a trace, where `key?` was looked up before it. -/
def fanOuts : Option Ledger.Key → List Exchange → List FanOut
  | _, [] => []
  | _, ⟨.wasSent key, _⟩ :: xs => fanOuts (some key) xs
  | key?, ⟨.targets household, reply⟩ :: xs =>
    ⟨key?, household, reply.isOk⟩ :: fanOuts key? xs
  | key?, _ :: xs => fanOuts key? xs

def reminderKey (household : Int) (e : Event) (lead : Int) : Ledger.Key :=
  ⟨household, Kind.calendarReminder.name, eventReference e.id, lead⟩

def summaryKey (household : Int) (now : Moment) : Ledger.Key :=
  ⟨household, Kind.choresDue.name, summaryReference now.date, 0⟩

def HasDue (now : Moment) : Except Fault (List Chore) → Prop
  | .ok cs => (∀ c ∈ cs, ∃ due, c.isDue now = .ok due) ∧ ∃ c ∈ cs, c.isDue now = .ok true
  | .error _ => False

def Request.isAside : Request → Bool
  | wasSent _ => false
  | targets _ => false
  | chores _ => false
  | _ => true

theorem fanOuts_append (key? : Option Ledger.Key) (xs ys : List Exchange) :
    ∃ last?, fanOuts key? (xs ++ ys) = fanOuts key? xs ++ fanOuts last? ys := by
  induction xs generalizing key? with
  | nil => exact ⟨key?, rfl⟩
  | cons x xs ih =>
    obtain ⟨q, r⟩ := x
    cases q with
    | wasSent key => exact ih (some key)
    | targets household =>
      obtain ⟨last?, h⟩ := ih key?
      exact ⟨last?, by simp [fanOuts, h]⟩
    | _ => exact ih key?

theorem fanOuts_cons_aside (key? : Option Ledger.Key) {x : Exchange} (hx : x.request.isAside = true)
    (xs : List Exchange) : fanOuts key? (x :: xs) = fanOuts key? xs := by
  obtain ⟨q, r⟩ := x
  cases q with
  | wasSent | targets => simp [Request.isAside] at hx
  | _ => rfl

theorem fanOuts_append_aside (key? : Option Ledger.Key) {xs : List Exchange}
    (hxs : ∀ x ∈ xs, x.request.isAside = true) (ys : List Exchange) :
    fanOuts key? (xs ++ ys) = fanOuts key? ys := by
  induction xs with
  | nil => rfl
  | cons x xs ih =>
    rw [List.forall_mem_cons] at hxs
    rw [List.cons_append, fanOuts_cons_aside key? hxs.1, ih hxs.2]

structure Orderly (l : Ledger) (xs : List Exchange) (l' : Ledger) : Prop where
  own : ∀ key?, fanOuts key? xs = fanOuts none xs
  keyed : ∀ f ∈ fanOuts none xs, ∃ key, f.key? = some key ∧ key.household = f.household
  final : (fanOuts none xs).Pairwise (fun f g => f.listed = true → f.key? ≠ g.key?)
  fresh : ∀ f ∈ fanOuts none xs, ∀ key, f.key? = some key → l.wasSent key = false
  recorded : ∀ key, l'.wasSent key = true ↔
    l.wasSent key = true ∨ ∃ f ∈ fanOuts none xs, f.key? = some key ∧ f.listed = true

theorem Orderly.fanOuts_append {l l' l'' : Ledger} {xs ys : List Exchange}
    (hx : Orderly l xs l') (hy : Orderly l' ys l'') (key? : Option Ledger.Key) :
    fanOuts key? (xs ++ ys) = fanOuts none xs ++ fanOuts none ys := by
  obtain ⟨last?, h⟩ := Reminder.fanOuts_append key? xs ys
  rw [h, hx.own, hy.own]

theorem Orderly.append {l l' l'' : Ledger} {xs ys : List Exchange} (hx : Orderly l xs l')
    (hy : Orderly l' ys l'') : Orderly l (xs ++ ys) l'' := by
  have all (key? : Option Ledger.Key) := hx.fanOuts_append hy key?
  have unrecorded {key : Ledger.Key} (h : l'.wasSent key = false) : l.wasSent key = false := by
    apply eq_false_of_ne_true
    intro hl
    rw [(hx.recorded key).mpr (.inl hl)] at h
    simp at h
  constructor
  · intro key?
    rw [all, all]
  · rw [all]
    exact List.forall_mem_append.mpr ⟨hx.keyed, hy.keyed⟩
  · rw [all, List.pairwise_append]
    refine ⟨hx.final, hy.final, fun f hf g hg hlisted hsame => ?_⟩
    obtain ⟨key, hkey, -⟩ := hx.keyed f hf
    have hthen := hy.fresh g hg key (hsame.symm.trans hkey)
    rw [(hx.recorded key).mpr (.inr ⟨f, hf, hkey, hlisted⟩)] at hthen
    simp at hthen
  · rw [all]
    refine List.forall_mem_append.mpr ⟨hx.fresh, fun g hg key hkey => ?_⟩
    exact unrecorded (hy.fresh g hg key hkey)
  · intro key
    rw [hy.recorded, hx.recorded, all, or_assoc]
    simp only [List.mem_append, or_and_right, exists_or]

theorem orderly_of_no_fanOut (l : Ledger) {xs : List Exchange} (hxs : ∀ key?, fanOuts key? xs = []) :
    Orderly l xs l := by
  refine ⟨fun key? => ?_, ?_, ?_, ?_, ?_⟩
  · rw [hxs, hxs]
  all_goals simp [hxs]

/-- An orderly trace of a tick at `now`. -/
structure Round (now : Moment) (l : Ledger) (xs : List Exchange) (l' : Ledger) : Prop
    extends Orderly l xs l' where
  summed : ∀ household reply, ⟨.chores household, reply⟩ ∈ xs → HasDue now reply →
    ∃ f ∈ fanOuts none xs, f.key? = some (summaryKey household now)

theorem Round.append {now : Moment} {l l' l'' : Ledger} {xs ys : List Exchange}
    (hx : Round now l xs l') (hy : Round now l' ys l'') : Round now l (xs ++ ys) l'' where
  toOrderly := hx.toOrderly.append hy.toOrderly
  summed household reply hmem hdue := by
    rw [hx.fanOuts_append hy.toOrderly]
    rcases List.mem_append.mp hmem with hmem | hmem
    · obtain ⟨f, hf, hkey⟩ := hx.summed household reply hmem hdue
      exact ⟨f, List.mem_append_left _ hf, hkey⟩
    · obtain ⟨f, hf, hkey⟩ := hy.summed household reply hmem hdue
      exact ⟨f, List.mem_append_right _ hf, hkey⟩

theorem round_of_no_fanOut {now : Moment} (l : Ledger) {xs : List Exchange}
    (hxs : ∀ key?, fanOuts key? xs = [])
    (hdue : ∀ household reply, ⟨.chores household, reply⟩ ∈ xs → ¬HasDue now reply) :
    Round now l xs l where
  toOrderly := orderly_of_no_fanOut l hxs
  summed household reply hmem h := absurd h (hdue household reply hmem)

theorem fanOuts_aside (key? : Option Ledger.Key) {xs : List Exchange}
    (hxs : ∀ x ∈ xs, x.request.isAside = true) : fanOuts key? xs = [] := by
  have h := fanOuts_append_aside key? hxs []
  rwa [List.append_nil] at h

theorem not_chores_of_aside {xs : List Exchange} (hxs : ∀ x ∈ xs, x.request.isAside = true)
    (household : Int) (reply : Except Fault (List Chore)) : ⟨.chores household, reply⟩ ∉ xs := by
  intro hmem
  have haside := hxs _ hmem
  simp [Request.isAside] at haside

theorem round_aside (now : Moment) (l : Ledger) {xs : List Exchange}
    (hxs : ∀ x ∈ xs, x.request.isAside = true) : Round now l xs l :=
  round_of_no_fanOut l (fun key? => fanOuts_aside key? hxs)
    fun household reply hmem => absurd hmem (not_chores_of_aside hxs household reply)

/-! A look-up that leads to a fan-out -/

section

variable {key : Ledger.Key} {seen : Except Fault Bool} {before after : List Exchange}
  {reply : Except Fault (List Target)}

theorem fanOuts_of_lookup (key? : Option Ledger.Key)
    (hbefore : ∀ last? xs, fanOuts last? (before ++ xs) = fanOuts last? xs)
    (hafter : ∀ x ∈ after, x.request.isAside = true) :
    fanOuts key? (⟨.wasSent key, seen⟩ ::
      (before ++ ⟨.targets key.household, reply⟩ :: after)) =
      [⟨some key, key.household, reply.isOk⟩] := by
  simp only [fanOuts, hbefore, fanOuts_aside _ hafter]

theorem fanOut_of_lookup (hbefore : ∀ last? xs, fanOuts last? (before ++ xs) = fanOuts last? xs)
    (hafter : ∀ x ∈ after, x.request.isAside = true) :
    ∃ f ∈ fanOuts none (⟨.wasSent key, seen⟩ ::
      (before ++ ⟨.targets key.household, reply⟩ :: after)), f.key? = some key := by
  rw [fanOuts_of_lookup none hbefore hafter]
  exact ⟨_, List.mem_singleton_self _, rfl⟩

theorem orderly_of_lookup {l l' : Ledger} (hl : l.wasSent key = false)
    (hbefore : ∀ last? xs, fanOuts last? (before ++ xs) = fanOuts last? xs)
    (hafter : ∀ x ∈ after, x.request.isAside = true)
    (hl' : ∀ k, l'.wasSent k = true ↔ l.wasSent k = true ∨ k = key ∧ reply.isOk = true) :
    Orderly l (⟨.wasSent key, seen⟩ ::
      (before ++ ⟨.targets key.household, reply⟩ :: after)) l' := by
  have all (key? : Option Ledger.Key) :
      fanOuts key? (⟨.wasSent key, seen⟩ ::
        (before ++ ⟨.targets key.household, reply⟩ :: after)) =
        [⟨some key, key.household, reply.isOk⟩] := fanOuts_of_lookup key? hbefore hafter
  constructor
  · intro key?
    rw [all, all]
  · simp [all]
  · simp [all]
  · rw [all]
    intro f hf k hk
    rw [List.mem_singleton.mp hf, Option.some.injEq] at hk
    rwa [← hk]
  · intro k
    simp only [hl', all, List.mem_singleton, exists_eq_left, Option.some.injEq]
    rw [@eq_comm _ k key]

/-- A look-up and a fan-out make a round if only the chores for a summary are
asked for in between. -/
theorem round_of_lookup {now : Moment} {l l' : Ledger} (hl : l.wasSent key = false)
    (hbefore : ∀ last? xs, fanOuts last? (before ++ xs) = fanOuts last? xs)
    (hsummary : ∀ household r, ⟨.chores household, r⟩ ∈ before → key = summaryKey household now)
    (hafter : ∀ x ∈ after, x.request.isAside = true)
    (hl' : ∀ k, l'.wasSent k = true ↔ l.wasSent k = true ∨ k = key ∧ reply.isOk = true) :
    Round now l (⟨.wasSent key, seen⟩ ::
      (before ++ ⟨.targets key.household, reply⟩ :: after)) l' where
  toOrderly := orderly_of_lookup hl hbefore hafter hl'
  summed household r hmem _ := by
    have hkey : key = summaryKey household now := by
      rcases List.mem_cons.mp hmem with h | h
      · simp at h
      · rcases List.mem_append.mp h with h | h
        · exact hsummary household r h
        · rcases List.mem_cons.mp h with h | h
          · simp at h
          · exact absurd h (not_chores_of_aside hafter household r)
    rw [← hkey]
    exact fanOut_of_lookup hbefore hafter

end

end Household.Reminder
