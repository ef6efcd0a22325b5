import Household.Proofs.Reminder.Rounds

/-!
# The course of a plan

A plan is run over a ledger that answers for itself and a world that answers
everything else in any way, with failures wherever it likes. The trace keeps
what was asked and answered.
-/

set_option autoImplicit false

namespace Household.Reminder

open Household.Calendar Plan

structure Scene (ω : Type) where
  world : ω
  ledger : Ledger
  trace : List Exchange

variable {ω α β : Type}

/-- The world's answers, but those of the ledger; a record is stamped with
the time in the world. -/
def withLedger (answer : Handler ω) (stamp : ω → Moment) : Handler (Scene ω)
  | .wasSent key, x =>
    (.ok (x.ledger.wasSent key),
      { x with trace := x.trace ++ [⟨.wasSent key, .ok (x.ledger.wasSent key)⟩] })
  | .recordSent key, x =>
    (.ok (), ⟨x.world, x.ledger.record (stamp x.world) key,
      x.trace ++ [⟨.recordSent key, .ok ()⟩]⟩)
  | q, x =>
    ((answer q x.world).1, ⟨(answer q x.world).2, x.ledger,
      x.trace ++ [⟨q, (answer q x.world).1⟩]⟩)

/-- What is known when a plan has run from `x`: of its result, of what it has
added to the trace and of the ledger. -/
def Ensures (h : Handler (Scene ω)) (p : Plan α) (x : Scene ω)
    (Q : Except Fault α → List Exchange → Ledger → Prop) : Prop :=
  ∃ xs, (run h p x).2.2.trace = x.trace ++ xs ∧ Q (run h p x).1 xs (run h p x).2.2.ledger

section

variable {h : Handler (Scene ω)} {p : Plan α} {x : Scene ω}
  {Q : Except Fault α → List Exchange → Ledger → Prop}
  {R : Except Fault β → List Exchange → Ledger → Prop}

theorem Ensures.mono {Q' : Except Fault α → List Exchange → Ledger → Prop}
    (hp : Ensures h p x Q) (hq : ∀ r xs l, Q r xs l → Q' r xs l) : Ensures h p x Q' := by
  obtain ⟨xs, htrace, hxs⟩ := hp
  exact ⟨xs, htrace, hq _ _ _ hxs⟩

theorem ensures_done {r : Except Fault α} (hq : Q r [] x.ledger) : Ensures h (done r) x Q :=
  ⟨[], (List.append_nil _).symm, hq⟩

theorem ensures_report {e : Log.Entry} (hp : Ensures h p x Q) : Ensures h (report e p) x Q := hp

theorem Ensures.andThen {f : Except Fault α → Plan β} (hp : Ensures h p x Q)
    (hf : ∀ r xs (y : Scene ω), Q r xs y.ledger →
      Ensures h (f r) y (fun r' ys l => R r' (xs ++ ys) l)) :
    Ensures h (p.andThen f) x R := by
  obtain ⟨xs, htrace, hxs⟩ := hp
  obtain ⟨ys, htrace', hys⟩ := hf _ xs _ hxs
  refine ⟨xs ++ ys, ?_, ?_⟩
  · rw [run_andThen, ← List.append_assoc, ← htrace]
    exact htrace'
  · rw [run_andThen]
    exact hys

theorem Ensures.bind {f : α → Plan β} (hp : Ensures h p x Q)
    (ok : ∀ a xs (y : Scene ω), Q (.ok a) xs y.ledger →
      Ensures h (f a) y (fun r ys l => R r (xs ++ ys) l))
    (error : ∀ e xs l, Q (.error e) xs l → R (.error e) xs l) : Ensures h (p >>= f) x R := by
  refine hp.andThen fun r xs y hr => ?_
  cases r with
  | ok a => exact ok a xs y hr
  | error e =>
    apply ensures_done
    rw [List.append_nil]
    exact error e xs _ hr

theorem Ensures.bind_of_eq {f : α → Plan β} {a : α} (hp : Ensures h p x Q)
    (ha : (run h p x).1 = .ok a)
    (hf : ∀ xs, Q (.ok a) xs (run h p x).2.2.ledger →
      Ensures h (f a) (run h p x).2.2 (fun r ys l => R r (xs ++ ys) l)) :
    Ensures h (p >>= f) x R := by
  obtain ⟨xs, htrace, hxs⟩ := hp
  rw [ha] at hxs
  obtain ⟨ys, htrace', hys⟩ := hf xs hxs
  have hrun : (run h (p >>= f) x).1 = (run h (f a) (run h p x).2.2).1 ∧
      (run h (p >>= f) x).2.2 = (run h (f a) (run h p x).2.2).2.2 := by
    show (run h (p.andThen _) x).1 = _ ∧ (run h (p.andThen _) x).2.2 = _
    rw [run_andThen]
    simp only [ha, and_self]
  refine ⟨xs ++ ys, ?_, ?_⟩
  · rw [hrun.2, htrace', htrace, List.append_assoc]
  · rw [hrun.1, hrun.2]
    exact hys

theorem Ensures.attempt {R : Except Fault (Except Fault α) → List Exchange → Ledger → Prop}
    (hp : Ensures h p x (fun r xs l => R (.ok r) xs l)) : Ensures h p.attempt x R := by
  refine hp.andThen fun r xs y hr => ensures_done ?_
  rwa [List.append_nil]

end

/-! Single requests -/

section

variable (answer : Handler ω) (stamp : ω → Moment) (x : Scene ω)

theorem ensures_wasSent (key : Ledger.Key) :
    Ensures (withLedger answer stamp) (call (.wasSent key)) x
      (fun r xs l => r = .ok (x.ledger.wasSent key) ∧ xs = [⟨.wasSent key, r⟩] ∧ l = x.ledger) :=
  ⟨_, rfl, rfl, rfl, rfl⟩

theorem ensures_recordSent (key : Ledger.Key) :
    Ensures (withLedger answer stamp) (call (.recordSent key)) x
      (fun r xs l => r = .ok () ∧ xs = [⟨.recordSent key, r⟩] ∧
        ∃ now, l = x.ledger.record now key) :=
  ⟨_, rfl, rfl, rfl, _, rfl⟩

theorem ensures_call {q : Request} (hq : ∀ key, q ≠ .wasSent key ∧ q ≠ .recordSent key) :
    Ensures (withLedger answer stamp) (call q) x
      (fun r xs l => xs = [⟨q, r⟩] ∧ l = x.ledger) := by
  cases q with
  | wasSent key => exact absurd rfl (hq key).1
  | recordSent key => exact absurd rfl (hq key).2
  | _ => exact ⟨_, rfl, rfl, rfl⟩

end

/-! What every part of a plan keeps -/

/-- A relation between ledgers that adds up along the trace. -/
structure Adds (P : Ledger → List Exchange → Ledger → Prop) : Prop where
  nil : ∀ l, P l [] l
  append : ∀ {l l' l'' xs ys}, P l xs l' → P l' ys l'' → P l (xs ++ ys) l''

def Follows (h : Handler (Scene ω)) (P : Ledger → List Exchange → Ledger → Prop)
    (p : Plan α) : Prop :=
  ∀ x, Ensures h p x (fun _ xs l => P x.ledger xs l)

def Aside (l : Ledger) (xs : List Exchange) (l' : Ledger) : Prop :=
  (∀ x ∈ xs, x.request.isAside = true) ∧ l' = l

theorem adds_aside : Adds Aside where
  nil l := ⟨by simp, rfl⟩
  append hx hy := ⟨List.forall_mem_append.mpr ⟨hx.1, hy.1⟩, hy.2.trans hx.2⟩

theorem adds_orderly : Adds Orderly where
  nil l := orderly_of_no_fanOut l fun _ => rfl
  append := Orderly.append

theorem adds_round (now : Moment) : Adds (Round now) where
  nil l := round_aside now l (by simp)
  append := Round.append

section

variable {h : Handler (Scene ω)} {P : Ledger → List Exchange → Ledger → Prop} (hP : Adds P)
include hP

theorem follows_done (r : Except Fault α) : Follows h P (done r) :=
  fun x => ensures_done (hP.nil x.ledger)

theorem follows_ofExcept {ε : Type} (fault : ε → Fault) (r : Except ε α) :
    Follows h P (ofExcept fault r) := by
  cases r <;> exact follows_done hP _

theorem Follows.andThen {p : Plan α} {f : Except Fault α → Plan β} (hp : Follows h P p)
    (hf : ∀ r, Follows h P (f r)) : Follows h P (p.andThen f) := by
  intro x
  refine (hp x).andThen fun r xs y hxs => (hf r y).mono fun r' ys l hys => ?_
  exact hP.append hxs hys

theorem Follows.bind {p : Plan α} {f : α → Plan β} (hp : Follows h P p)
    (hf : ∀ a, Follows h P (f a)) : Follows h P (p >>= f) := by
  apply hp.andThen hP
  intro r
  cases r with
  | ok a => exact hf a
  | error e => exact follows_done hP _

theorem Follows.attempt {p : Plan α} (hp : Follows h P p) : Follows h P p.attempt :=
  hp.andThen hP fun _ => follows_done hP _

theorem follows_each {f : β → Plan Unit} {bs : List β} (hf : ∀ b ∈ bs, Follows h P (f b)) :
    Follows h P (each f bs) := by
  induction bs with
  | nil => exact follows_done hP _
  | cons b bs ih =>
    rw [List.forall_mem_cons] at hf
    exact Follows.bind hP hf.1 fun _ => ih hf.2

end

theorem Follows.mono {h : Handler (Scene ω)} {P P' : Ledger → List Exchange → Ledger → Prop}
    {p : Plan α} (hp : Follows h P p) (hPP' : ∀ l xs l', P l xs l' → P' l xs l') :
    Follows h P' p :=
  fun x => (hp x).mono fun _ _ _ => hPP' _ _ _

theorem follows_call (answer : Handler ω) (stamp : ω → Moment) {q : Request}
    (hq : q.isAside = true) (hq' : ∀ key, q ≠ .recordSent key) :
    Follows (withLedger answer stamp) Aside (call q) := by
  intro x
  have hcall : ∀ key, q ≠ .wasSent key ∧ q ≠ .recordSent key := fun key =>
    ⟨fun e => by simp [e, Request.isAside] at hq, hq' key⟩
  refine (ensures_call answer stamp x hcall).mono fun r xs l hxs => ⟨?_, hxs.2⟩
  rw [hxs.1]
  simpa using hq

/-! Plans that do not fail -/

def Succeeds (h : Handler (Scene ω)) (P : Ledger → List Exchange → Ledger → Prop)
    (p : Plan α) : Prop :=
  ∀ x, Ensures h p x (fun r xs l => (∃ a, r = .ok a) ∧ P x.ledger xs l)

theorem Succeeds.follows {h : Handler (Scene ω)} {P : Ledger → List Exchange → Ledger → Prop}
    {p : Plan α} (hp : Succeeds h P p) : Follows h P p :=
  fun x => (hp x).mono fun _ _ _ hr => hr.2

theorem succeeds_attempt {h : Handler (Scene ω)} {P : Ledger → List Exchange → Ledger → Prop}
    {p : Plan α} (hp : Follows h P p) : Succeeds h P p.attempt :=
  fun x => Ensures.attempt ((hp x).mono fun r _ _ hxs => ⟨⟨r, rfl⟩, hxs⟩)

section

variable {h : Handler (Scene ω)} {P : Ledger → List Exchange → Ledger → Prop} (hP : Adds P)
include hP

theorem succeeds_pure (a : α) : Succeeds h P (pure a) :=
  fun x => ensures_done ⟨⟨a, rfl⟩, hP.nil x.ledger⟩

theorem succeeds_note (e : Log.Entry) : Succeeds h P (note e) :=
  fun x => ensures_report (ensures_done ⟨⟨(), rfl⟩, hP.nil x.ledger⟩)

theorem Succeeds.bind {p : Plan α} {f : α → Plan β} (hp : Succeeds h P p)
    (hf : ∀ a, Succeeds h P (f a)) : Succeeds h P (p >>= f) := by
  intro x
  apply (hp x).bind
  · intro a xs y hr
    exact (hf a y).mono fun r ys l hr' => ⟨hr'.1, hP.append hr.2 hr'.2⟩
  · rintro e xs l ⟨⟨a, ha⟩, -⟩
    simp at ha

theorem succeeds_each {f : β → Plan Unit} {bs : List β} (hf : ∀ b ∈ bs, Succeeds h P (f b)) :
    Succeeds h P (each f bs) := by
  induction bs with
  | nil => exact succeeds_pure hP ()
  | cons b bs ih =>
    rw [List.forall_mem_cons] at hf
    exact Succeeds.bind hP hf.1 fun _ => ih hf.2

end

end Household.Reminder
