import Household.Proofs.Reminder.Requests

/-!
# Laws of asking

A law says what may be asked after which exchanges. A plan obeys it if it asks
only what the law allows, whatever it is answered; what the plan comes to and
the exchanges up to its end are known as far as that follows from the answers.
-/

set_option autoImplicit false

namespace Household.Reminder

/-- What may be asked after these exchanges. -/
abbrev Law := List Exchange → Request → Prop

namespace Plan

variable {α β : Type} {law : Law} {P : Request → Prop} {Q : List Exchange → Except Fault α → Prop}
  {R : List Exchange → Except Fault β → Prop} {xs : List Exchange}

/-- After the exchanges `xs` the plan asks what the law allows, and `Q` holds
of all exchanges and the result at its end. -/
def Obeys (law : Law) (Q : List Exchange → Except Fault α → Prop) :
    Plan α → List Exchange → Prop
  | done r, xs => Q xs r
  | ask q next, xs => law xs q ∧ ∀ r, (next r).Obeys law Q (xs ++ [⟨q, r⟩])
  | report _ rest, xs => rest.Obeys law Q xs

theorem Obeys.andThen {p : Plan β} {f : Except Fault β → Plan α} (hp : p.Obeys law R xs)
    (hf : ∀ ys r, R ys r → (f r).Obeys law Q ys) : (p.andThen f).Obeys law Q xs := by
  induction p generalizing xs with
  | done r => exact hf xs r hp
  | ask q next ih => exact ⟨hp.1, fun r => ih r (hp.2 r)⟩
  | report e rest ih => exact ih hp

theorem Obeys.bind {p : Plan β} {f : β → Plan α} (hp : p.Obeys law R xs)
    (hok : ∀ ys b, R ys (.ok b) → (f b).Obeys law Q ys)
    (herror : ∀ ys e, R ys (.error e) → Q ys (.error e)) : (p >>= f).Obeys law Q xs := by
  apply Obeys.andThen hp
  intro ys r hr
  cases r with
  | ok b => exact hok ys b hr
  | error e => exact herror ys e hr

theorem Obeys.attempt_bind {p : Plan β} {f : Except Fault β → Plan α} (hp : p.Obeys law R xs)
    (hf : ∀ ys r, R ys r → (f r).Obeys law Q ys) : (p.attempt >>= f).Obeys law Q xs := by
  have hattempt : p.attempt.Obeys law (fun ys r => ∃ r', r = .ok r' ∧ R ys r') xs :=
    hp.andThen fun ys r hr => ⟨r, rfl, hr⟩
  apply hattempt.bind
  · rintro ys b ⟨r, hb, hr⟩
    rw [Except.ok.inj hb]
    exact hf ys r hr
  · rintro ys e ⟨r, he, -⟩
    simp at he

theorem Obeys.mono {Q' : List Exchange → Except Fault α → Prop} {p : Plan α}
    (hp : p.Obeys law Q xs) (h : ∀ ys r, Q ys r → Q' ys r) : p.Obeys law Q' xs := by
  induction p generalizing xs with
  | done r => exact h xs r hp
  | ask q next ih => exact ⟨hp.1, fun r => ih r (hp.2 r)⟩
  | report e rest ih => exact ih hp

theorem obeys_call {q : Request} (h : law xs q) :
    (call q).Obeys law (fun ys r => ys = xs ++ [⟨q, r⟩]) xs := ⟨h, fun _ => rfl⟩

theorem obeys_ofExcept {ε : Type} (fault : ε → Fault) (r : Except ε α) :
    (ofExcept fault r).Obeys law (fun ys r' => ys = xs ∧ ∀ a, r' = .ok a → r = .ok a) xs := by
  cases r with
  | ok a => exact ⟨rfl, fun b h => congrArg Except.ok (Except.ok.inj h)⟩
  | error e => exact ⟨rfl, fun b h => by simp at h⟩

theorem obeys_each {f : β → Plan Unit} {bs : List β} {I : List β → List Exchange → Prop}
    {E : List Exchange → Prop}
    (hf : ∀ before b after ys, bs = before ++ b :: after → I before ys →
      (f b).Obeys law (fun zs r => (r = .ok () → I (before ++ [b]) zs) ∧ (r ≠ .ok () → E zs)) ys)
    (hxs : I [] xs) :
    (each f bs).Obeys law (fun ys r => (r = .ok () → I bs ys) ∧ (r ≠ .ok () → E ys)) xs := by
  -- `before` has been done and `after` is still to come
  have hrest (before after : List β) (hbs : bs = before ++ after) (ys : List Exchange)
      (hys : I before ys) : (each f after).Obeys law
        (fun ys r => (r = .ok () → I bs ys) ∧ (r ≠ .ok () → E ys)) ys := by
    induction after generalizing before ys with
    | nil =>
      rw [List.append_nil] at hbs
      exact ⟨fun _ => hbs ▸ hys, fun h => absurd rfl h⟩
    | cons b after ih =>
      apply (hf before b after ys hbs hys).bind
      · intro zs _ hzs
        have hsplit : bs = (before ++ [b]) ++ after := by rw [hbs, List.append_assoc]; rfl
        exact ih (before ++ [b]) hsplit zs (hzs.1 rfl)
      · intro zs e hzs
        exact ⟨fun h => by simp at h, fun _ => hzs.2 (by simp)⟩
  exact hrest [] bs rfl xs hxs

/-- What the requests of a plan keep holds at its end, and if the law allows
them wherever it holds, the plan obeys the law. -/
theorem obeys_of_asks {I : List Exchange → Prop} {p : Plan α} (hp : p.Asks (fun _ => True) P)
    (hlaw : ∀ ys q, I ys → P q → law ys q)
    (hI : ∀ ys x, I ys → P x.request → I (ys ++ [x])) (hxs : I xs) :
    p.Obeys law (fun ys _ => I ys) xs := by
  induction p generalizing xs with
  | done r => exact hxs
  | ask q next ih =>
    exact ⟨hlaw xs q hxs hp.1, fun r => ih r (hp.2 r trivial) (hI xs ⟨q, r⟩ hxs hp.1)⟩
  | report e rest ih => exact ih hp hxs

def pending? : Plan α → Option ((q : Request) × (Except Fault q.Reply → Plan α))
  | done _ => none
  | ask q next => some ⟨q, next⟩
  | report _ rest => rest.pending?

def result? : Plan α → Option (Except Fault α)
  | done r => some r
  | ask _ _ => none
  | report _ rest => rest.result?

theorem Obeys.result {p : Plan α} {r : Except Fault α} (hp : p.Obeys law Q xs)
    (h : p.result? = some r) : Q xs r := by
  induction p with
  | done r' =>
    rw [← Option.some.inj h]
    exact hp
  | ask q next => simp [result?] at h
  | report e rest ih => exact ih hp h

theorem Obeys.pending {p : Plan α} {q : Request} {next : Except Fault q.Reply → Plan α}
    (hp : p.Obeys law Q xs) (h : p.pending? = some ⟨q, next⟩) :
    law xs q ∧ ∀ r, (next r).Obeys law Q (xs ++ [⟨q, r⟩]) := by
  induction p with
  | done r => simp [pending?] at h
  | ask q' next' =>
    obtain ⟨rfl, hnext⟩ := Sigma.mk.inj (Option.some.inj h)
    rw [← eq_of_heq hnext]
    exact hp
  | report e rest ih => exact ih hp h

end Plan

end Household.Reminder
