import Household.Proofs.Reminder.Laws

/-!
# The account of a fan-out

A fan-out goes through the targets as they are listed, and each of them meets
with one fate, whatever the others meet with. What is asked for is the fates
one after the other: nothing for a target that is left out, else a look-up,
then one push if the look-up said so, and right after it one removal if the
subscription had expired. The result is the number of pushes that succeeded.
-/

set_option autoImplicit false

namespace Household.Reminder

open Plan

namespace Plan

variable {α σ : Type}

def recording (h : Handler σ) : Handler (σ × List Exchange) := fun q s =>
  ((h q s.1).1, (h q s.1).2, s.2 ++ [⟨q, (h q s.1).1⟩])

/-- What is known at the end of a plan is known of its run. -/
theorem Obeys.run {law : Law} {Q : List Exchange → Except Fault α → Prop} {p : Plan α}
    {xs : List Exchange} (hp : p.Obeys law Q xs) (h : Handler σ) (s : σ) :
    Q (p.run (recording h) (s, xs)).2.2.2 (p.run (recording h) (s, xs)).1 := by
  induction p generalizing xs s with
  | done r => exact hp
  | ask q next ih => exact ih _ (hp.2 _) _
  | report e rest ih => exact ih hp s

end Plan

inductive Fate where
  | leftOut
  | unknown (f : Fault)
  | declined
  | sent
  | expired (reason : String) (removal : Except Fault Unit)
  | failed (f : Fault) (lasting : ∀ reason, f ≠ .expired reason)

namespace Fate

def isSent : Fate → Bool
  | sent => true
  | _ => false

def isEnabled : Fate → Bool
  | sent | expired _ _ | failed _ _ => true
  | _ => false

def isExpired : Fate → Bool
  | expired _ _ => true
  | _ => false

def exchanges (household : Int) (kind : Kind) (payload : Payload) (t : Target) :
    Fate → List Exchange
  | leftOut => []
  | unknown f => [⟨.isEnabled t.user household kind, .error f⟩]
  | declined => [⟨.isEnabled t.user household kind, .ok false⟩]
  | sent => [⟨.isEnabled t.user household kind, .ok true⟩, ⟨.send t payload, .ok ()⟩]
  | expired reason removal =>
    [⟨.isEnabled t.user household kind, .ok true⟩, ⟨.send t payload, .error (.expired reason)⟩,
      ⟨.removeEndpoint t.endpoint, removal⟩]
  | failed f _ =>
    [⟨.isEnabled t.user household kind, .ok true⟩, ⟨.send t payload, .error f⟩]

end Fate

def exchangesOver (household : Int) (kind : Kind) (payload : Payload)
    (fates : List (Target × Fate)) : List Exchange :=
  fates.flatMap (fun v => v.2.exchanges household kind payload v.1)

def sends (xs : List Exchange) : List Target :=
  xs.filterMap (fun x =>
    match x.request with
    | .send t _ => some t
    | _ => none)

def removals (xs : List Exchange) : List String :=
  xs.filterMap (fun x =>
    match x.request with
    | .removeEndpoint endpoint => some endpoint
    | _ => none)

def Exchange.succeeds : Exchange → Bool
  | ⟨.send _ _, .ok _⟩ => true
  | _ => false

/-- The targets `ts`, each with its fate, the exchanges over them and the number
that is returned. -/
structure Accounts (household : Int) (kind : Kind) (payload : Payload) (excluded? : Option Int)
    (ts : List Target) (fates : List (Target × Fate)) (xs : List Exchange) (n : Nat) : Prop where
  inOrder : fates.map Prod.fst = ts
  leftOut : ∀ v ∈ fates, v.2 = .leftOut ↔ excluded? = some v.1.user
  trace : xs = exchangesOver household kind payload fates
  sends : sends xs = (fates.filter (fun v => v.2.isEnabled)).map Prod.fst
  removals : removals xs = (fates.filter (fun v => v.2.isExpired)).map (fun v => v.1.endpoint)
  count : n = xs.countP Exchange.succeeds

inductive Accounted (household : Int) (kind : Kind) (payload : Payload) (excluded? : Option Int) :
    List Exchange → Except Fault Nat → Prop
  | unlisted (f : Fault) :
      Accounted household kind payload excluded? [⟨.targets household, .error f⟩] (.error f)
  | listed {ts : List Target} {fates : List (Target × Fate)} {xs : List Exchange} {n : Nat} :
      Accounts household kind payload excluded? ts fates xs n →
      Accounted household kind payload excluded? (⟨.targets household, .ok ts⟩ :: xs) (.ok n)

/-! Fates in a row -/

section

variable (household : Int) (kind : Kind) (payload : Payload)

theorem Fate.succeeds_exchanges (t : Target) (v : Fate) :
    (v.exchanges household kind payload t).countP Exchange.succeeds =
      if v.isSent then 1 else 0 := by
  cases v <;> rfl

variable (fates : List (Target × Fate))

theorem exchangesOver_cons (v : Target × Fate) : exchangesOver household kind payload (v :: fates) =
    v.2.exchanges household kind payload v.1 ++ exchangesOver household kind payload fates :=
  List.flatMap_cons

variable {fates} in
/-- What some of the fates leave one trace of. -/
theorem filterMap_exchangesOver {β : Type} {f : Exchange → Option β} {p : Fate → Bool}
    {k : Target → β} (hf : ∀ t (v : Fate), (v.exchanges household kind payload t).filterMap f =
      if p v then [k t] else []) :
    (exchangesOver household kind payload fates).filterMap f =
      (fates.filter (fun v => p v.2)).map (fun v => k v.1) := by
  induction fates with
  | nil => rfl
  | cons v fates ih =>
    rw [exchangesOver_cons, List.filterMap_append, ih, hf, List.filter_cons]
    by_cases hv : p v.2 = true <;> simp [hv]

theorem sends_exchangesOver : sends (exchangesOver household kind payload fates) =
    (fates.filter (fun v => v.2.isEnabled)).map Prod.fst := by
  apply filterMap_exchangesOver household kind payload (p := Fate.isEnabled) (k := fun t => t)
  intro t v
  cases v <;> rfl

theorem removals_exchangesOver : removals (exchangesOver household kind payload fates) =
    (fates.filter (fun v => v.2.isExpired)).map (fun v => v.1.endpoint) := by
  apply filterMap_exchangesOver household kind payload (p := Fate.isExpired) (k := Target.endpoint)
  intro t v
  cases v <;> rfl

theorem succeeds_exchangesOver :
    (exchangesOver household kind payload fates).countP Exchange.succeeds =
      fates.countP (fun v => v.2.isSent) := by
  induction fates with
  | nil => rfl
  | cons v fates ih =>
    rw [exchangesOver_cons, List.countP_append, ih, Fate.succeeds_exchanges, List.countP_cons]
    exact Nat.add_comm _ _

end

variable (logger : String) (household : Int) (kind : Kind) (payload : Payload)

/-! One target -/

def anything : Law := fun _ _ => True

theorem removeTarget_account (endpoint : String) (xs : List Exchange) :
    (removeTarget logger endpoint).Obeys anything
      (fun ys r => r = .ok () ∧
        ∃ removal, ys = xs ++ [⟨.removeEndpoint endpoint, removal⟩]) xs := by
  apply (obeys_call trivial).attempt_bind
  rintro ys r rfl
  cases r with
  | ok _ => exact ⟨rfl, _, rfl⟩
  | error f => exact ⟨rfl, _, rfl⟩

theorem push_account (t : Target) (xs : List Exchange) :
    (push logger kind payload t).Obeys anything
      (fun ys r => ∃ v : Fate, v ≠ .leftOut ∧ r = .ok v.isSent ∧
        ys = xs ++ v.exchanges household kind payload t)
      (xs ++ [⟨.isEnabled t.user household kind, .ok true⟩]) := by
  apply (obeys_call trivial).attempt_bind
  rintro ys r rfl
  rw [List.append_assoc, List.singleton_append]
  cases r with
  | ok _ => exact ⟨.sent, by simp, rfl, rfl⟩
  | error f =>
    cases f with
    | expired reason =>
      apply (removeTarget_account logger t.endpoint _).bind
      · rintro ys _ ⟨-, removal, rfl⟩
        rw [List.append_assoc]
        exact ⟨.expired reason removal, by simp, rfl, rfl⟩
      · rintro ys f ⟨hf, -⟩
        simp at hf
    | failure reason => exact ⟨.failed (.failure reason) (by simp), by simp, rfl, rfl⟩
    | transient reason => exact ⟨.failed (.transient reason) (by simp), by simp, rfl, rfl⟩
    | calendar e => exact ⟨.failed (.calendar e) (by simp), by simp, rfl, rfl⟩
    | duration e => exact ⟨.failed (.duration e) (by simp), by simp, rfl, rfl⟩
    | chore e => exact ⟨.failed (.chore e) (by simp), by simp, rfl, rfl⟩

theorem pushIfEnabled_account (t : Target) (xs : List Exchange) :
    (pushIfEnabled logger household kind payload t).Obeys anything
      (fun ys r => ∃ v : Fate, v ≠ .leftOut ∧ r = .ok v.isSent ∧
        ys = xs ++ v.exchanges household kind payload t) xs := by
  apply (obeys_call trivial).attempt_bind
  rintro ys r rfl
  cases r with
  | error f => exact ⟨.unknown f, by simp, rfl, rfl⟩
  | ok enabled =>
    cases enabled with
    | false => exact ⟨.declined, by simp, rfl, rfl⟩
    | true => exact push_account logger household kind payload t xs

/-! All targets -/

variable (excluded? : Option Int)

theorem pushAll_account (ts : List Target) (sent : Nat) (xs : List Exchange) :
    (pushAll logger household kind payload excluded? ts sent).Obeys anything
      (fun ys r => ∃ fates : List (Target × Fate), fates.map Prod.fst = ts ∧
        (∀ v ∈ fates, v.2 = .leftOut ↔ excluded? = some v.1.user) ∧
        ys = xs ++ exchangesOver household kind payload fates ∧
        r = .ok (sent + fates.countP (fun v => v.2.isSent))) xs := by
  induction ts generalizing sent xs with
  | nil => exact ⟨[], rfl, by simp, by simp [exchangesOver], rfl⟩
  | cons t ts ih =>
    rw [pushAll]
    by_cases hexcluded : excluded? = some t.user
    · rw [if_pos hexcluded]
      apply (ih sent xs).mono
      rintro ys r ⟨fates, rfl, hfates, rfl, rfl⟩
      refine ⟨(t, .leftOut) :: fates, rfl, ?_, rfl, rfl⟩
      rw [List.forall_mem_cons]
      exact ⟨iff_of_true rfl hexcluded, hfates⟩
    · rw [if_neg hexcluded]
      apply (pushIfEnabled_account logger household kind payload t xs).bind
      · rintro ys ok ⟨v, hv, hok, rfl⟩
        apply (ih _ _).mono
        rintro zs r ⟨fates, rfl, hfates, rfl, rfl⟩
        refine ⟨(t, v) :: fates, rfl, ?_, ?_, ?_⟩
        · rw [List.forall_mem_cons]
          exact ⟨iff_of_false hv hexcluded, hfates⟩
        · rw [exchangesOver_cons, List.append_assoc]
        · rw [Except.ok.inj hok, List.countP_cons]
          by_cases hsent : v.isSent = true <;> simp [hsent]
          omega
      · rintro ys f ⟨v, -, hf, -⟩
        simp at hf

theorem deliver_account : (deliver logger household kind payload excluded?).Obeys anything
    (Accounted household kind payload excluded?) [] := by
  apply (obeys_call trivial).bind
  · rintro ys ts rfl
    apply (pushAll_account logger household kind payload excluded? ts 0 _).mono
    rintro ys r ⟨fates, hts, hfates, rfl, rfl⟩
    apply Accounted.listed
    constructor
    · exact hts
    · exact hfates
    · rfl
    · exact sends_exchangesOver household kind payload fates
    · exact removals_exchangesOver household kind payload fates
    · rw [Nat.zero_add]
      exact (succeeds_exchangesOver household kind payload fates).symm
  · rintro ys f rfl
    exact .unlisted f

/-- Whatever the collaborators answer, a fan-out is accounted for. -/
theorem deliver_accounted {σ : Type} (h : Handler σ) (s : σ) :
    let run := (deliver logger household kind payload excluded?).run (recording h) (s, [])
    Accounted household kind payload excluded? run.2.2.2 run.1 :=
  (deliver_account logger household kind payload excluded?).run h s

/-- The first target is left out, the second has expired and cannot be removed,
the third is told. -/
example :
    let h : Handler Unit := fun q s =>
      match q with
      | .targets _ => (.ok [⟨1, "a"⟩, ⟨2, "b"⟩, ⟨3, "c"⟩], s)
      | .isEnabled _ _ _ => (.ok true, s)
      | .send t _ => (if t.user = 2 then .error (.expired "gone") else .ok (), s)
      | _ => (.error (.failure "down"), s)
    let run := (deliver "log" 10 .groceryAdded (.ofGrocery "Milk") (some 1)).run (recording h)
      ((), [])
    run.1 = .ok 1 ∧ sends run.2.2.2 = [⟨2, "b"⟩, ⟨3, "c"⟩] ∧ removals run.2.2.2 = ["b"] :=
  ⟨rfl, rfl, rfl⟩

end Household.Reminder
