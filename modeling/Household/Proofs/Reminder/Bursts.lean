import Household.Proofs.Reminder.Errands

/-!
# Bursts of grocery notices

However grocery notices, ticks and sweeps come together, no stretch of time as
long as a window of the throttle holds more than twice the limit of notices
that one household is told of. A notice that the throttle holds back asks for
nothing else.
-/

set_option autoImplicit false

namespace Household.Reminder

open Plan Throttle Scheduler

variable {τ : Type}

/-- The first exchange was with the throttle, which told whether a notice for the
household is let through. -/
def Answered (household : Int) (passed : Bool) (xs : List Exchange) : Prop :=
  xs.head? = some ⟨.allow (groceryKey household), .ok passed⟩

/-- A grocery notice asks the throttle, and goes on to the targets of its
household if it is let through. -/
def groceryLaw (household : Int) : Law := fun before q =>
  before = [] ∧ q = .allow (groceryKey household) ∨
    Answered household true before ∧ q.Serves household (fun _ => True) fun _ => False

def Errand.gate : Errand → Law
  | .grocery household _ _ => groceryLaw household
  | _ => fun _ _ => True

/-- A grocery notice comes to what the throttle has answered. -/
def Errand.comesTo : Errand → List Exchange → Except Fault (Option Bool) → Prop
  | .grocery household _ _, xs, r =>
    ∀ passed, r = .ok (some passed) → Answered household passed xs
  | _, _, _ => True

theorem deliver_gated (logger : String) (household : Int) (payload : Payload)
    (excluded? : Option Int) {xs : List Exchange} (h : Answered household true xs) :
    (deliver logger household .groceryAdded payload excluded?).Obeys (groceryLaw household)
      (fun ys _ => Answered household true ys) xs := by
  have hdeliver : (deliver logger household .groceryAdded payload excluded?).Asks
      (fun _ => True) (Request.Serves household (fun _ => True) fun _ => False) :=
    (deliver_asks logger _ _ _).mono (fun _ _ _ _ _ _ => trivial) fun _ hq => hq
  apply obeys_of_asks hdeliver
  · exact fun ys q hys hq => .inr ⟨hys, hq⟩
  · intro ys x hys _
    rw [Answered, List.head?_append, hys]
    rfl
  · exact h

theorem answered_of_ok {household : Int} {b passed : Bool} {xs : List Exchange}
    (h : Answered household b xs) (hpassed : (.ok b : Except Fault Bool) = .ok passed) :
    Answered household passed xs := by
  rw [← Except.ok.inj hpassed]
  exact h

theorem grocery_gated {s : Scheduler} (hs : s.throttled = true) (household : Int)
    (excluded? : Option Int) (item : String) :
    (s.grocery household excluded? item).Obeys (groceryLaw household)
      (fun xs r => ∀ passed, r = .ok passed → Answered household passed xs) [] := by
  unfold Scheduler.grocery Scheduler.passes
  rw [if_pos hs]
  have hcall : groceryLaw household [] (.allow (groceryKey household)) := .inl ⟨rfl, rfl⟩
  apply (obeys_call hcall).bind
  · rintro ys passed rfl
    cases passed with
    | false =>
      have hanswered : Answered household false [⟨.allow (groceryKey household), .ok false⟩] := rfl
      exact fun _ => answered_of_ok hanswered
    | true =>
      have hanswered : Answered household true [⟨.allow (groceryKey household), .ok true⟩] := rfl
      apply (deliver_gated s.logger household (.ofGrocery item) excluded? hanswered).attempt_bind
      intro ys r hys
      cases r with
      | ok n => exact fun _ => answered_of_ok hys
      | error f => exact fun _ => answered_of_ok hys
  · rintro ys e - passed hpassed
    simp at hpassed

theorem plan_gated {c : Service τ} (hc : c.scheduler.throttled = true) (e : Errand) :
    (c.plan e).Obeys e.gate e.comesTo [] := by
  have any {e : Errand} (hgate : ∀ xs q, e.gate xs q) (hcomesTo : ∀ xs r, e.comesTo xs r) :
      (c.plan e).Obeys e.gate e.comesTo [] :=
    (obeys_of_asks (asks_any _) (fun ys q _ _ => hgate ys q) (fun _ _ _ _ => trivial) trivial).mono
      fun ys r (_ : True) => hcomesTo ys r
  cases e with
  | tick => exact any (fun _ _ => trivial) fun _ _ => trivial
  | sweep => exact any (fun _ _ => trivial) fun _ _ => trivial
  | grocery household excluded? item =>
    apply (grocery_gated hc household excluded? item).bind
    · intro ys b hys passed hpassed
      rw [← Option.some.inj (Except.ok.inj hpassed)]
      exact hys b rfl
    · intro ys e _ passed hpassed
      simp at hpassed

/-! What the throttle was asked -/

section

variable (c : Service τ)

/-- What an exchange was for the throttle, if it was one with the throttle. -/
def Entry.met? : Entry τ → Option ((τ × Op τ) × (Bool ⊕ Nat))
  | ⟨_, now, ⟨.allow key, .ok passed⟩⟩ =>
    some ((now, .allow key c.limit c.length), .inl passed)
  | ⟨_, now, ⟨.sweepThrottle, .ok n⟩⟩ => some ((now, .sweep), .inr n)
  | _ => none

def meetings (log : List (Entry τ)) : List ((τ × Op τ) × (Bool ⊕ Nat)) :=
  log.filterMap (Entry.met? c)

theorem met?_time {x : Entry τ} {y : (τ × Op τ) × (Bool ⊕ Nat)} (h : x.met? c = some y) :
    y.1.1 = x.time := by
  unfold Entry.met? at h
  split at h
  · rw [← Option.some.inj h]
  · rw [← Option.some.inj h]
  · simp at h

theorem met?_key {log : List (Entry τ)} {y : (τ × Op τ) × (Bool ⊕ Nat)} {key : String}
    (hy : y ∈ meetings c log) (h : y.1.2.isFor key = true) :
    y.1.2 = .allow key c.limit c.length := by
  obtain ⟨x, -, hx⟩ := List.mem_filterMap.mp hy
  unfold Entry.met? at hx
  split at hx
  · rw [← Option.some.inj hx] at h ⊢
    rw [← beq_iff_eq.mp h]
  · rw [← Option.some.inj hx] at h
    simp [Op.isFor] at h
  · simp at hx

theorem meetings_times (log : List (Entry τ)) :
    ((meetings c log).map (fun y => y.1.1)).Sublist (log.map Entry.time) := by
  induction log with
  | nil => exact List.Sublist.refl _
  | cons x log ih =>
    unfold meetings at ih ⊢
    rw [List.filterMap_cons]
    cases hx : x.met? c with
    | none => exact ih.cons _
    | some y =>
      rw [List.map_cons, List.map_cons, ← met?_time c hx]
      exact ih.cons_cons _

variable [Add τ] [LT τ] [DecidableLT τ]

/-- The throttle of the desk is the one that has met with these calls alone. -/
structure Metered (d : Desk τ) : Prop where
  answers : (meetings c d.log).map Prod.snd =
    Throttle.answers .empty ((meetings c d.log).map Prod.fst)
  throttle : d.throttle = Throttle.after .empty ((meetings c d.log).map Prod.fst)

theorem Metered.of_met {d d' : Desk τ} (h : Metered c d) {x : Entry τ} (op : Op τ)
    (hx : x.met? c = some ((x.time, op), (d.throttle.step x.time op).1))
    (hlog : d'.log = d.log ++ [x]) (ht : d'.throttle = (d.throttle.step x.time op).2) :
    Metered c d' := by
  have hmeetings : meetings c d'.log =
      meetings c d.log ++ [((x.time, op), (d.throttle.step x.time op).1)] := by
    unfold meetings
    rw [hlog, List.filterMap_append, List.filterMap_cons, hx]
    rfl
  constructor
  · rw [hmeetings, List.map_append, List.map_append, answers_append, h.answers, ← h.throttle]
    rfl
  · rw [hmeetings, List.map_append, after_append, ← h.throttle, ht]
    rfl

theorem Metered.of_not_met {d d' : Desk τ} (h : Metered c d) {x : Entry τ}
    (hx : x.met? c = none) (hlog : d'.log = d.log ++ [x]) (ht : d'.throttle = d.throttle) :
    Metered c d' := by
  have hmeetings : meetings c d'.log = meetings c d.log := by
    unfold meetings
    rw [hlog, List.filterMap_append, List.filterMap_cons, hx, List.filterMap_nil, List.append_nil]
  constructor
  · rw [hmeetings, h.answers]
  · rw [hmeetings, ht, h.throttle]

theorem Metered.step {d d' : Desk τ} {now : τ} (h : Metered c d) (hstep : Desk.Step c d now d') :
    Metered c d' := by
  cases hstep with
  | start e => exact ⟨h.answers, h.throttle⟩
  | idle => exact h
  | @answer n e p q next reply hn hp =>
    cases q with
    | allow key => exact h.of_met c (.allow key c.limit c.length) rfl rfl rfl
    | sweepThrottle => exact h.of_met c .sweep rfl rfl rfl
    | _ => exact h.of_not_met c rfl rfl rfl

theorem metered_run (ms : List (τ × Move)) : Metered c (Desk.empty.run c ms) :=
  Desk.run_keeps c (fun _ _ _ hstep h => h.step c hstep) ⟨rfl, rfl⟩ ms

end

/-! The bound -/

def Errand.isFor (household : Int) : Errand → Bool
  | .grocery h _ _ => h == household
  | _ => false

def Entry.passed : Entry τ → Bool
  | ⟨_, _, ⟨.allow _, .ok passed⟩⟩ => passed
  | _ => false

def Desk.letThrough (d : Desk τ) (household : Int) : List τ :=
  (d.log.filter fun x => x.passed && (d.errand? x.errand).any (Errand.isFor household)).map
    Entry.time

theorem exists_of_isFor {household : Int} {e : Errand} (h : e.isFor household = true) :
    ∃ excluded? item, e = .grocery household excluded? item := by
  cases e with
  | grocery household' excluded? item =>
    rw [Errand.isFor, beq_iff_eq] at h
    exact ⟨excluded?, item, by rw [h]⟩
  | _ => simp [Errand.isFor] at h

theorem key_of_groceryLaw {household : Int} {before : List Exchange} {key : String}
    (h : groceryLaw household before (.allow key)) :
    before = [] ∧ key = groceryKey household := by
  rcases h with ⟨hbefore, hkey⟩ | ⟨-, hserves⟩
  · exact ⟨hbefore, Request.allow.inj hkey⟩
  · exact hserves.elim

theorem met?_of_passed {c : Service τ} {d : Desk τ} (hd : Lawful Errand.gate Errand.comesTo d)
    {household : Int} {x : Entry τ} (hx : x ∈ d.log) (hpassed : x.passed = true)
    (hfor : (d.errand? x.errand).any (Errand.isFor household) = true) :
    x.met? c =
      some ((x.time, .allow (groceryKey household) c.limit c.length), .inl true) := by
  obtain ⟨earlier, later, hlog⟩ := List.append_of_mem hx
  obtain ⟨e, he, hlaw⟩ := hd.asked earlier x later hlog
  rw [he, Option.any_some] at hfor
  obtain ⟨excluded?, item, rfl⟩ := exists_of_isFor hfor
  unfold Entry.passed at hpassed
  split at hpassed
  · rw [(key_of_groceryLaw hlaw).2, hpassed]
    rfl
  · simp at hpassed

theorem trace_of_refused {d : Desk τ} (hd : Lawful Errand.gate Errand.comesTo d) {n : Nat}
    {household : Int} {excluded? : Option Int} {item key : String}
    (hn : d.errand? n = some (.grocery household excluded? item))
    (hx : ⟨.allow key, .ok false⟩ ∈ d.trace n) :
    d.trace n = [⟨.allow (groceryKey household), .ok false⟩] := by
  obtain ⟨before, after, htrace⟩ := List.append_of_mem hx
  obtain ⟨rfl, rfl⟩ := key_of_groceryLaw (hd.trace_law hn htrace)
  cases after with
  | nil => exact htrace
  | cons y after =>
    -- what comes second would need to have been let through
    have hsecond : d.trace n = [⟨.allow (groceryKey household), .ok false⟩] ++ y :: after := htrace
    rcases hd.trace_law hn hsecond with ⟨hnil, -⟩ | ⟨hhead, -⟩
    · simp at hnil
    · simp [Answered] at hhead

theorem head_of_told {d : Desk τ} (hd : Lawful Errand.gate Errand.comesTo d) {n : Nat}
    {household : Int} {excluded? : Option Int} {item : String}
    (hn : d.errand? n = some (.grocery household excluded? item)) {x : Exchange}
    (hx : x ∈ d.trace n) (hkey : ∀ key, x.request ≠ .allow key) :
    Answered household true (d.trace n) := by
  obtain ⟨before, after, htrace⟩ := List.append_of_mem hx
  rcases hd.trace_law hn htrace with ⟨-, hallow⟩ | ⟨hhead, -⟩
  · exact absurd hallow (hkey _)
  · rw [Answered, htrace, List.head?_append, hhead]
    rfl

section

variable [AddCommMonoid τ] [LinearOrder τ] (c : Service τ)

theorem letThrough_le {d : Desk τ} (hd : Lawful Errand.gate Errand.comesTo d) (hc : Metered c d)
    (household : Int) (p : τ → Bool) :
    (d.letThrough household).countP p ≤
      (passed (answersFor .empty (groceryKey household)
        ((meetings c d.log).map Prod.fst))).countP p := by
  have hzip := List.zip_of_prod rfl hc.answers
  unfold answersFor passed Desk.letThrough
  -- both sides count entries of the log
  rw [← hzip, List.countP_map, List.countP_filter, meetings, List.filter_filterMap,
    List.filterMap_filterMap, List.countP_filterMap]
  apply List.countP_mono_left
  intro x hx hcount
  simp only [Function.comp_apply, Bool.and_eq_true] at hcount
  obtain ⟨hp, hpassed, hfor⟩ := hcount
  rw [met?_of_passed hd hx hpassed hfor]
  simp [Option.filter, Op.isFor, hp]

/-- A desk at which no household is told of too many notices in a stretch of
time, and where a notice goes to no one before the throttle lets it through. -/
structure Unhurried (d : Desk τ) : Prop where
  bound : ∀ household x,
    ((d.letThrough household).countP (inStretch c.length x) : Int) ≤ 2 * c.limit
  heldBack : ∀ n household excluded? item,
    d.errand? n = some (.grocery household excluded? item) →
      ∀ key, ⟨.allow key, .ok false⟩ ∈ d.trace n →
        d.trace n = [⟨.allow (groceryKey household), .ok false⟩]
  told : ∀ n household excluded? item,
    d.errand? n = some (.grocery household excluded? item) →
      ∀ x ∈ d.trace n, (∀ key, x.request ≠ .allow key) → Answered household true (d.trace n)
  result : ∀ n household excluded? item told,
    d.errand? n = some (.grocery household excluded? item) →
      d.result? n = some (.ok (some told)) → Answered household told (d.trace n)

variable [IsOrderedAddMonoid τ]

/-- Under a clock that does not go back no stretch as long as a window holds
more than twice the limit. -/
theorem bursts_bounded (hthrottled : c.scheduler.throttled = true) (hlimit : 1 ≤ c.limit)
    (ms : List (τ × Move)) (hclock : (ms.map Prod.fst).Pairwise (· ≤ ·)) :
    Unhurried c (Desk.empty.run c ms) := by
  have hlawful : Lawful Errand.gate Errand.comesTo (Desk.empty.run c ms) :=
    Lawful.of_run (plan_gated hthrottled) ms
  have hmetered := metered_run c ms
  obtain ⟨log, hlog, htimes⟩ := Desk.run_times c .empty ms
  have hlog : (Desk.empty.run c ms).log = log := hlog
  constructor
  · intro household x
    have hops : (((meetings c (Desk.empty.run c ms).log).map Prod.fst).map Prod.fst).Pairwise
        (· ≤ ·) := by
      rw [List.map_map, hlog]
      exact hclock.sublist ((meetings_times c log).trans htimes)
    have hkey : ∀ op ∈ (meetings c (Desk.empty.run c ms).log).map Prod.fst,
        op.2.isFor (groceryKey household) = true →
          op.2 = .allow (groceryKey household) c.limit c.length := by
      intro op hop hfor
      obtain ⟨y, hy, rfl⟩ := List.mem_map.mp hop
      exact met?_key c hy hfor
    have hpassed := passed_in_stretch hlimit hops hkey x
    have hle := letThrough_le c hlawful hmetered household (inStretch c.length x)
    omega
  · exact fun n household excluded? item hn key hx => trace_of_refused hlawful hn hx
  · exact fun n household excluded? item hn x hx hkey => head_of_told hlawful hn hx hkey
  · exact fun n household excluded? item told hn hr => hlawful.result hn hr told rfl

end

def fiveNotices : List (Int × Move) :=
  let down (q : Request) : Except Fault q.Reply := .error (.failure "down")
  [(0, .start (.grocery 1 none "Milk")), (0, .answer 0 down), (0, .start .sweep),
    (10, .start (.grocery 1 none "Eggs")), (10, .answer 2 down), (10, .answer 0 down),
    (10, .start (.grocery 1 none "Rice")), (10, .answer 3 down), (11, .answer 1 down),
    (11, .start (.grocery 1 none "Salt")), (11, .start (.grocery 1 none "Tea")),
    (11, .answer 4 down), (11, .answer 5 down)]

theorem five_notices_unhurried :
    let c : Service Int := ⟨⟨"log", .ok 0, true⟩, ⟨"log", 0⟩, 2, 10⟩
    c.scheduler.throttled = true ∧ 1 ≤ c.limit ∧
      (fiveNotices.map Prod.fst).Pairwise (· ≤ ·) ∧
      (Desk.empty.run c fiveNotices).letThrough 1 = [0, 10, 11, 11] ∧
      Unhurried c (Desk.empty.run c fiveNotices) := by
  intro c
  have hclock : (fiveNotices.map Prod.fst).Pairwise (· ≤ ·) := by decide
  exact ⟨rfl, by decide, hclock, by decide +kernel, bursts_bounded c rfl (by decide) _ hclock⟩

end Household.Reminder
