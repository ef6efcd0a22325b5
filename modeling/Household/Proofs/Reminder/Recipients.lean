import Household.Proofs.Reminder.Occasions
import Household.Proofs.Reminder.Shifts

/-!
# Who is told

Every fan-out of a tick or a grocery notice has its occasion: it tells of an
event of the household, of its chores, or of the item that the grocery notice
is about, and in the last case not to the excluded user. A tick serves the
households it was given, and each of them hears of its own events in the order
of the feed.
-/

set_option autoImplicit false

namespace Household.Reminder

open Household.Calendar Plan Scheduler

/-! Ticks -/

theorem reminded_append (xs ys : List Exchange) :
    reminded (xs ++ ys) = reminded xs ++ reminded ys := List.filterMap_append

theorem reminded_pushes {xs : List Exchange} (h : ∀ x ∈ xs, x.request.isPush = true) :
    reminded xs = [] := by
  apply List.filterMap_eq_nil_iff.mpr
  rintro ⟨q, r⟩ hx
  have hpush := h _ hx
  cases q with
  | wasSent key => simp [Request.isPush] at hpush
  | _ => rfl

/-- A tick has begun so, and these reminders have been looked up. -/
def Underway (now last : Moment) (households : List Int) (r : Except Fault (List Event))
    (done : List Ledger.Key) (xs : List Exchange) : Prop :=
  ∃ rest, xs = opening now last households r ++ rest ∧ reminded rest = done

section

variable {now last : Moment} {households : List Int} {r : Except Fault (List Event)}
  {done : List Ledger.Key} {xs : List Exchange} (s : Scheduler)

theorem Underway.append (h : Underway now last households r done xs) (ys : List Exchange) :
    Underway now last households r (done ++ reminded ys) (xs ++ ys) := by
  obtain ⟨rest, rfl, hrest⟩ := h
  exact ⟨rest ++ ys, List.append_assoc _ _ _, by rw [reminded_append, hrest]⟩

theorem Underway.append_quiet (h : Underway now last households r done xs) (ys : List Exchange)
    (hys : reminded ys = []) : Underway now last households r done (xs ++ ys) := by
  have happend := h.append ys
  rwa [hys, List.append_nil] at happend

theorem deliver_underway {kind : Kind} {household : Int} {payload : Payload}
    (hoccasion : Occasion .tick xs household kind payload none)
    (h : Underway now last households r done xs) :
    (deliver s.logger household kind payload none).Obeys Errand.tick.conduct
      (fun ys _ => Underway now last households r done ys) xs := by
  apply (deliver_listing s.logger hoccasion).mono
  rintro ys - (⟨f, rfl⟩ | ⟨ts, pushes, rfl, hpushes⟩)
  · exact h.append_quiet _ rfl
  · have hquiet : reminded pushes = [] := reminded_pushes hpushes
    exact h.append_quiet _ hquiet

theorem deliver_record_underway {α : Type} {kind : Kind} {payload : Payload} {key : Ledger.Key}
    {household : Int} {g : Nat → Plan α} {Q : List Exchange → Except Fault α → Prop}
    (hoccasion : Occasion .tick xs household kind payload none)
    (h : Underway now last households r done xs)
    (hg : ∀ n ys, Underway now last households r done ys → (g n).Obeys Errand.tick.conduct Q ys)
    (herror : ∀ ys f, Underway now last households r done ys → Q ys (.error f)) :
    (deliver s.logger household kind payload none >>= fun sent =>
      call (.recordSent key) >>= fun _ => g sent).Obeys Errand.tick.conduct Q xs := by
  apply (deliver_underway s hoccasion h).bind
  · intro ys sent hys
    have hlaw : Errand.tick.conduct ys (.recordSent key) := trivial
    apply (obeys_call hlaw).bind
    · rintro zs _ rfl
      exact hg sent _ (hys.append_quiet _ rfl)
    · rintro zs f rfl
      exact herror _ f (hys.append_quiet _ rfl)
  · exact herror

/-! Reminders -/

theorem remindersOf_split {es before after : List Event} {household : Int} {e : Event}
    (hown : es.filter (fun e => decide (e.household = household)) = before ++ e :: after)
    (hbefore : ∀ c ∈ before, c.isReadable = true) :
    remindersOf es household = before.filterMap (Event.key? household) ++
      ((e :: after).takeWhile Event.isReadable).filterMap (Event.key? household) := by
  rw [remindersOf, hown, List.takeWhile_append_of_pos hbefore, List.filterMap_append]

theorem remindersOf_of_readable {es : List Event} {household : Int}
    (h : ∀ c ∈ es.filter (fun e => decide (e.household = household)), c.isReadable = true) :
    remindersOf es household =
      (es.filter (fun e => decide (e.household = household))).filterMap (Event.key? household) := by
  rw [remindersOf, List.takeWhile_eq_self_iff.mpr h]

/-- What can be looked up next in the turn of a household. -/
theorem prefix_of_turn {es before after : List Event} {earlier later : List Int} {e : Event}
    (hown : es.filter (fun c => decide (c.household = e.household)) = before ++ e :: after)
    (hbefore : ∀ c ∈ before, c.isReadable = true) {lead : Int} (hlead : e.lead = .minutes lead)
    (hhouseholds : households = earlier ++ e.household :: later) :
    earlier.flatMap (remindersOf es) ++ before.filterMap (Event.key? e.household) ++
        [reminderKey e.household e lead] <+: households.flatMap (remindersOf es) := by
  have hreadable := Event.isReadable_of_minutes hlead
  have hkey := Event.key?_of_minutes hlead e.household
  rw [hhouseholds, List.flatMap_append, List.flatMap_cons, remindersOf_split hown hbefore,
    List.takeWhile_cons_of_pos hreadable, List.filterMap_cons_some hkey]
  refine ⟨(after.takeWhile Event.isReadable).filterMap (Event.key? e.household) ++
    later.flatMap (remindersOf es), ?_⟩
  simp

section

variable {es : List Event} {e : Event} {lead : Int} (he : e ∈ es)
  (hhousehold : e.household ∈ households) (hlead : e.lead = .minutes lead)
  (h : Underway now last households (.ok es) done xs)
  (hturn : done ++ [reminderKey e.household e lead] <+: households.flatMap (remindersOf es))
include he hhousehold hlead h hturn

theorem deliverOnce_underway :
    (s.deliverOnce .calendarReminder (reminderKey e.household e lead) (.ofEvent e lead)).Obeys
      Errand.tick.conduct
      (fun ys _ => Underway now last households (.ok es)
        (done ++ [reminderKey e.household e lead]) ys) xs := by
  have hlaw : Errand.tick.conduct xs (.wasSent (reminderKey e.household e lead)) := by
    obtain ⟨rest, rfl, rfl⟩ := h
    exact fun _ => .intro hturn
  apply (obeys_call hlaw).bind
  · rintro ys sent rfl
    have hlooked := h.append [⟨.wasSent (reminderKey e.household e lead), .ok sent⟩]
    cases sent with
    | true => exact hlooked
    | false =>
      have hoccasion : Occasion .tick
          (xs ++ [⟨.wasSent (reminderKey e.household e lead), .ok false⟩]) e.household
          .calendarReminder (.ofEvent e lead) none := by
        obtain ⟨rest, rfl, -⟩ := h
        exact .reminder hhousehold he hlead
      apply deliver_record_underway s hoccasion hlooked
      · exact fun n ys hys => hys
      · exact fun ys f hys => hys
  · rintro ys f rfl
    exact h.append [⟨.wasSent (reminderKey e.household e lead), .error f⟩]

theorem announce_underway :
    (s.announce e.household e).Obeys Errand.tick.conduct
      (fun ys r => r = .ok () ∧ Underway now last households (.ok es)
        (done ++ [reminderKey e.household e lead]) ys) xs := by
  unfold Scheduler.announce
  rw [hlead]
  apply (deliverOnce_underway s he hhousehold hlead h hturn).attempt_bind
  intro ys result hys
  split
  · exact ⟨rfl, hys⟩
  · exact ⟨rfl, hys⟩
  · exact ⟨rfl, hys⟩

end

/-- These events of a household have been announced, after the reminders
`base` of others. -/
structure Announced (now last : Moment) (households : List Int) (es : List Event)
    (base : List Ledger.Key) (household : Int) (before : List Event) (xs : List Exchange) :
    Prop where
  readable : ∀ c ∈ before, c.isReadable = true
  underway : Underway now last households (.ok es)
    (base ++ before.filterMap (Event.key? household)) xs

theorem Announced.concat {es before : List Event} {base : List Ledger.Key} {e : Event}
    (h : Announced now last households es base e.household before xs) (he : e.isReadable = true)
    {ys : List Exchange} (hys : Underway now last households (.ok es)
      (base ++ before.filterMap (Event.key? e.household) ++ (e.key? e.household).toList) ys) :
    Announced now last households es base e.household (before ++ [e]) ys where
  readable := by
    rw [List.forall_mem_append, List.forall_mem_singleton]
    exact ⟨h.readable, he⟩
  underway := by
    have hlast : [e].filterMap (Event.key? e.household) = (e.key? e.household).toList := by
      cases hkey : e.key? e.household <;> simp [hkey]
    rw [List.filterMap_append, hlast, ← List.append_assoc]
    exact hys

theorem announce_announced {es before after : List Event} {earlier later : List Int} {e : Event}
    (hhouseholds : households = earlier ++ e.household :: later)
    (hown : es.filter (fun c => decide (c.household = e.household)) = before ++ e :: after)
    (h : Announced now last households es (earlier.flatMap (remindersOf es)) e.household before
      xs) :
    (s.announce e.household e).Obeys Errand.tick.conduct
      (fun ys r => (r = .ok () → Announced now last households es
          (earlier.flatMap (remindersOf es)) e.household (before ++ [e]) ys) ∧
        (r ≠ .ok () → Underway now last households (.ok es)
          (earlier.flatMap (remindersOf es) ++ remindersOf es e.household) ys)) xs := by
  cases hlead : e.lead with
  | unset =>
    have hkey : e.key? e.household = none := by rw [Event.key?, hlead]
    have hreadable : e.isReadable = true := by rw [Event.isReadable, hlead]
    unfold Scheduler.announce
    rw [hlead]
    refine ⟨fun _ => h.concat hreadable ?_, fun hne => absurd rfl hne⟩
    rw [hkey, Option.toList_none, List.append_nil]
    exact h.underway
  | unreadable reason =>
    have hreadable : ¬e.isReadable = true := by simp [Event.isReadable, hlead]
    unfold Scheduler.announce
    rw [hlead]
    refine ⟨fun hok => by simp at hok, fun _ => ?_⟩
    rw [remindersOf_split hown h.readable, List.takeWhile_cons_of_neg hreadable,
      List.filterMap_nil, List.append_nil]
    exact h.underway
  | minutes lead =>
    have hkey := Event.key?_of_minutes hlead e.household
    have hreadable := Event.isReadable_of_minutes hlead
    have he : e ∈ es := by
      have hmem : e ∈ es.filter (fun c => decide (c.household = e.household)) := by simp [hown]
      exact (List.mem_filter.mp hmem).1
    have hhousehold : e.household ∈ households := by simp [hhouseholds]
    have hturn := prefix_of_turn hown h.readable hlead hhouseholds
    apply (announce_underway s he hhousehold hlead h.underway hturn).mono
    rintro ys result ⟨rfl, hys⟩
    refine ⟨fun _ => h.concat hreadable ?_, fun hne => absurd rfl hne⟩
    rw [hkey]
    exact hys

theorem reminders_underway {earlier later : List Int} {household : Int}
    (hhouseholds : households = earlier ++ household :: later) {es : List Event}
    (h : Underway now last households (.ok es) (earlier.flatMap (remindersOf es)) xs) :
    (each (s.announce household) (es.filter (fun e => decide (e.household = household)))).Obeys
      Errand.tick.conduct
      (fun ys _ => Underway now last households (.ok es)
        ((earlier ++ [household]).flatMap (remindersOf es)) ys) xs := by
  have heach : (each (s.announce household)
      (es.filter (fun e => decide (e.household = household)))).Obeys Errand.tick.conduct
        (fun ys r => (r = .ok () → Announced now last households es
            (earlier.flatMap (remindersOf es)) household
            (es.filter (fun e => decide (e.household = household))) ys) ∧
          (r ≠ .ok () → Underway now last households (.ok es)
            (earlier.flatMap (remindersOf es) ++ remindersOf es household) ys)) xs := by
    apply obeys_each
    · intro before e after ys hown hys
      have hmem : e ∈ es.filter (fun c => decide (c.household = household)) := by simp [hown]
      rw [List.mem_filter, decide_eq_true_iff] at hmem
      obtain ⟨-, rfl⟩ := hmem
      exact announce_announced s hhouseholds hown hys
    · refine ⟨by simp, ?_⟩
      rw [List.filterMap_nil, List.append_nil]
      exact h
  apply heach.mono
  intro ys result hys
  rw [List.flatMap_append, List.flatMap_singleton]
  by_cases hresult : result = .ok ()
  · obtain ⟨hreadable, hunderway⟩ := hys.1 hresult
    rw [remindersOf_of_readable hreadable]
    exact hunderway
  · exact hys.2 hresult

/-! Summaries -/

theorem DueAmong.cons {c : Chore} {cs due : List Chore} {b : Bool} (h : DueAmong now cs due)
    (hdue : c.isDue now = .ok b) : DueAmong now (c :: cs) (if b then c :: due else due) where
  known := List.forall_mem_cons.mpr ⟨⟨b, hdue⟩, h.known⟩
  eq := by
    rw [List.filter_cons, hdue, ← h.eq]
    cases b <;> rfl

theorem dueChores_obeys (law : Law) (cs : List Chore) :
    (dueChores now cs).Obeys law
      (fun ys r => ys = xs ∧ ∀ due, r = .ok due → DueAmong now cs due) xs := by
  induction cs with
  | nil =>
    refine ⟨rfl, fun due hdue => ⟨by simp, ?_⟩⟩
    exact (Except.ok.inj hdue).symm
  | cons c cs ih =>
    have hwarned : (each note c.warnings).Obeys law (fun ys _ => ys = xs) xs :=
      obeys_of_asks (asks_each (P := fun _ => False) fun _ _ => trivial) (fun _ _ _ h => h.elim)
        (fun _ _ _ h => h.elim) rfl
    apply hwarned.bind
    · rintro ys _ rfl
      apply (obeys_ofExcept Fault.chore (c.isDue now)).bind
      · rintro zs b ⟨rfl, hb⟩
        have hdue := hb b rfl
        apply ih.bind
        · rintro ws rest ⟨rfl, hrest⟩
          refine ⟨rfl, fun due hok => ?_⟩
          rw [← Except.ok.inj hok]
          exact (hrest rest rfl).cons hdue
        · rintro ws f ⟨rfl, -⟩
          exact ⟨rfl, fun due hok => by simp at hok⟩
      · rintro zs f ⟨rfl, -⟩
        exact ⟨rfl, fun due hok => by simp at hok⟩
    · rintro ys f rfl
      exact ⟨rfl, fun due hok => by simp at hok⟩

section

variable {household : Int} (hhousehold : household ∈ households)
  (h : Underway now last households r done xs)
include hhousehold h

theorem summarizeDue_underway (hminute : now.wall.minute = 0) {cs due : List Chore}
    (hdue : DueAmong now cs due) :
    (s.summarizeDue now household due).Obeys Errand.tick.conduct
      (fun ys _ => Underway now last households r done ys)
      (xs ++ [⟨.wasSent (summaryKey household now), .ok false⟩, ⟨.chores household, .ok cs⟩]) := by
  have hasked := h.append_quiet
    [⟨.wasSent (summaryKey household now), .ok false⟩, ⟨.chores household, .ok cs⟩] rfl
  unfold Scheduler.summarizeDue
  split
  · exact hasked
  · have hoccasion : Occasion .tick
        (xs ++ [⟨.wasSent (summaryKey household now), .ok false⟩, ⟨.chores household, .ok cs⟩])
        household .choresDue (.ofChores due) none := by
      obtain ⟨rest, rfl, -⟩ := h
      exact .summary hhousehold hminute hdue
    apply deliver_record_underway s hoccasion hasked
    · exact fun n ys hys => hys
    · exact fun ys f hys => hys

theorem summarize_underway :
    (s.summarize household now).Obeys Errand.tick.conduct
      (fun ys _ => Underway now last households r done ys) xs := by
  unfold Scheduler.summarize
  by_cases hminute : now.wall.minute = 0
  · rw [if_neg (not_not_intro hminute)]
    have hlaw : Errand.tick.conduct xs (.wasSent (summaryKey household now)) := fun hkey => by
      simp [isReminder, summaryKey, Kind.name] at hkey
    apply (obeys_call hlaw).bind
    · rintro ys sent rfl
      have hlooked := h.append_quiet [⟨.wasSent (summaryKey household now), .ok sent⟩] rfl
      cases sent with
      | true => exact hlooked
      | false =>
        have hlaw (ys : List Exchange) : Errand.tick.conduct ys (.chores household) := trivial
        apply (obeys_call (hlaw _)).bind
        · rintro ys cs rfl
          apply (dueChores_obeys Errand.tick.conduct cs).bind
          · rintro ys due ⟨rfl, hdue⟩
            rw [List.append_assoc]
            exact summarizeDue_underway s hhousehold h hminute (hdue due rfl)
          · rintro ys f ⟨rfl, -⟩
            exact hlooked.append_quiet _ rfl
        · rintro ys f rfl
          exact hlooked.append_quiet _ rfl
    · rintro ys f rfl
      exact h.append_quiet _ rfl
  · rw [if_pos hminute]
    exact h

end

/-! Whole ticks -/

theorem closeService_underway {household : Int} (hhousehold : household ∈ households)
    (h : Underway now last households r done xs) :
    (s.closeService now household).Obeys Errand.tick.conduct
      (fun ys _ => Underway now last households r done ys) xs := by
  apply (summarize_underway s hhousehold h).attempt_bind
  intro ys result hys
  cases result with
  | ok _ => exact hys
  | error f => exact hys

theorem afterReminders_underway {household : Int} (hhousehold : household ∈ households)
    (h : Underway now last households r done xs) (result : Except Fault Unit) :
    (s.afterReminders now household result).Obeys Errand.tick.conduct
      (fun ys _ => Underway now last households r done ys) xs := by
  cases result with
  | ok _ => exact closeService_underway s hhousehold h
  | error f => exact closeService_underway s hhousehold h

theorem serve_underway {earlier later : List Int} {household : Int}
    (hhouseholds : households = earlier ++ household :: later)
    (h : Underway now last households r (earlier.flatMap (remindersOf (r.toOption.getD []))) xs) :
    (s.serve now (r.toOption.getD []) household).Obeys Errand.tick.conduct
      (fun ys _ => Underway now last households r
        ((earlier ++ [household]).flatMap (remindersOf (r.toOption.getD []))) ys) xs := by
  have hhousehold : household ∈ households := by simp [hhouseholds]
  rw [serve_eq]
  cases r with
  | ok es =>
    apply (reminders_underway s hhouseholds h).attempt_bind
    exact fun ys result hys => afterReminders_underway s hhousehold hys result
  | error f =>
    have hnone (bs : List Int) : bs.flatMap (remindersOf []) = [] :=
      List.flatMap_eq_nil_iff.mpr fun _ _ => rfl
    have h : Underway now last households (.error f) (earlier.flatMap (remindersOf [])) xs := h
    show Obeys _ (fun ys _ => Underway now last households (.error f)
      ((earlier ++ [household]).flatMap (remindersOf [])) ys) _ xs
    rw [hnone] at h ⊢
    exact afterReminders_underway s hhousehold h (.ok ())

end

theorem upcoming_obeys (s : Scheduler) (now : Moment) (households : List Int) :
    (s.upcoming now).Obeys Errand.tick.conduct
      (fun ys r => ∀ es, r = .ok es → ∃ last r', ys = opening now last households r' ∧
        es = r'.toOption.getD []) [⟨.clock, .ok now⟩, ⟨.households, .ok households⟩] := by
  apply (obeys_ofExcept Fault.duration s.window).bind
  · rintro ys window ⟨rfl, -⟩
    apply (obeys_ofExcept Fault.calendar (now.add window)).bind
    · rintro ys last ⟨rfl, -⟩
      have hlaw (ys : List Exchange) : Errand.tick.conduct ys (.events now last) := trivial
      apply (obeys_call (hlaw _)).attempt_bind
      rintro ys r rfl
      cases r with
      | ok es =>
        intro es' hes
        exact ⟨last, .ok es, rfl, (Except.ok.inj hes).symm⟩
      | error f =>
        intro es' hes
        exact ⟨last, .error f, rfl, (Except.ok.inj hes).symm⟩
    · rintro ys f - es hes
      simp at hes
  · rintro ys f - es hes
    simp at hes

theorem tick_conduct (s : Scheduler) :
    s.tick.Obeys Errand.tick.conduct (fun _ _ => True) [] := by
  have hlaw (ys : List Exchange) : Errand.tick.conduct ys .clock := trivial
  rw [tick_eq]
  apply (obeys_call (hlaw _)).bind
  · rintro ys now rfl
    have hlaw (ys : List Exchange) : Errand.tick.conduct ys .households := trivial
    apply (obeys_call (hlaw _)).attempt_bind
    rintro ys households rfl
    cases households with
    | error f => trivial
    | ok households =>
      apply (upcoming_obeys s now households).bind
      · intro ys es hys
        obtain ⟨last, r, rfl, rfl⟩ := hys es rfl
        apply (obeys_each (E := fun _ => True) (I := fun before ys => Underway now last households r
          (before.flatMap (remindersOf (r.toOption.getD []))) ys) ?_ ?_).mono
        · exact fun _ _ _ => trivial
        · intro before household after ys hhouseholds hys
          exact (serve_underway s hhouseholds hys).mono
            fun _ _ h => ⟨fun _ => h, fun _ => trivial⟩
        · exact ⟨[], (List.append_nil _).symm, rfl⟩
      · exact fun _ _ _ => trivial
  · exact fun _ _ _ => trivial

theorem grocery_conduct (s : Scheduler) (household : Int) (excluded? : Option Int)
    (item : String) : (s.grocery household excluded? item).Obeys
      (Errand.grocery household excluded? item).conduct (fun _ _ => True) [] := by
  have hpasses : (s.passes household).Obeys (Errand.grocery household excluded? item).conduct
      (fun _ _ => True) [] := by
    unfold Scheduler.passes
    split
    · exact ⟨trivial, fun _ => trivial⟩
    · trivial
  apply hpasses.bind
  · rintro ys passed -
    cases passed with
    | false => trivial
    | true =>
      have hoccasion : Occasion (.grocery household excluded? item) ys household .groceryAdded
          (.ofGrocery item) excluded? := .grocery
      apply (deliver_listing s.logger hoccasion).attempt_bind
      rintro zs r -
      cases r with
      | ok n => trivial
      | error f => trivial
  · exact fun _ _ _ => trivial

theorem plan_conduct {τ : Type} (c : Service τ) (e : Errand) :
    (c.plan e).Obeys e.conduct (fun _ _ => True) [] := by
  cases e with
  | tick => exact (tick_conduct c.scheduler).bind (fun _ _ _ => trivial) fun _ _ _ => trivial
  | grocery household excluded? item =>
    exact (grocery_conduct c.scheduler household excluded? item).bind (fun _ _ _ => trivial)
      fun _ _ _ => trivial
  | sweep =>
    have hasks : c.janitor.sweep.Asks (fun _ => True)
        (fun q => ∀ before, Errand.sweep.conduct before q) :=
      sweep_asks c.janitor (fun _ => trivial) (fun _ => trivial) fun _ _ => trivial
    have hsweep : c.janitor.sweep.Obeys Errand.sweep.conduct (fun _ _ => True) [] :=
      obeys_of_asks hasks (fun ys q _ hq => hq ys) (fun _ _ _ _ => trivial) trivial
    exact hsweep.bind (fun _ _ _ => trivial) fun _ _ _ => trivial

/-- Pushes go where they may, and reminders come in turn. -/
structure RightlyTold {τ : Type} (d : Desk τ) : Prop where
  sent : ∀ earlier n now t payload r later,
    d.log = earlier ++ ⟨n, now, ⟨.send t payload, r⟩⟩ :: later →
      ∃ e, d.errand? n = some e ∧ Sanctioned e t payload (traceOf n earlier)
  inTurn : ∀ earlier n now key r later,
    d.log = earlier ++ ⟨n, now, ⟨.wasSent key, r⟩⟩ :: later → isReminder key = true →
      ∃ e, d.errand? n = some e ∧ InTurn key e (traceOf n earlier)

/-- Whatever errands are under way together, and whatever is answered or
fails. -/
theorem rightly_told {τ : Type} [Add τ] [LT τ] [DecidableLT τ] (c : Service τ)
    (ms : List (τ × Move)) : RightlyTold (Desk.empty.run c ms) := by
  have hlawful := Lawful.of_run (plan_conduct c) ms
  constructor
  · intro earlier n now t payload r later hlog
    exact hlawful.asked earlier _ later hlog
  · intro earlier n now key r later hlog hkey
    obtain ⟨e, he, hturn⟩ := hlawful.asked earlier _ later hlog
    exact ⟨e, he, hturn hkey⟩

/-- Two notices under way at once, where the later one is done first. -/
example :
    let c : Service Int := ⟨⟨"log", .ok 0, false⟩, ⟨"log", 0⟩, 2, 10⟩
    let reply (q : Request) : Except Fault q.Reply :=
      match q with
      | .targets household => .ok (if household = 1 then [⟨4, "x"⟩] else [⟨5, "y"⟩])
      | .isEnabled _ _ _ => .ok true
      | .send _ _ => .ok ()
      | _ => .error (.failure "down")
    let goOn (n : Nat) : Int × Move := (0, .answer n reply)
    let d := Desk.empty.run c <| [(0, .start (.grocery 1 none "Milk")),
      (0, .start (.grocery 2 none "Eggs"))] ++ [0, 1, 1, 1, 0, 0].map goOn
    d.log.filterMap (fun x =>
      match x.exchange.request with
      | .send t _ => some (x.errand, t)
      | _ => none) = [(1, ⟨5, "y"⟩), (0, ⟨4, "x"⟩)] := rfl

end Household.Reminder
