import Household.Proofs.Reminder.Pushes

/-!
# Single notices

What one reminder, one summary and the service of one household do to the
ledger, and when they try the fan-out of a key that is not recorded.
-/

set_option autoImplicit false

namespace Household.Reminder

open Household.Calendar Plan

variable {ω α β : Type}

/-! Trying a key -/

def Attends (key : Ledger.Key) (A : Exchange → Prop) (xs : List Exchange) : Prop :=
  (∃ f ∈ fanOuts none xs, f.key? = some key) ∨ ∃ x ∈ xs, A x

def Meets (h : Handler (Scene ω)) (now : Moment) (key : Ledger.Key) (A : Exchange → Prop)
    (p : Plan α) : Prop :=
  ∀ x, x.ledger.wasSent key = false →
    Ensures h p x (fun _ xs l => Round now x.ledger xs l ∧ Attends key A xs)

section

variable {now : Moment} {key : Ledger.Key} {A : Exchange → Prop}

theorem Attends.append_left {l l' l'' : Ledger} {xs ys : List Exchange} (hxs : Attends key A xs)
    (hx : Round now l xs l') (hy : Round now l' ys l'') : Attends key A (xs ++ ys) := by
  rcases hxs with ⟨f, hf, hkey⟩ | ⟨x, hmem, hx'⟩
  · refine .inl ⟨f, ?_, hkey⟩
    rw [hx.fanOuts_append hy.toOrderly]
    exact List.mem_append_left _ hf
  · exact .inr ⟨x, List.mem_append_left _ hmem, hx'⟩

theorem Attends.append_right {l l' l'' : Ledger} {xs ys : List Exchange} (hys : Attends key A ys)
    (hx : Round now l xs l') (hy : Round now l' ys l'') : Attends key A (xs ++ ys) := by
  rcases hys with ⟨f, hf, hkey⟩ | ⟨y, hmem, hy'⟩
  · refine .inl ⟨f, ?_, hkey⟩
    rw [hx.fanOuts_append hy.toOrderly]
    exact List.mem_append_right _ hf
  · exact .inr ⟨y, List.mem_append_right _ hmem, hy'⟩

theorem attends_of_recorded {l l' : Ledger} {xs : List Exchange} (hx : Round now l xs l')
    (hl : l.wasSent key = false) (hl' : l'.wasSent key = true) : Attends key A xs := by
  rcases (hx.recorded key).mp hl' with h | ⟨f, hf, hkey, -⟩
  · rw [hl] at h
    simp at h
  · exact .inl ⟨f, hf, hkey⟩

variable {h : Handler (Scene ω)}

theorem Meets.andThen {p : Plan α} {f : Except Fault α → Plan β} (hp : Meets h now key A p)
    (hf : ∀ r, Follows h (Round now) (f r)) : Meets h now key A (p.andThen f) := by
  intro x hx
  apply (hp x hx).andThen
  rintro r xs y ⟨hround, hattends⟩
  refine (hf r y).mono fun r' ys l hys => ?_
  exact ⟨hround.append hys, hattends.append_left hround hys⟩

theorem Meets.bind {p : Plan α} {f : α → Plan β} (hp : Meets h now key A p)
    (hf : ∀ a, Follows h (Round now) (f a)) : Meets h now key A (p >>= f) := by
  apply hp.andThen
  intro r
  cases r with
  | ok a => exact hf a
  | error e => exact follows_done (adds_round now) _

theorem Meets.attempt {p : Plan α} (hp : Meets h now key A p) : Meets h now key A p.attempt :=
  hp.andThen fun _ => follows_done (adds_round now) _

theorem bind_meets {p : Plan α} {f : α → Plan β} (hp : Succeeds h (Round now) p)
    (hf : ∀ a, Follows h (Round now) (f a)) (hf' : ∀ a, Meets h now key A (f a)) :
    Meets h now key A (p >>= f) := by
  intro x hx
  apply (hp x).bind
  · rintro a xs y ⟨-, hround⟩
    cases hy : y.ledger.wasSent key with
    | true =>
      have hattends : Attends key A xs := attends_of_recorded hround hx hy
      refine (hf a y).mono fun r ys l hys => ?_
      exact ⟨hround.append hys, hattends.append_left hround hys⟩
    | false =>
      refine (hf' a y hy).mono fun r ys l hys => ?_
      exact ⟨hround.append hys.1, hys.2.append_right hround hys.1⟩
  · rintro e xs l ⟨⟨a, ha⟩, -⟩
    simp at ha

theorem each_meets {f : β → Plan Unit} {before after : List β} {b : β}
    (hbefore : ∀ c ∈ before, Succeeds h (Round now) (f c)) (hb : Meets h now key A (f b))
    (hb' : Follows h (Round now) (f b)) (hafter : ∀ c ∈ after, Follows h (Round now) (f c)) :
    Meets h now key A (each f (before ++ b :: after)) := by
  have rest : Follows h (Round now) (each f after) := follows_each (adds_round now) hafter
  induction before with
  | nil => exact hb.bind fun _ => rest
  | cons c before ih =>
    rw [List.forall_mem_cons] at hbefore
    show Meets h now key A (f c >>= fun _ => each f (before ++ b :: after))
    refine bind_meets hbefore.1 (fun _ => ?_) fun _ => ih hbefore.2
    apply follows_each (adds_round now)
    rw [List.forall_mem_append, List.forall_mem_cons]
    exact ⟨fun d hd => (hbefore.2 d hd).follows, hb', hafter⟩

end

/-! Reminders -/

variable (answer : Handler ω) (stamp : ω → Moment) (s : Scheduler) (now : Moment)

theorem round_lookup (l : Ledger) (key : Ledger.Key) (r : Except Fault Bool) :
    Round now l [⟨.wasSent key, r⟩] l :=
  round_of_no_fanOut l (fun _ => rfl) (by simp)

theorem deliverOnce_ensures (kind : Kind) (key : Ledger.Key) (payload : Payload) (x : Scene ω) :
    Ensures (withLedger answer stamp) (s.deliverOnce kind key payload) x
      (fun _ xs l => Round now x.ledger xs l ∧
        (x.ledger.wasSent key = false → ∃ f ∈ fanOuts none xs, f.key? = some key)) := by
  apply (ensures_wasSent answer stamp x key).bind
  · rintro sent xs y ⟨hsent, rfl, hl⟩
    rw [Except.ok.injEq] at hsent
    cases sent with
    | true =>
      apply ensures_done
      rw [hl]
      exact ⟨round_lookup now _ key _, fun h => by simp [← hsent] at h⟩
    | false =>
      have hpure (n : Nat) : Follows (withLedger answer stamp) Aside (pure (some n)) :=
        follows_done adds_aside _
      refine (deliver_record_ensures answer stamp s.logger key hpure y).mono ?_
      rintro r ys l ⟨reply, after, rfl, hafter, hl'⟩
      rw [hl] at hl'
      have hbefore (last? : Option Ledger.Key) (zs : List Exchange) :
          fanOuts last? ([] ++ zs) = fanOuts last? zs := rfl
      exact ⟨round_of_lookup hsent.symm hbefore (by simp) hafter hl',
        fun _ => fanOut_of_lookup hbefore hafter⟩
  · rintro e xs l ⟨he, -⟩
    simp at he

theorem deliverOnce_follows (kind : Kind) (key : Ledger.Key) (payload : Payload) :
    Follows (withLedger answer stamp) (Round now) (s.deliverOnce kind key payload) :=
  fun x => (deliverOnce_ensures answer stamp s now kind key payload x).mono fun _ _ _ h => h.1

theorem deliverOnce_meets (kind : Kind) (key : Ledger.Key) (payload : Payload)
    (A : Exchange → Prop) :
    Meets (withLedger answer stamp) now key A (s.deliverOnce kind key payload) :=
  fun x hx => (deliverOnce_ensures answer stamp s now kind key payload x).mono
    fun _ _ _ h => ⟨h.1, .inl (h.2 hx)⟩

theorem announced_succeeds (household : Int) (e : Event) (r : Except Fault (Option Nat)) :
    Succeeds (withLedger answer stamp) (Round now)
      (match r with
      | .ok none => pure ()
      | .ok (some sent) =>
        reportTo s.logger .info <|
          s!"Calendar reminder for event {e.id} sent to {sent} target(s) " ++
            s!"in household {household}"
      | .error f =>
        reportTo s.logger .error <|
          s!"Calendar reminder for event {e.id} in household {household} " ++
            s!"failed: {f.message}") := by
  split
  · exact succeeds_pure (adds_round now) ()
  · exact reportTo_succeeds s.logger (adds_round now) _ _
  · exact reportTo_succeeds s.logger (adds_round now) _ _

theorem announce_succeeds (household : Int) {e : Event} (he : ∀ reason, e.lead ≠ .unreadable reason) :
    Succeeds (withLedger answer stamp) (Round now) (s.announce household e) := by
  unfold Scheduler.announce
  split
  · exact succeeds_pure (adds_round now) ()
  · rename_i reason hlead
    exact absurd hlead (he reason)
  · refine Succeeds.bind (adds_round now) (succeeds_attempt ?_) ?_
    · exact deliverOnce_follows answer stamp s now _ _ _
    · exact announced_succeeds answer stamp s now household e

theorem announce_follows (household : Int) (e : Event) :
    Follows (withLedger answer stamp) (Round now) (s.announce household e) := by
  cases hlead : e.lead with
  | unreadable reason =>
    unfold Scheduler.announce
    rw [hlead]
    exact follows_done (adds_round now) _
  | _ => exact (announce_succeeds answer stamp s now household (by simp [hlead])).follows

theorem announce_meets (household : Int) {e : Event} {lead : Int} (he : e.lead = .minutes lead)
    (A : Exchange → Prop) :
    Meets (withLedger answer stamp) now (reminderKey household e lead) A
      (s.announce household e) := by
  unfold Scheduler.announce
  rw [he]
  apply Meets.bind
  · exact (deliverOnce_meets answer stamp s now _ _ _ A).attempt
  · exact fun r => (announced_succeeds answer stamp s now household e r).follows

/-! Summaries -/

/-- If each chore can be evaluated, the result holds the ones that are due. -/
def FindsDue (cs : List Chore) (r : Except Fault (List Chore)) : Prop :=
  (∀ c ∈ cs, ∃ due, c.isDue now = .ok due) →
    ∃ due, r = .ok due ∧ ∀ c ∈ cs, c.isDue now = .ok true → c ∈ due

section

variable {now : Moment} {c : Chore} {cs : List Chore}

theorem FindsDue.cons {b : Bool} {rest : List Chore} (hdue : c.isDue now = .ok b)
    (h : FindsDue now cs (.ok rest)) :
    FindsDue now (c :: cs) (.ok (if b then c :: rest else rest)) := by
  intro hall
  rw [List.forall_mem_cons] at hall
  obtain ⟨due, hok, hmem⟩ := h hall.2
  obtain rfl := Except.ok.inj hok
  refine ⟨_, rfl, ?_⟩
  rw [List.forall_mem_cons]
  constructor
  · intro hb
    obtain rfl := Except.ok.inj (hdue.symm.trans hb)
    simp
  · intro d hd hb
    have hin := hmem d hd hb
    cases b
    · exact hin
    · exact List.mem_cons_of_mem c hin

theorem FindsDue.cons_error {e : Fault} (h : FindsDue now cs (.error e)) :
    FindsDue now (c :: cs) (.error e) := by
  intro hall
  rw [List.forall_mem_cons] at hall
  obtain ⟨due, hok, -⟩ := h hall.2
  simp at hok

theorem FindsDue.not_hasDue {r : Except Fault (List Chore)} (h : FindsDue now cs r)
    (hr : ∀ due, r = .ok due → due = []) : ¬HasDue now (.ok cs) := by
  rintro ⟨hall, d, hd, hdue⟩
  obtain ⟨due, hok, hmem⟩ := h hall
  have hin := hmem d hd hdue
  rw [hr due hok] at hin
  simp at hin

end

theorem dueChores_ensures {h : Handler (Scene ω)} (cs : List Chore) (x : Scene ω) :
    Ensures h (Scheduler.dueChores now cs) x
      (fun r xs l => Aside x.ledger xs l ∧ FindsDue now cs r) := by
  induction cs generalizing x with
  | nil => exact ensures_done ⟨adds_aside.nil _, fun _ => ⟨[], rfl, by simp⟩⟩
  | cons c cs ih =>
    have hwarnings : Succeeds h Aside (each note c.warnings) :=
      succeeds_each adds_aside fun e _ => succeeds_note adds_aside e
    apply (hwarnings x).bind
    · rintro u xs y ⟨-, hxs⟩
      cases hdue : c.isDue now with
      | error e =>
        apply ensures_done
        rw [List.append_nil]
        exact ⟨hxs, fun hall => by simp [hdue] at hall⟩
      | ok b =>
        show Ensures h (Scheduler.dueChores now cs >>= fun rest =>
          pure (if b then c :: rest else rest)) y _
        apply (ih y).bind
        · rintro rest ys z ⟨hys, hrest⟩
          apply ensures_done
          rw [List.append_nil]
          exact ⟨adds_aside.append hxs hys, hrest.cons hdue⟩
        · rintro e ys l ⟨hys, hrest⟩
          exact ⟨adds_aside.append hxs hys, hrest.cons_error⟩
    · rintro e xs l ⟨⟨a, ha⟩, -⟩
      simp at ha

theorem round_of_chores (l : Ledger) (key : Ledger.Key) (r : Except Fault Bool) (household : Int)
    {reply : Except Fault (List Chore)} {after : List Exchange} (hreply : ¬HasDue now reply)
    (hafter : ∀ x ∈ after, x.request.isAside = true) :
    Round now l (⟨.wasSent key, r⟩ :: ⟨.chores household, reply⟩ :: after) l := by
  apply round_of_no_fanOut
  · intro key?
    show fanOuts (some key) after = []
    exact fanOuts_aside (some key) hafter
  · intro household' reply' hmem
    rcases List.mem_cons.mp hmem with h | h
    · simp at h
    · rcases List.mem_cons.mp h with h | h
      · rw [Exchange.mk.injEq, Request.chores.injEq] at h
        obtain ⟨rfl, h⟩ := h
        rwa [eq_of_heq h]
      · exact absurd h (not_chores_of_aside hafter household' reply')

/-- The end of a summary, once the chores that are due are known. -/
def Scheduler.summarizeDue (household : Int) (due : List Chore) : Plan Unit :=
  if due.isEmpty then pure ()
  else
    deliver s.logger household .choresDue (.ofChores due) none >>= fun sent =>
      call (.recordSent (summaryKey household now)) >>= fun _ =>
        reportTo s.logger .info <|
          s!"Chore summary ({due.length} due) sent to {sent} target(s) " ++
            s!"in household {household}"

theorem summarizeDue_ensures {household : Int} {chores due : List Chore} {xs : List Exchange}
    {x : Scene ω} (hx : x.ledger.wasSent (summaryKey household now) = false)
    (hxs : ∀ e ∈ xs, e.request.isAside = true) (hdue : FindsDue now chores (.ok due)) :
    Ensures (withLedger answer stamp) (s.summarizeDue now household due) x
      (fun _ ys l => Round now x.ledger (⟨.wasSent (summaryKey household now), .ok false⟩ ::
        (⟨.chores household, .ok chores⟩ :: xs ++ ys)) l) := by
  unfold Scheduler.summarizeDue
  split
  · rename_i hempty
    apply ensures_done
    rw [List.append_nil]
    refine round_of_chores now _ _ _ household (hdue.not_hasDue ?_) hxs
    intro due' hok
    rw [← Except.ok.inj hok]
    exact List.isEmpty_iff.mp hempty
  · have hreport (n : Nat) : Follows (withLedger answer stamp) Aside
        (reportTo s.logger .info <|
          s!"Chore summary ({due.length} due) sent to {n} target(s) " ++
            s!"in household {household}") :=
      (reportTo_succeeds s.logger adds_aside _ _).follows
    refine (deliver_record_ensures answer stamp s.logger (summaryKey household now)
      hreport x).mono ?_
    rintro r ys l ⟨reply, after, rfl, hafter, hl⟩
    have hbefore (last? : Option Ledger.Key) (zs : List Exchange) :
        fanOuts last? (⟨.chores household, .ok chores⟩ :: xs ++ zs) = fanOuts last? zs :=
      fanOuts_append_aside last? hxs zs
    apply round_of_lookup hx hbefore _ hafter hl
    intro household' r' hmem
    rcases List.mem_cons.mp hmem with h | h
    · rw [Exchange.mk.injEq, Request.chores.injEq] at h
      rw [h.1]
    · exact absurd h (not_chores_of_aside hxs household' r')

/-- What follows in a summary whose key was looked up and is not recorded. -/
theorem chores_ensures (household : Int) (x : Scene ω)
    (hx : x.ledger.wasSent (summaryKey household now) = false) :
    Ensures (withLedger answer stamp)
      (call (.chores household) >>= fun chores =>
        Scheduler.dueChores now chores >>= s.summarizeDue now household) x
      (fun _ xs l =>
        Round now x.ledger (⟨.wasSent (summaryKey household now), .ok false⟩ :: xs) l ∧
          ∃ e ∈ xs, e.request = .chores household) := by
  apply (ensures_call answer stamp x (q := .chores household) (by simp)).bind
  · rintro chores xs y ⟨rfl, hl⟩
    rw [← hl] at hx ⊢
    apply (dueChores_ensures now chores y).bind
    · rintro due ys z ⟨⟨hys, hz⟩, hdue⟩
      rw [← hz] at hx ⊢
      refine (summarizeDue_ensures answer stamp s now hx hys hdue).mono fun r zs l hround => ?_
      exact ⟨hround, _, List.mem_cons_self, rfl⟩
    · rintro e ys l ⟨⟨hys, hl'⟩, hdue⟩
      rw [hl']
      have hnone := hdue.not_hasDue (by simp)
      exact ⟨round_of_chores now _ _ _ household hnone hys, _, List.mem_cons_self, rfl⟩
  · rintro e xs l ⟨rfl, hl⟩
    rw [hl]
    have hnone : ¬HasDue now (.error e) := id
    exact ⟨round_of_chores now _ _ _ household hnone (by simp), _, List.mem_cons_self, rfl⟩

theorem summarize_ensures (household : Int) (x : Scene ω) :
    Ensures (withLedger answer stamp) (s.summarize household now) x
      (fun _ xs l => Round now x.ledger xs l ∧ (now.wall.minute = 0 →
        x.ledger.wasSent (summaryKey household now) = false →
          ∃ e ∈ xs, e.request = .chores household)) := by
  unfold Scheduler.summarize
  by_cases hminute : now.wall.minute = 0
  · rw [if_neg (not_not_intro hminute)]
    apply (ensures_wasSent answer stamp x (summaryKey household now)).bind
    · rintro sent xs y ⟨hsent, rfl, hl⟩
      rw [Except.ok.injEq] at hsent
      cases sent with
      | true =>
        apply ensures_done
        rw [hl]
        exact ⟨round_lookup now _ _ _, fun _ h => by simp [← hsent] at h⟩
      | false =>
        rw [← hl] at hsent ⊢
        refine (chores_ensures answer stamp s now household y hsent.symm).mono ?_
        rintro r ys l ⟨hround, e, he, hrequest⟩
        exact ⟨hround, fun _ _ => ⟨e, List.mem_cons_of_mem _ he, hrequest⟩⟩
    · rintro e xs l ⟨he, -⟩
      simp at he
  · rw [if_pos hminute]
    exact ensures_done ⟨(adds_round now).nil _, fun h => absurd h hminute⟩

/-! One household -/

/-- The part of a household's service that comes behind the reminders. -/
def Scheduler.closeService (household : Int) : Plan Unit :=
  (s.summarize household now).attempt >>= fun r =>
    match r with
    | .ok _ => pure ()
    | .error f =>
      reportTo s.logger .error s!"Chore summary failed for household {household}: {f.message}"

/-- The same with the report on the reminders before it. -/
def Scheduler.afterReminders (household : Int) : Except Fault Unit → Plan Unit
  | .ok _ => s.closeService now household
  | .error f =>
    reportTo s.logger .error
      s!"Calendar reminders failed for household {household}: {f.message}" >>=
        fun _ => s.closeService now household

theorem serve_eq (events : List Event) (household : Int) : s.serve now events household =
    attempt (each (s.announce household)
      (events.filter (fun e => decide (e.household = household)))) >>=
        s.afterReminders now household := by
  unfold Scheduler.serve
  apply congrArg
  funext r
  cases r <;> rfl

theorem closeService_succeeds (household : Int) :
    Succeeds (withLedger answer stamp) (Round now) (s.closeService now household) := by
  have hfollows : Follows (withLedger answer stamp) (Round now) (s.summarize household now) :=
    fun x => (summarize_ensures answer stamp s now household x).mono fun _ _ _ h => h.1
  refine Succeeds.bind (adds_round now) (succeeds_attempt hfollows) fun r => ?_
  cases r with
  | ok a => exact succeeds_pure (adds_round now) ()
  | error f => exact reportTo_succeeds s.logger (adds_round now) _ _

theorem closeService_meets (household : Int) (hminute : now.wall.minute = 0) :
    Meets (withLedger answer stamp) now (summaryKey household now)
      (fun e => e.request = .chores household) (s.closeService now household) := by
  have hmeets : Meets (withLedger answer stamp) now (summaryKey household now)
      (fun e => e.request = .chores household) (s.summarize household now) :=
    fun x hx => (summarize_ensures answer stamp s now household x).mono
      fun _ _ _ h => ⟨h.1, .inr (h.2 hminute hx)⟩
  refine hmeets.attempt.bind fun r => ?_
  cases r with
  | ok a => exact (succeeds_pure (adds_round now) ()).follows
  | error f => exact (reportTo_succeeds s.logger (adds_round now) _ _).follows

theorem afterReminders_succeeds (household : Int) (r : Except Fault Unit) :
    Succeeds (withLedger answer stamp) (Round now) (s.afterReminders now household r) := by
  have hclose := closeService_succeeds answer stamp s now household
  cases r with
  | ok a => exact hclose
  | error f =>
    exact Succeeds.bind (adds_round now) (reportTo_succeeds s.logger (adds_round now) _ _)
      fun _ => hclose

theorem afterReminders_meets (household : Int) (hminute : now.wall.minute = 0)
    (r : Except Fault Unit) :
    Meets (withLedger answer stamp) now (summaryKey household now)
      (fun e => e.request = .chores household) (s.afterReminders now household r) := by
  have hclose := closeService_meets answer stamp s now household hminute
  cases r with
  | ok a => exact hclose
  | error f =>
    apply bind_meets (reportTo_succeeds s.logger (adds_round now) _ _)
    · exact fun _ => (closeService_succeeds answer stamp s now household).follows
    · exact fun _ => hclose

theorem reminders_follow (events : List Event) (household : Int) :
    Follows (withLedger answer stamp) (Round now) (each (s.announce household) events) :=
  follows_each (adds_round now) fun e _ => announce_follows answer stamp s now household e

theorem serve_succeeds (events : List Event) (household : Int) :
    Succeeds (withLedger answer stamp) (Round now) (s.serve now events household) := by
  rw [serve_eq]
  have hreminders := succeeds_attempt (reminders_follow answer stamp s now
    (events.filter (fun e => decide (e.household = household))) household)
  exact Succeeds.bind (adds_round now) hreminders
    (afterReminders_succeeds answer stamp s now household)

theorem serve_meets_reminder {events before after : List Event} {household lead : Int} {e : Event}
    (hevents : events.filter (fun c => decide (c.household = household)) = before ++ e :: after)
    (hbefore : ∀ c ∈ before, ∀ reason, c.lead ≠ .unreadable reason) (he : e.lead = .minutes lead)
    (A : Exchange → Prop) :
    Meets (withLedger answer stamp) now (reminderKey household e lead) A
      (s.serve now events household) := by
  have hreminders : Meets (withLedger answer stamp) now (reminderKey household e lead) A
      (each (s.announce household) (before ++ e :: after)) := by
    apply each_meets
    · exact fun c hc => announce_succeeds answer stamp s now household (hbefore c hc)
    · exact announce_meets answer stamp s now household he A
    · exact announce_follows answer stamp s now household e
    · exact fun c _ => announce_follows answer stamp s now household c
  rw [serve_eq, hevents]
  exact hreminders.attempt.bind
    fun r => (afterReminders_succeeds answer stamp s now household r).follows

theorem serve_meets_summary (events : List Event) {household : Int}
    (hminute : now.wall.minute = 0) :
    Meets (withLedger answer stamp) now (summaryKey household now)
      (fun e => e.request = .chores household) (s.serve now events household) := by
  rw [serve_eq]
  apply bind_meets (succeeds_attempt (reminders_follow answer stamp s now _ household))
  · exact fun r => (afterReminders_succeeds answer stamp s now household r).follows
  · exact afterReminders_meets answer stamp s now household hminute

end Household.Reminder
