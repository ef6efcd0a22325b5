import Household.Proofs.Realtime.Account

/-!
# Delivery to one connection

Every session writes a beginning of what its buffer accepts, whatever else
goes on at the hub and in the other sessions. It writes all of it before the
connection is closed unless something ends the writing early.
-/

set_option autoImplicit false

namespace Household.Realtime

namespace Switchboard

variable {s : Nat} {e : Event} {k : Session} {acc : List String} {b : Switchboard}
  {es : List Event}

structure Tracked (b : Switchboard) (s : Nat) (acc : List String) : Prop where
  sound : b.Sound
  steady : (b.hub.place s).Steady acc
  session : ∀ k, b.session? s = some k → Session.Tracks (b.hub.place s) k acc

theorem tracked_empty (s : Nat) : empty.Tracked s [] where
  sound := sound_empty
  steady := ⟨fun _ => rfl, fun hl => by simp [Hub.place, empty, Hub.empty] at hl, fun _ _ => rfl⟩
  session k hk := by simp [session?, empty] at hk

theorem Tracked.step (h : b.Tracked s acc) (he : e ≠ .hub (.read s)) :
    (b.step e).Tracked s (acc ++ b.accepts s e) := by
  have c := step_change h.sound e s
  rw [← Place.accepts_place]
  exact ⟨h.sound.step e, c.steady h.steady, fun k hk => c.tracks he h.steady h.session hk⟩

theorem Tracked.run (h : b.Tracked s acc) (hes : ∀ e ∈ es, e ≠ .hub (.read s)) :
    (b.run es).Tracked s (acc ++ accepted s b es) := by
  induction es generalizing b acc with
  | nil =>
    rw [accepted, List.append_nil]
    exact h
  | cons e es ih =>
    rw [List.forall_mem_cons] at hes
    rw [accepted, ← List.append_assoc]
    exact ih (h.step hes.1) hes.2

theorem accepted_of_gone (hb : b.Sound) (h : (b.hub.place s).Gone) : accepted s b es = [] := by
  induction es generalizing b with
  | nil => rfl
  | cons e es ih =>
    rw [accepted, ← Place.accepts_place, Place.accepts_of_not_live h.live, List.nil_append]
    exact ih (hb.step e) ((step_change hb e s).gone h)

theorem sent_of_stopped (h : b.Tracked s acc) (hes : ∀ e ∈ es, e ≠ .hub (.read s))
    (hk : b.session? s = some k) (hs : Session.Stopped k) :
    ∃ k', (b.run es).session? s = some k' ∧ k'.sent = k.sent := by
  induction es generalizing b acc k with
  | nil => exact ⟨k, hk, rfl⟩
  | cons e es ih =>
    rw [List.forall_mem_cons] at hes
    have c := step_change h.sound e s
    rw [hk] at c
    obtain ⟨j, hj, hsent, hj'⟩ := c.stopped (h.session k hk) hs
    rw [← hsent]
    exact ih (h.step hes.1) hes.2 hj hj'

/-- No write of the session of `s` fails or times out in the course of the
events, and no cancellation strikes it. -/
def Undisturbed (s : Nat) (b : Switchboard) (es : List Event) : Prop :=
  ∀ pre m post, es = pre ++ .move s m :: post → m.interrupts = true →
    (b.run (pre ++ [.move s m])).session? s = (b.run pre).session? s

theorem undisturbed_cons (h : Undisturbed s b (e :: es)) :
    (∀ m, e = .move s m → m.interrupts = true → (b.step e).session? s = b.session? s) ∧
      Undisturbed s (b.step e) es := by
  constructor
  · rintro m rfl hm
    exact h [] m es rfl hm
  · intro pre m post hes hm
    exact h (e :: pre) m post (by rw [hes]; rfl) hm

theorem whole_of_undisturbed (h : b.Tracked s acc) (hes : ∀ e ∈ es, e ≠ .hub (.read s))
    (hu : Undisturbed s b es) (hw : ∀ k, b.session? s = some k → Session.Whole k acc)
    (hk : (b.run es).session? s = some k) : Session.Whole k (acc ++ accepted s b es) := by
  induction es generalizing b acc with
  | nil => simpa [accepted] using hw k hk
  | cons e es ih =>
    rw [List.forall_mem_cons] at hes
    obtain ⟨hu, hu'⟩ := undisturbed_cons hu
    have c := step_change h.sound e s
    rw [accepted, ← List.append_assoc]
    refine ih (h.step hes.1) hes.2 hu' (fun j hj => ?_) hk
    rw [← Place.accepts_place]
    exact c.whole hu h.session hw hj

/-- What the session `k` of the subscriber `s` has written in the course of
the events. -/
structure Delivers (s : Nat) (es : List Event) (k : Session) : Prop where
  sent_in_order : k.sent <+: accepted s empty es
  since_registration : ∀ pre e post, es = pre ++ e :: post →
    s ∉ (empty.run pre).hub.live → s ∈ (empty.run (pre ++ [e])).hub.live →
    k.sent <+: accepted s (empty.run (pre ++ [e])) post
  until_unregistration : ∀ pre e post, es = pre ++ e :: post →
    s ∈ (empty.run pre).hub.live → s ∉ (empty.run (pre ++ [e])).hub.live →
    k.sent <+: accepted s empty pre
  until_failure : ∀ pre m post j text, es = pre ++ .move s m :: post → m.fails = true →
    (empty.run pre).session? s = some j → j.stage = .writing text → k.sent = j.sent
  whole_at_closing : ∀ pre e post j j', es = pre ++ e :: post → Undisturbed s empty pre →
    (empty.run pre).session? s = some j → (empty.run (pre ++ [e])).session? s = some j' →
    j.closes = 0 → j'.closes ≠ 0 → j.sent = accepted s empty es

theorem accepted_split (s : Nat) (b : Switchboard) (pre : List Event) (e : Event)
    (post : List Event) : accepted s b (pre ++ e :: post) =
      accepted s b pre ++ (b.run pre).accepts s e ++ accepted s ((b.run pre).step e) post := by
  rw [accepted_append, List.append_assoc]
  rfl

section

variable {pre post : List Event} (hpre : b.Tracked s acc)
include hpre

theorem accepted_of_registration (hl : s ∉ b.hub.live) (hl' : s ∈ (b.step e).hub.live) :
    acc ++ b.accepts s e = [] := by
  have c := step_change hpre.sound e s
  have hlive : (b.hub.place s).live = false := decide_eq_false hl
  rw [c.registers hpre.steady hlive (decide_eq_true hl'), ← Place.accepts_place,
    Place.accepts_of_not_live hlive]
  rfl

theorem accepted_of_unregistration (hl : s ∈ b.hub.live) (hl' : s ∉ (b.step e).hub.live) :
    b.accepts s e ++ accepted s (b.step e) post = [] := by
  have c := step_change hpre.sound e s
  have hlive : (b.hub.place s).live = true := decide_eq_true hl
  have hlive' : ((b.step e).hub.place s).live = false := decide_eq_false hl'
  have hgone := (c.settled (hpre.steady.settled hlive)).gone hlive'
  rw [← Place.accepts_place, c.accepts_of_leaving hlive hlive',
    accepted_of_gone (hpre.sound.step e) hgone]
  rfl

theorem sent_of_failure {m : Session.Move} {text : String} {j : Session} (hm : m.fails = true)
    (hpost : ∀ e ∈ post, e ≠ .hub (.read s)) (hj : b.session? s = some j)
    (hstage : j.stage = .writing text)
    (hk : ((b.step (.move s m)).run post).session? s = some k) : k.sent = j.sent := by
  have hread : Event.move s m ≠ .hub (.read s) := by simp
  have c := step_change hpre.sound (.move s m) s
  rw [hj] at c
  obtain ⟨j', hj', hsent, hs⟩ := c.stopped_of_fails hm hstage
  obtain ⟨k', hk', hsent'⟩ := sent_of_stopped (hpre.step hread) hpost hj' hs
  rw [hk, Option.some.injEq] at hk'
  rw [hk', hsent', hsent]

end

/-- The session is the only one that reads from its buffer. -/
theorem session_delivers (hk : (empty.run es).session? s = some k)
    (hes : ∀ e ∈ es, e ≠ .hub (.read s)) : Delivers s es k := by
  have tracked {pre : List Event} (hpre : ∀ e ∈ pre, e ≠ .hub (.read s)) :
      (empty.run pre).Tracked s (accepted s empty pre) := (tracked_empty s).run hpre
  have sent_in_order : k.sent <+: accepted s empty es :=
    ((tracked hes).session k hk).accounts.sent_in_order
  refine ⟨sent_in_order, ?_, ?_, ?_, ?_⟩
  · rintro pre e post rfl hl hl'
    rw [List.forall_mem_append] at hes
    rw [run_concat] at hl' ⊢
    rw [accepted_split, accepted_of_registration (tracked hes.1) hl hl',
      List.nil_append] at sent_in_order
    exact sent_in_order
  · rintro pre e post rfl hl hl'
    rw [List.forall_mem_append] at hes
    rw [run_concat] at hl'
    rw [accepted_split, List.append_assoc, accepted_of_unregistration (tracked hes.1) hl hl',
      List.append_nil] at sent_in_order
    exact sent_in_order
  · rintro pre m post j text rfl hm hj hstage
    rw [List.forall_mem_append, List.forall_mem_cons] at hes
    rw [run_append] at hk
    exact sent_of_failure (tracked hes.1) hm hes.2.2 hj hstage hk
  · rintro pre e post j j' rfl hu hj hj' hc hc'
    rw [List.forall_mem_append] at hes
    have hpre := tracked hes.1
    rw [run_concat] at hj'
    have c := step_change hpre.sound e s
    rw [hj, hj'] at c
    have hleft := (c.closes (by omega)).1
    have hgone := (hpre.session j hj).left hleft
    have hwhole := whole_of_undisturbed (tracked_empty s) hes.1 hu
      (fun k hk => by simp [session?, empty] at hk) hj
    rw [accepted_append, accepted_of_gone hpre.sound hgone, List.append_nil]
    exact hwhole.left hleft

def twoTexts : List Event :=
  [.connect 2 Session.defaultTimeout none, .serve 0, .hub (.broadcast ⟨"chore", "done", 7, []⟩),
    .move 0 .proceed, .hub (.broadcast ⟨"event", "moved", 8, []⟩), .move 0 (.wrote .sent),
    .hub .close, .move 0 .proceed, .move 0 .proceed, .move 0 (.wrote .sent), .move 0 .proceed,
    .move 0 .proceed, .move 0 .read, .move 0 .proceed]

theorem two_texts_delivered : ∃ k, (empty.run twoTexts).session? 0 = some k ∧
    (∀ e ∈ twoTexts, e ≠ .hub (.read 0)) ∧ k.sent.length = 2 ∧ k.closes = 1 ∧
    Delivers 0 twoTexts k := by
  have hread : ∀ e ∈ twoTexts, e ≠ .hub (.read 0) := by simp [twoTexts]
  exact ⟨_, rfl, hread, rfl, rfl, session_delivers rfl hread⟩

end Switchboard

end Household.Realtime
