import Household.Proofs.Realtime.Conduct
import Mathlib.Data.List.Induction

/-!
# Cleaning up after a session

However the serving ends and whatever strikes it on the way, a session first
leaves the hub, then its reader ends and then it closes the connection, each
of them once. A session that has left needs three more moves to be over.
-/

set_option autoImplicit false

namespace Household.Realtime

theorem Place.Gone.exists_closed {p : Place} (h : p.Gone) :
    ∃ b, p.buffer? = some b ∧ b.closed = true := by
  obtain ⟨b, hb⟩ := Option.ne_none_iff_exists'.mp h.joined
  exact ⟨b, hb, by simpa [Place.isOpen, hb] using h.shut⟩

namespace Session

variable {p p' : Place} {k k' : Session} {m : Move}

theorem Stage.not_idle_of_left {stage : Stage} (hl : isLeft stage = true) : stage ≠ .idle := by
  rintro rfl
  simp [isLeft] at hl

theorem Stage.left_of_closings {stage : Stage} (hc : closings stage = 1) :
    isLeft stage = true := by
  cases stage with
  | idle | receiving | writing | wrote | dropping | joining => simp [closings] at hc
  | _ => rfl

theorem Stage.not_left_of_isServing {stage : Stage} (hs : isServing stage = true) :
    isLeft stage = false := by
  cases stage with
  | idle | receiving | writing | wrote | dropping => rfl
  | _ => simp [isServing] at hs

theorem Stage.closings_le (stage : Stage) : closings stage ≤ 1 := by
  cases stage <;> simp [closings]

/-! The moves that end a session -/

theorem Turn.dismisses (t : Turn p k .read p' k') (h : Proper p k)
    (hl : Stage.isLeft k.stage = true) : k'.stage = k.stage ∧ k'.reader = .ended := by
  cases t with
  | rest hw =>
    refine ⟨rfl, ?_⟩
    rcases h.dismissed hl with hr | hc
    · exact hr
    · cases hr : k.reader with
      | absent => exact absurd hr (h.attended (Stage.not_idle_of_left hl))
      | listening =>
        obtain ⟨hc', -⟩ := hw hr
        simp [hc] at hc'
      | ended => rfl
  | stopReader | peerGone => exact ⟨rfl, rfl⟩
  | discard hr hc =>
    have hdismissed := h.dismissed hl
    simp [hr, hc] at hdismissed
  | struck hm => simp at hm

theorem Turn.hangs_up (t : Turn p k .proceed p' k') (hl : Stage.isLeft k.stage = true)
    (hr : k.reader = .ended) : Stage.closings k'.stage = 1 := by
  have serving (hs : Stage.isServing k.stage = true) : Stage.closings k'.stage = 1 := by
    simp [Stage.not_left_of_isServing hs] at hl
  cases t with
  | rest hw =>
    cases hs : k.stage with
    | idle | receiving | writing | wrote | dropping => simp [hs, Stage.isLeft] at hl
    | joining how => exact absurd hr (hw.2.2.2 how hs)
    | _ => rfl
  | cancelled hs => exact serving (Stage.isServing_of_isLeaving hs)
  | take hs | drained hs | goOn hs | giveUp hs | struck _ hs =>
    exact serving (by simp [hs, Stage.isServing])
  | hangUp | abandoned => rfl

theorem Turn.ends (t : Turn p k .closed p' k') (hc : Stage.closings k.stage = 1) :
    ∃ how, k'.stage = .over how := by
  cases t with
  | rest hw =>
    cases hs : k.stage with
    | idle | receiving | writing | wrote | dropping | joining => simp [hs, Stage.closings] at hc
    | closing how => exact absurd hs (hw how)
    | _ => exact ⟨_, rfl⟩
  | closed => exact ⟨_, rfl⟩
  | struck hm => simp at hm

end Session

namespace Switchboard

variable {s : Nat} {e : Event} {p p' : Place} {k k' : Session} {k? k?' : Option Session}
  {b : Switchboard} {es : List Event}

def HasBeenLive (s : Nat) (es : List Event) : Prop :=
  ∃ first rest, es = first ++ rest ∧ s ∈ (empty.run first).hub.live

theorem HasBeenLive.concat (h : HasBeenLive s es) (e : Event) : HasBeenLive s (es ++ [e]) := by
  obtain ⟨first, rest, rfl, hlive⟩ := h
  exact ⟨first, rest ++ [e], List.append_assoc _ _ _, hlive⟩

theorem Change.begins (c : Change s e p k? p' (some k')) (hi : k'.stage ≠ .idle) :
    p'.live = true ∨ ∃ k, k? = some k ∧ k.stage ≠ .idle := by
  cases c with
  | elsewhere | hub => exact .inr ⟨k', rfl, hi⟩
  | join _ _ hsession =>
    obtain ⟨timeout, fault?, rfl⟩ := hsession k' rfl
    exact absurd rfl hi
  | serve => exact .inl rfl
  | move t => exact .inr ⟨_, rfl, t.not_idle hi⟩

theorem hasBeenLive_of_serving (hk : (empty.run es).session? s = some k) (hi : k.stage ≠ .idle) :
    HasBeenLive s es := by
  induction es using List.reverseRecOn generalizing k with
  | nil => simp [run, session?, empty] at hk
  | append_singleton es e ih =>
    have c := step_change (proper_empty.run es).sound e s
    rw [← run_concat, hk] at c
    rcases c.begins hi with hlive | ⟨j, hj, hi⟩
    · exact ⟨es ++ [e], [], (List.append_nil _).symm, of_decide_eq_true hlive⟩
    · exact (ih hj hi).concat e

theorem exists_turn (hb : b.Sound) (hk : b.session? s = some k) (m : Session.Move) :
    ∃ k', (b.step (.move s m)).session? s = some k' ∧
      Session.Turn (b.hub.place s) k m ((b.step (.move s m)).hub.place s) k' := by
  have c := step_change hb (.move s m) s
  rw [hk] at c
  exact c.exists_turn

def windUp (s : Nat) : List Event := [.move s .read, .move s .proceed, .move s .closed]

theorem over_of_windUp (h : b.Proper) (hk : b.session? s = some k)
    (hl : Session.Stage.isLeft k.stage = true) :
    ∃ k' how, (b.run (windUp s)).session? s = some k' ∧ k'.stage = .over how := by
  obtain ⟨k₁, hk₁, t₁⟩ := exists_turn h.sound hk .read
  obtain ⟨hstage, hreader⟩ := t₁.dismisses (h.session s k hk) hl
  rw [← hstage] at hl
  have h₁ := h.step (.move s .read)
  obtain ⟨k₂, hk₂, t₂⟩ := exists_turn h₁.sound hk₁ .proceed
  obtain ⟨k₃, hk₃, t₃⟩ := exists_turn (h₁.step (.move s .proceed)).sound hk₂ .closed
  obtain ⟨how, hover⟩ := t₃.ends (t₂.hangs_up hl hreader)
  exact ⟨k₃, how, hk₃, hover⟩

theorem Proper.cleaned_up (h : b.Proper) (hk : b.session? s = some k) {how : Ending}
    (hover : k.stage = .over how) :
    s ∉ b.hub.live ∧ (∃ buffer, b.hub.buffer? s = some buffer ∧ buffer.closed = true) ∧
      k.reader = .ended ∧ k.closes = 1 := by
  have hproper := h.session s k hk
  have hclosings : Session.Stage.closings k.stage = 1 := by rw [hover]; rfl
  have hgone := hproper.left (Session.Stage.left_of_closings hclosings)
  exact ⟨of_decide_eq_false hgone.live, hgone.exists_closed, hproper.joined hclosings,
    hproper.closes.trans hclosings⟩

/-- What the session `k` of the subscriber `s` has cleaned up in the course of
the events. -/
structure CleansUp (s : Nat) (es : List Event) (k : Session) : Prop where
  ended : ∀ how, k.stage = .over how →
    s ∉ (empty.run es).hub.live ∧
    (∃ buffer, (empty.run es).hub.buffer? s = some buffer ∧ buffer.closed = true) ∧
    k.reader = .ended ∧ k.closes = 1
  closes_once : k.closes ≤ 1
  closes_last : ∀ pre e post j j', es = pre ++ e :: post →
    (empty.run pre).session? s = some j → (empty.run (pre ++ [e])).session? s = some j' →
    j.closes < j'.closes →
    HasBeenLive s pre ∧ s ∉ (empty.run pre).hub.live ∧ j.reader = .ended
  ends : Session.Stage.isLeft k.stage = true →
    ∃ k' how, (empty.run (es ++ windUp s)).session? s = some k' ∧ k'.stage = .over how

theorem session_cleans_up (hk : (empty.run es).session? s = some k) : CleansUp s es k := by
  have hrun := proper_empty.run es
  have hproper := hrun.session s k hk
  refine ⟨?_, ?_, ?_, ?_⟩
  · intro how hover
    exact hrun.cleaned_up hk hover
  · rw [hproper.closes]
    exact Session.Stage.closings_le k.stage
  · rintro pre e post j j' rfl hj hj' hcloses
    -- the count goes up in the turn that hangs up, and that one finds the session gone
    have hpre := proper_empty.run pre
    have c := step_change hpre.sound e s
    rw [← run_concat, hj, hj'] at c
    obtain ⟨hleft, hreader⟩ := c.closes hcloses
    exact ⟨hasBeenLive_of_serving hj (Session.Stage.not_idle_of_left hleft),
      of_decide_eq_false ((hpre.session s j hj).left hleft).live, hreader⟩
  · intro hleft
    rw [run_append]
    exact over_of_windUp hrun hk hleft

/-- A session that is cancelled twice while it writes, then while it waits for
its writer, while it waits for its reader and while it closes the connection;
the peer goes away and the hub closes meanwhile. -/
def cancellations : List Event :=
  [.connect 2 Session.defaultTimeout (some "gone"), .serve 0,
    .hub (.broadcast ⟨"chore", "done", 7, []⟩), .move 0 .proceed, .move 0 .cancel,
    .move 0 (.arrive (.gone "reset")), .move 0 .cancel, .hub .close, .move 0 .proceed,
    .move 0 .cancel, .move 0 .proceed, .move 0 .cancel, .move 0 .read, .move 0 .proceed,
    .move 0 .cancel, .move 0 .proceed]

theorem cancellations_clean_up : ∃ k, (empty.run cancellations).session? 0 = some k ∧
    k.stage = .over .cancelled ∧ k.sent = [] ∧ CleansUp 0 cancellations k :=
  ⟨_, rfl, rfl, rfl, session_cleans_up rfl⟩

end Switchboard

end Household.Realtime
