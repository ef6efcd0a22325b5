import Household.Proofs.Lists
import Household.Proofs.Realtime.Place
import Household.Realtime.Switchboard

/-!
# Turns at one place

Whatever happens on a switchboard, seen from one subscriber it is an operation
of the hub, the subscriber's arrival, the beginning of its session or one of
the turns that a session can take. The turns are listed here with everything
they need and change, so that no later proof has to open a move.
-/

set_option autoImplicit false

namespace Household.Realtime

namespace Session

def leaving (k : Session) (how : Ending) : Session :=
  { k with stage := .joining how, cancelling := false, readerCancelling := true }

def Stage.isServing : Stage → Bool
  | .receiving => true
  | .writing _ => true
  | .wrote _ => true
  | .dropping _ => true
  | _ => false

def Stage.isInterruptible : Stage → Bool
  | .receiving => true
  | .writing _ => true
  | .dropping _ => true
  | .closing _ => true
  | _ => false

theorem Stage.not_interruptible {stage : Stage} (hreceiving : stage ≠ .receiving)
    (hwriting : ∀ text, stage ≠ .writing text) (hdropping : ∀ how, stage ≠ .dropping how)
    (hclosing : ∀ how, stage ≠ .closing how) : isInterruptible stage = false := by
  cases stage with
  | receiving => exact absurd rfl hreceiving
  | writing text => exact absurd rfl (hwriting text)
  | dropping how => exact absurd rfl (hdropping how)
  | closing how => exact absurd rfl (hclosing how)
  | _ => rfl

def Stage.isLeaving : Stage → Bool
  | .receiving => true
  | .dropping _ => true
  | _ => false

/-- There is nothing to do for a move of the session `k` at its place `p`. -/
def Waits (p : Place) (k : Session) : Move → Prop
  | .proceed => (Stage.isInterruptible k.stage = true → k.cancelling = false) ∧
      (k.stage = .receiving → ∀ b, p.buffer? = some b → b.read? = none) ∧
      (∀ r, k.stage ≠ .wrote r) ∧ ∀ how, k.stage = .joining how → k.reader ≠ .ended
  | .wrote _ => ∀ text, k.stage ≠ .writing text
  | .deadline => ∀ text, k.stage ≠ .writing text
  | .dropped => ∀ how, k.stage = .dropping how → k.cancelling = true
  | .closed => ∀ how, k.stage ≠ .closing how
  | .read => k.reader = .listening → k.readerCancelling = false ∧ k.inbound = []
  | .arrive _ => False
  | .cancel => Stage.isInterruptible k.stage = false

/-- The turns of a session `k` at its place `p`. -/
inductive Turn (p : Place) (k : Session) : Move → Place → Session → Prop
  | rest {m : Move} : Waits p k m → Turn p k m p k
  | arrive (i : Inbound) : Turn p k (.arrive i) p { k with inbound := k.inbound ++ [i] }
  | cancel : Stage.isInterruptible k.stage = true →
      Turn p k .cancel p { k with cancelling := true }
  | take {b b' : Buffer} {text : String} : k.stage = .receiving → k.cancelling = false →
      p.buffer? = some b → b.read? = some (some text, b') →
      Turn p k .proceed { p with buffer? := some b' } { k with stage := .writing text }
  | drained {b b' : Buffer} : k.stage = .receiving → k.cancelling = false →
      p.buffer? = some b → b.read? = some (none, b') →
      Turn p k .proceed (Place.leave { p with buffer? := some b' }) (k.leaving .returned)
  | cancelled : Stage.isLeaving k.stage = true → k.cancelling = true →
      Turn p k .proceed p.leave (k.leaving .cancelled)
  | wrote {text : String} (r : Written) : k.stage = .writing text →
      Turn p k (.wrote r) p
        { k with stage := .wrote r, cancelling := false, sent := k.sent ++ r.texts text }
  | goOn : k.stage = .wrote .sent → Turn p k .proceed p { k with stage := .receiving }
  | giveUp {r : Written} : k.stage = .wrote r → r ≠ .sent →
      Turn p k .proceed p.leave (k.leaving .returned)
  | late {text : String} : k.stage = .writing text → k.cancelling = false →
      Turn p k .deadline p (k.drop .returned)
  | struck {text : String} {m : Move} : m = .proceed ∨ m = .deadline →
      k.stage = .writing text → k.cancelling = true → Turn p k m p (k.drop .cancelled)
  | dropped {how : Ending} : k.stage = .dropping how → k.cancelling = false →
      Turn p k .dropped p.leave (k.leaving how)
  | hangUp {how : Ending} : k.stage = .joining how → k.reader = .ended →
      Turn p k .proceed p { k with stage := .closing how, closes := k.closes + 1 }
  | closed {how : Ending} : k.stage = .closing how →
      Turn p k .closed p { k with stage := .over how }
  | abandoned {how : Ending} : k.stage = .closing how → k.cancelling = true →
      Turn p k .proceed p { k with stage := .over .cancelled }
  | stopReader : k.reader = .listening → k.readerCancelling = true →
      Turn p k .read p { k with reader := .ended }
  | discard {t : String} {rest : List Inbound} : k.reader = .listening →
      k.readerCancelling = false → k.inbound = .text t :: rest →
      Turn p k .read p { k with inbound := rest }
  | peerGone {reason : String} {rest : List Inbound} : k.reader = .listening →
      k.readerCancelling = false → k.inbound = .gone reason :: rest →
      Turn p k .read p.leave { k with inbound := rest, reader := .ended }

variable (h : Hub) (k : Session)

theorem receive_turn (hstage : k.stage = .receiving) (hc : k.cancelling = false) :
    Turn (h.place k.subscriber) k .proceed ((receive h k).hub.place k.subscriber)
      (receive h k).session := by
  have waits (hread : ∀ b, h.buffer? k.subscriber = some b → b.read? = none) :
      Waits (h.place k.subscriber) k .proceed :=
    ⟨fun _ => hc, fun _ => hread, by simp [hstage], by simp [hstage]⟩
  unfold receive
  split
  · rename_i hb
    exact .rest (waits (fun b hb' => by simp [hb] at hb'))
  · rename_i b hb
    split
    · rename_i hr
      exact .rest (waits (fun b' hb' => by rw [hb, Option.some.injEq] at hb'; rw [← hb', hr]))
    · rename_i b' hr
      simp only [leave, Hub.place_unregister_self, Hub.place_setBuffer_self hb]
      exact .drained hstage hc hb hr
    · rename_i text b' hr
      simp only [quiet, Hub.place_setBuffer_self hb]
      exact .take hstage hc hb hr

theorem leave_turn {m : Move} (how : Ending) (ns : List Notice)
    (turn : Turn (h.place k.subscriber) k m (h.place k.subscriber).leave (k.leaving how)) :
    Turn (h.place k.subscriber) k m ((leave h k how ns).hub.place k.subscriber)
      (leave h k how ns).session := by
  simp only [leave, Hub.place_unregister_self]
  exact turn

theorem afterWrite_turn {r : Written} (hstage : k.stage = .wrote r) :
    Turn (h.place k.subscriber) k .proceed ((afterWrite h k r).hub.place k.subscriber)
      (afterWrite h k r).session := by
  cases r with
  | sent => exact .goOn hstage
  | failed reason => exact leave_turn h k _ _ (.giveUp hstage (by simp))
  | timedOut => exact leave_turn h k _ _ (.giveUp hstage (by simp))

theorem proceed_turn : Turn (h.place k.subscriber) k .proceed
    ((proceed h k).hub.place k.subscriber) (proceed h k).session := by
  unfold proceed
  split
  · rename_i hstage
    by_cases hc : k.cancelling = true
    · rw [if_pos hc]
      exact leave_turn h k _ _ (.cancelled (by simp [hstage, Stage.isLeaving]) hc)
    · rw [if_neg hc]
      exact receive_turn h k hstage (eq_false_of_ne_true hc)
  · rename_i text hstage
    by_cases hc : k.cancelling = true
    · rw [if_pos hc]
      exact .struck (.inl rfl) hstage hc
    · rw [if_neg hc]
      exact .rest ⟨fun _ => eq_false_of_ne_true hc, by simp [hstage], by simp [hstage],
        by simp [hstage]⟩
  · rename_i r hstage
    exact afterWrite_turn h k hstage
  · rename_i how hstage
    by_cases hc : k.cancelling = true
    · rw [if_pos hc]
      exact leave_turn h k _ _ (.cancelled (by simp [hstage, Stage.isLeaving]) hc)
    · rw [if_neg hc]
      exact .rest ⟨fun _ => eq_false_of_ne_true hc, by simp [hstage], by simp [hstage],
        by simp [hstage]⟩
  · rename_i how hstage
    by_cases hr : k.reader = .ended
    · rw [if_pos hr]
      exact .hangUp hstage hr
    · rw [if_neg hr]
      exact .rest ⟨by simp [hstage, Stage.isInterruptible], by simp [hstage], by simp [hstage],
        fun _ _ => hr⟩
  · rename_i how hstage
    by_cases hc : k.cancelling = true
    · rw [if_pos hc]
      exact .abandoned hstage hc
    · rw [if_neg hc]
      exact .rest ⟨fun _ => eq_false_of_ne_true hc, by simp [hstage], by simp [hstage],
        by simp [hstage]⟩
  · rename_i hreceiving hwriting hwrote hdropping hjoining hclosing
    have hi := Stage.not_interruptible hreceiving hwriting hdropping hclosing
    exact .rest ⟨fun h => absurd (hi.symm.trans h) Bool.false_ne_true,
      fun hs => absurd hs hreceiving, hwrote, fun how hs => absurd hs (hjoining how)⟩

theorem read_turn : Turn (h.place k.subscriber) k .read
    ((read h k).hub.place k.subscriber) (read h k).session := by
  unfold read
  by_cases hr : k.reader = .listening
  · rw [if_neg (not_not_intro hr)]
    by_cases hc : k.readerCancelling = true
    · rw [if_pos hc]
      exact .stopReader hr hc
    · rw [if_neg hc]
      have hc' := eq_false_of_ne_true hc
      split
      · rename_i hin
        exact .rest (fun _ => ⟨hc', hin⟩)
      · rename_i t rest hin
        exact .discard hr hc' hin
      · rename_i reason rest hin
        simp only [Hub.place_unregister_self]
        exact .peerGone hr hc' hin
  · rw [if_pos hr]
    exact .rest (fun h => absurd h hr)

theorem endWrite_turn (r : Written) : Turn (h.place k.subscriber) k (.wrote r)
    ((endWrite h k r).hub.place k.subscriber) (endWrite h k r).session := by
  unfold endWrite
  split
  · rename_i text hstage
    exact .wrote r hstage
  · rename_i hstage
    exact .rest hstage

theorem deadline_turn : Turn (h.place k.subscriber) k .deadline
    ((deadline h k).hub.place k.subscriber) (deadline h k).session := by
  unfold deadline
  split
  · rename_i text hstage
    by_cases hc : k.cancelling = true
    · rw [if_pos hc]
      exact .struck (.inr rfl) hstage hc
    · rw [if_neg hc]
      exact .late hstage (eq_false_of_ne_true hc)
  · rename_i hstage
    exact .rest hstage

theorem endDrop_turn : Turn (h.place k.subscriber) k .dropped
    ((endDrop h k).hub.place k.subscriber) (endDrop h k).session := by
  unfold endDrop
  split
  · rename_i how hstage
    by_cases hc : k.cancelling = true
    · rw [if_pos hc]
      exact .rest fun _ _ => hc
    · rw [if_neg hc]
      exact leave_turn h k _ _ (.dropped hstage (eq_false_of_ne_true hc))
  · rename_i hstage
    exact .rest fun how hs => absurd hs (hstage how)

theorem cancel_turn : Turn (h.place k.subscriber) k .cancel (h.place k.subscriber) (cancel k) := by
  unfold cancel
  split
  · rename_i hstage
    exact .cancel (by simp [hstage, Stage.isInterruptible])
  · rename_i text hstage
    exact .cancel (by simp [hstage, Stage.isInterruptible])
  · rename_i how hstage
    exact .cancel (by simp [hstage, Stage.isInterruptible])
  · rename_i how hstage
    exact .cancel (by simp [hstage, Stage.isInterruptible])
  · rename_i hreceiving hwriting hdropping hclosing
    exact .rest (Stage.not_interruptible hreceiving hwriting hdropping hclosing)

theorem move_turn (m : Move) : Turn (h.place k.subscriber) k m
    ((move h k m).hub.place k.subscriber) (move h k m).session := by
  cases m with
  | proceed => exact proceed_turn h k
  | read => exact read_turn h k
  | arrive i => exact .arrive i
  | cancel => exact cancel_turn h k
  | closed =>
    simp only [move, endClose]
    split
    · rename_i how hstage
      exact .closed hstage
    · rename_i hstage
      exact .rest hstage
  | wrote r => exact endWrite_turn h k r
  | deadline => exact deadline_turn h k
  | dropped => exact endDrop_turn h k

/-! What a move leaves alone -/

inductive Touched (h : Hub) (s : Nat) : Hub → Prop
  | same : Touched h s h
  | set {h' : Hub} (b : Buffer) : Touched h s h' → Touched h s (h'.setBuffer s b)
  | unregister {h' : Hub} : Touched h s h' → Touched h s (h'.unregister s).1
  | register {h' h'' : Hub} {ns : List Hub.Notice} : Touched h s h' →
      h'.register s = .ok (h'', ns) → Touched h s h''

theorem Touched.sound {h h' : Hub} {s : Nat} (ht : Touched h s h') (hh : h.Sound) : h'.Sound := by
  induction ht with
  | same => exact hh
  | set b _ ih => exact ih.setBuffer s b
  | unregister _ ih => exact ih.unregister s
  | register _ hr ih => exact ih.register hr

theorem Touched.length {h h' : Hub} {s : Nat} (ht : Touched h s h') :
    h'.buffers.length = h.buffers.length := by
  induction ht with
  | same => rfl
  | set b _ ih => rw [Hub.length_setBuffer, ih]
  | unregister _ ih => rw [Hub.length_unregister, ih]
  | register _ hr ih => rw [(Hub.register_ok hr).1, ih]

theorem Touched.place_of_ne {h h' : Hub} {s t : Nat} (ht : Touched h s h') (hne : s ≠ t) :
    h'.place t = h.place t := by
  induction ht with
  | same => rfl
  | set b _ ih => rw [Hub.place_setBuffer_of_ne _ b hne, ih]
  | unregister _ ih => rw [Hub.place_unregister_of_ne _ hne, ih]
  | register _ hr ih => rw [Hub.place_register_of_ne hr hne, ih]

theorem receive_touched : Touched h k.subscriber (receive h k).hub := by
  unfold receive
  split
  · exact .same
  · split
    · exact .same
    · exact .unregister (.set _ .same)
    · exact .set _ .same

theorem afterWrite_touched (r : Written) : Touched h k.subscriber (afterWrite h k r).hub := by
  cases r with
  | sent => exact .same
  | _ => exact .unregister .same

theorem proceed_touched : Touched h k.subscriber (proceed h k).hub := by
  unfold proceed
  split
  · split
    · exact .unregister .same
    · exact receive_touched h k
  · split <;> exact .same
  · exact afterWrite_touched h k _
  · split
    · exact .unregister .same
    · exact .same
  · split <;> exact .same
  · split <;> exact .same
  · exact .same

theorem read_touched : Touched h k.subscriber (read h k).hub := by
  unfold read
  split
  · exact .same
  · split
    · exact .same
    · split
      · exact .same
      · exact .same
      · exact .unregister .same

theorem endDrop_touched : Touched h k.subscriber (endDrop h k).hub := by
  unfold endDrop
  split
  · split
    · exact .same
    · exact .unregister .same
  · exact .same

theorem move_touched (m : Move) : Touched h k.subscriber (move h k m).hub := by
  cases m with
  | proceed => exact proceed_touched h k
  | read => exact read_touched h k
  | arrive i => exact .same
  | cancel => exact .same
  | closed =>
    simp only [move, endClose]
    split <;> exact .same
  | wrote r =>
    simp only [move, endWrite]
    split <;> exact .same
  | deadline =>
    simp only [move, deadline]
    split <;> exact .same
  | dropped => exact endDrop_touched h k

theorem Turn.subscriber_eq {p p' : Place} {k k' : Session} {m : Move} (t : Turn p k m p' k') :
    k'.subscriber = k.subscriber := by
  cases t <;> rfl

def started (k : Session) : Session := { k with stage := .receiving, reader := .listening }

theorem start_ok {h : Hub} {k : Session} {e : Effect} (hs : start h k = .ok e) :
    (∃ ns, h.register k.subscriber = .ok (e.hub, ns)) ∧ e.session = k.started := by
  unfold start at hs
  split at hs
  · simp at hs
  · rename_i h' ns hr
    rw [Except.ok.injEq] at hs
    rw [← hs]
    exact ⟨⟨ns, hr⟩, rfl⟩

end Session

namespace Switchboard

structure Sound (b : Switchboard) : Prop where
  hub : b.hub.Sound
  length : b.sessions.length = b.hub.buffers.length
  subscriber : ∀ {s k}, b.session? s = some k → k.subscriber = s

theorem sound_empty : empty.Sound where
  hub := ⟨List.nodup_nil, by simp [empty, Hub.empty]⟩
  length := rfl
  subscriber {s k} h := by simp [session?, empty] at h

/-- What an event comes to for the subscriber `s`, its place and its session
if it has one. -/
inductive Change (s : Nat) : Event → Place → Option Session → Place → Option Session → Prop
  | elsewhere {e : Event} {p : Place} {k? : Option Session} : (∀ op, e ≠ .hub op) →
      (∀ m, e = .move s m → k? = none) → Change s e p k? p k?
  | hub (op : Hub.Op) {p : Place} {k? : Option Session} :
      Change s (.hub op) p k? (p.step s op) k?
  | join {e : Event} {size : Int} {buffer : Buffer} {k? : Option Session} : (∀ op, e ≠ .hub op) →
      Buffer.new? size = some buffer →
      (∀ k ∈ k?, ∃ timeout fault?, k = Session.new s timeout fault?) →
      Change s e ⟨none, false⟩ none ⟨some buffer, false⟩ k?
  | serve {p : Place} {k : Session} : p.live = false → p.isOpen = true →
      Change s (.serve s) p (some k) { p with live := true } (some k.started)
  | move {m : Session.Move} {p p' : Place} {k k' : Session} : Session.Turn p k m p' k' →
      Change s (.move s m) p (some k) p' (some k')

theorem session?_lt {b : Switchboard} {s : Nat} {k : Session} (hk : b.session? s = some k) :
    s < b.sessions.length := by
  unfold session? at hk
  rw [Option.join_eq_some_iff] at hk
  exact (List.getElem?_eq_some_iff.mp hk).1

theorem session?_put_self {b : Switchboard} {s : Nat} {k : Session} (hk : b.session? s = some k)
    (e : Session.Effect) : (b.put s e).session? s = some e.session := by
  have hlt := session?_lt hk
  simp [session?, put, hlt]

theorem session?_put_of_ne (b : Switchboard) {s t : Nat} (e : Session.Effect) (hne : t ≠ s) :
    (b.put t e).session? s = b.session? s := by
  simp [session?, put, hne]

theorem Sound.put {b : Switchboard} (hb : b.Sound) {s : Nat} {k : Session} {e : Session.Effect}
    (hk : b.session? s = some k) (ht : Session.Touched b.hub s e.hub)
    (hs : e.session.subscriber = k.subscriber) : (b.put s e).Sound where
  hub := ht.sound hb.hub
  length := by
    rw [show (b.put s e).hub = e.hub from rfl, ht.length, ← hb.length]
    simp [Switchboard.put]
  subscriber {t j} hj := by
    by_cases hts : s = t
    · subst hts
      rw [session?_put_self hk, Option.some.injEq] at hj
      rw [← hj, hs, hb.subscriber hk]
    · rw [session?_put_of_ne b e hts] at hj
      exact hb.subscriber hj

/-! Newcomers -/

section

variable {b : Switchboard} (hb : b.Sound) (buffer : Buffer) (session? : Nat → Option Session)

theorem place_join_of_ne {s : Nat} (hs : s ≠ b.hub.buffers.length) :
    (b.join buffer session?).hub.place s = b.hub.place s :=
  Place.ext (getElem?_concat_of_ne buffer hs) rfl

include hb

theorem not_live_newcomer : b.hub.buffers.length ∉ b.hub.live :=
  fun h => Nat.lt_irrefl _ (hb.hub.buffered _ h)

theorem place_newcomer : b.hub.place b.hub.buffers.length = ⟨none, false⟩ :=
  Place.ext (List.getElem?_eq_none (Nat.le_refl _)) (decide_eq_false (not_live_newcomer hb))

theorem place_join_self :
    (b.join buffer session?).hub.place b.hub.buffers.length = ⟨some buffer, false⟩ :=
  Place.ext List.getElem?_concat_length (decide_eq_false (not_live_newcomer hb))

theorem session?_newcomer : b.session? b.hub.buffers.length = none := by
  unfold Switchboard.session?
  rw [List.getElem?_eq_none (Nat.le_of_eq hb.length)]
  rfl

theorem session?_join_self :
    (b.join buffer session?).session? b.hub.buffers.length = session? b.hub.buffers.length := by
  show (b.sessions ++ [session? b.hub.buffers.length])[b.hub.buffers.length]?.join = _
  rw [← hb.length, List.getElem?_concat_length]
  rfl

theorem session?_join_of_ne {s : Nat} (hs : s ≠ b.hub.buffers.length) :
    (b.join buffer session?).session? s = b.session? s := by
  rw [← hb.length] at hs
  exact congrArg Option.join (getElem?_concat_of_ne _ hs)

end

theorem Sound.join {b : Switchboard} (hb : b.Sound) (buffer : Buffer)
    {session? : Nat → Option Session}
    (hs : ∀ k ∈ session? b.hub.buffers.length, k.subscriber = b.hub.buffers.length) :
    (b.join buffer session?).Sound where
  hub := by
    refine ⟨hb.hub.nodup, fun t ht => ?_⟩
    have hlt := hb.hub.buffered t ht
    simp only [Switchboard.join, Hub.subscribe, List.length_append]
    omega
  length := by simp [Switchboard.join, Hub.subscribe, hb.length]
  subscriber {t k} hk := by
    by_cases ht : t = b.hub.buffers.length
    · subst ht
      rw [session?_join_self hb] at hk
      exact hs k hk
    · rw [session?_join_of_ne hb _ _ ht] at hk
      exact hb.subscriber hk

theorem Sound.step {b : Switchboard} (hb : b.Sound) (e : Event) : (b.step e).Sound := by
  cases e with
  | subscribe size =>
    simp only [Switchboard.step]
    split
    · exact hb.join _ (by simp)
    · exact hb
  | connect size timeout fault? =>
    simp only [Switchboard.step]
    split
    · exact hb.join _ (by simp [Session.new])
    · exact hb
  | hub op =>
    refine ⟨hb.hub.step op, ?_, hb.subscriber⟩
    simp only [Switchboard.step, withHub, Hub.length_step, hb.length]
  | serve s =>
    simp only [Switchboard.step]
    split
    · rename_i eff heff
      obtain ⟨k, hk, hstart⟩ := Option.map_eq_some_iff.mp heff
      obtain ⟨⟨ns, hr⟩, hsession⟩ := Session.start_ok hstart
      rw [hb.subscriber hk] at hr
      exact hb.put hk (.register .same hr) (by rw [hsession]; rfl)
    · exact hb
  | move s m =>
    simp only [Switchboard.step, move?]
    split
    · rename_i eff heff
      obtain ⟨k, hk, rfl⟩ := Option.map_eq_some_iff.mp heff
      have ht := Session.move_touched b.hub k m
      rw [hb.subscriber hk] at ht
      exact hb.put hk ht (Session.move_turn b.hub k m).subscriber_eq
    · exact hb

/-- A newcomer changes nothing for those who are there. -/
theorem join_change {b : Switchboard} (hb : b.Sound) {size : Int} {buffer : Buffer}
    (hnew : Buffer.new? size = some buffer) {session? : Nat → Option Session}
    (hs : ∀ s, ∀ k ∈ session? s, ∃ timeout fault?, k = Session.new s timeout fault?)
    {e : Event} (he : ∀ op, e ≠ .hub op) (he' : ∀ t m, e ≠ .move t m) (s : Nat) :
    Change s e (b.hub.place s) (b.session? s) ((b.join buffer session?).hub.place s)
      ((b.join buffer session?).session? s) := by
  by_cases hnewcomer : s = b.hub.buffers.length
  · subst hnewcomer
    rw [place_newcomer hb, session?_newcomer hb, place_join_self hb, session?_join_self hb]
    exact .join he hnew (hs _)
  · rw [place_join_of_ne _ _ hnewcomer, session?_join_of_ne hb _ _ hnewcomer]
    exact .elsewhere he (fun m hm => absurd hm (he' s m))

theorem serve_change {b : Switchboard} (hb : b.Sound) {t : Nat} {k : Session} {e : Session.Effect}
    (hk : b.session? t = some k) (hstart : Session.start b.hub k = .ok e) (s : Nat) :
    Change s (.serve t) (b.hub.place s) (b.session? s) ((b.put t e).hub.place s)
      ((b.put t e).session? s) := by
  obtain ⟨⟨ns, hr⟩, hsession⟩ := Session.start_ok hstart
  rw [hb.subscriber hk] at hr
  show Change s (.serve t) _ _ (e.hub.place s) _
  by_cases hts : t = s
  · subst hts
    obtain ⟨-, hlive, buffer, hbuffer, hclosed⟩ := Hub.register_ok hr
    have hopen : (b.hub.place t).isOpen = true := by
      simp [Place.isOpen, Hub.place, hbuffer, hclosed]
    rw [session?_put_self hk, hk, hsession, Hub.place_register_of_ok hr, Place.register,
      if_pos hopen]
    exact .serve (decide_eq_false hlive) hopen
  · rw [session?_put_of_ne b e hts, Hub.place_register_of_ne hr hts]
    exact .elsewhere (by simp) (by simp)

theorem move_change {b : Switchboard} (hb : b.Sound) {t : Nat} {k : Session}
    (hk : b.session? t = some k) (m : Session.Move) (s : Nat) :
    Change s (.move t m) (b.hub.place s) (b.session? s)
      ((b.put t (Session.move b.hub k m)).hub.place s)
      ((b.put t (Session.move b.hub k m)).session? s) := by
  have ht := Session.move_touched b.hub k m
  have hturn := Session.move_turn b.hub k m
  rw [hb.subscriber hk] at ht hturn
  show Change s (.move t m) _ _ ((Session.move b.hub k m).hub.place s) _
  by_cases hts : t = s
  · subst hts
    rw [session?_put_self hk, hk]
    exact .move hturn
  · rw [session?_put_of_ne b _ hts, ht.place_of_ne hts]
    refine .elsewhere (by simp) (fun m' hm => ?_)
    rw [Event.move.injEq] at hm
    exact absurd hm.1 hts

theorem step_change {b : Switchboard} (hb : b.Sound) (e : Event) (s : Nat) :
    Change s e (b.hub.place s) (b.session? s) ((b.step e).hub.place s) ((b.step e).session? s) := by
  cases e with
  | subscribe size =>
    simp only [step]
    split
    · rename_i buffer hnew
      exact join_change hb hnew (by simp) (by simp) (by simp) s
    · exact .elsewhere (by simp) (by simp)
  | connect size timeout fault? =>
    simp only [step]
    split
    · rename_i buffer hnew
      exact join_change hb hnew
        (fun t k hk => ⟨timeout, fault?, (Option.mem_some.mp hk).symm⟩) (by simp) (by simp) s
    · exact .elsewhere (by simp) (by simp)
  | hub op =>
    have hplace := Hub.place_step hb.hub op s
    simp only [step, withHub, hplace]
    exact .hub op
  | serve t =>
    simp only [step]
    split
    · rename_i eff heff
      obtain ⟨k, hk, hstart⟩ := Option.map_eq_some_iff.mp heff
      exact serve_change hb hk hstart s
    · exact .elsewhere (by simp) (by simp)
  | move t m =>
    simp only [step, move?]
    split
    · rename_i eff heff
      obtain ⟨k, hk, rfl⟩ := Option.map_eq_some_iff.mp heff
      exact move_change hb hk m s
    · rename_i hnone
      refine .elsewhere (by simp) (fun m' hm => ?_)
      rw [Event.move.injEq] at hm
      rw [← hm.1]
      exact Option.map_eq_none_iff.mp hnone

end Switchboard

end Household.Realtime
