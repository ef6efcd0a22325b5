import Household.Proofs.Realtime.Queue

/-!
# The conduct of a session

Where a session stands tells where its subscriber, its reader and its
connection stand: a session that has left its writing has left the hub, its
reader ends before the connection is closed, and the connection is closed
once.
-/

set_option autoImplicit false

namespace Household.Realtime

namespace Place

theorem read_eq {p : Place} {b b' : Buffer} {r : Option String} (hb : p.buffer? = some b)
    (hr : b.read? = some (r, b')) : { p with buffer? := some b' } = p.read := by
  simp [read, hb, Buffer.step, hr]

end Place

namespace Session

def Stage.isLeft : Stage → Bool
  | .joining _ => true
  | .closing _ => true
  | .over _ => true
  | _ => false

def Stage.closings : Stage → Nat
  | .closing _ => 1
  | .over _ => 1
  | _ => 0

structure Proper (p : Place) (k : Session) : Prop where
  settled : k.stage ≠ .idle → p.Settled
  left : Stage.isLeft k.stage = true → p.Gone
  closes : k.closes = Stage.closings k.stage
  attended : k.stage ≠ .idle → k.reader ≠ .absent
  dismissed : Stage.isLeft k.stage = true → k.reader = .ended ∨ k.readerCancelling = true
  joined : Stage.closings k.stage = 1 → k.reader = .ended

/-! What a turn keeps -/

variable {p p' : Place} {k k' : Session} {m : Move}

/-- What reading and leaving keep at a place is kept by every turn. -/
theorem Turn.keeps {P : Place → Prop} (read : ∀ q, P q → P q.read)
    (leave : ∀ q, P q → P q.leave) (t : Turn p k m p' k') (h : P p) : P p' := by
  cases t with
  | take _ _ hb hr =>
    rw [Place.read_eq hb hr]
    exact read p h
  | drained _ _ hb hr =>
    rw [Place.read_eq hb hr]
    exact leave _ (read p h)
  | cancelled | giveUp | dropped | peerGone => exact leave p h
  | _ => exact h

theorem Turn.settled (t : Turn p k m p' k') (h : p.Settled) : p'.Settled :=
  t.keeps (fun _ => Place.Settled.read) (fun _ => Place.Settled.leave) h

theorem Turn.gone (t : Turn p k m p' k') (h : p.Gone) : p'.Gone :=
  t.keeps (fun _ => Place.Gone.read) (fun _ => Place.Gone.leave) h

theorem Stage.isServing_of_isLeaving {stage : Stage} (h : isLeaving stage = true) :
    isServing stage = true := by
  cases stage with
  | receiving | dropping => rfl
  | _ => simp [isLeaving] at h

theorem Turn.not_idle (t : Turn p k m p' k') (h : k'.stage ≠ .idle) : k.stage ≠ .idle := by
  intro hidle
  apply h
  cases t with
  | cancelled hs => simp [hidle, Stage.isLeaving] at hs
  | take hs | drained hs | wrote _ hs | goOn hs | giveUp hs | late hs | struck _ hs | dropped hs
  | hangUp hs | closed hs | abandoned hs => simp [hidle] at hs
  | _ => exact hidle

theorem Turn.left (t : Turn p k m p' k') (h : Proper p k) (hl : Stage.isLeft k'.stage = true) :
    p'.Gone := by
  have leaves (hs : Stage.isServing k.stage = true) : p.Settled :=
    h.settled fun hi => by simp [hi, Stage.isServing] at hs
  cases t with
  | drained hstage _ hb hr =>
    rw [Place.read_eq hb hr]
    exact (leaves (by simp [hstage, Stage.isServing])).read.gone_leave
  | cancelled hs => exact (leaves (Stage.isServing_of_isLeaving hs)).gone_leave
  | giveUp hstage | dropped hstage =>
    exact (leaves (by simp [hstage, Stage.isServing])).gone_leave
  | hangUp hstage | closed hstage | abandoned hstage =>
    exact h.left (by simp [hstage, Stage.isLeft])
  | take | wrote | goOn | late | struck => simp [drop, Stage.isLeft] at hl
  | peerGone => exact (h.left hl).leave
  | _ => exact h.left hl

theorem Turn.closes (t : Turn p k m p' k') (h : k.closes = Stage.closings k.stage) :
    k'.closes = Stage.closings k'.stage := by
  cases t with
  | take hstage | drained hstage | wrote _ hstage | goOn hstage | giveUp hstage | late hstage
  | struck _ hstage | dropped hstage | hangUp hstage | closed hstage | abandoned hstage =>
    simpa [leaving, drop, hstage, Stage.closings] using h
  | cancelled hs =>
    cases hstage : k.stage <;> simp [hstage, Stage.isLeaving] at hs <;>
      simpa [leaving, hstage, Stage.closings] using h
  | _ => exact h

theorem Turn.dismissed (t : Turn p k m p' k') (h : Proper p k)
    (hl : Stage.isLeft k'.stage = true) : k'.reader = .ended ∨ k'.readerCancelling = true := by
  cases t with
  | drained | cancelled | giveUp | dropped => exact .inr rfl
  | stopReader | peerGone => exact .inl rfl
  | take | wrote | goOn | late | struck => simp [drop, Stage.isLeft] at hl
  | hangUp hstage | closed hstage | abandoned hstage =>
    exact h.dismissed (by simp [hstage, Stage.isLeft])
  | _ => exact h.dismissed hl

theorem Turn.joined (t : Turn p k m p' k') (h : Proper p k)
    (hc : Stage.closings k'.stage = 1) : k'.reader = .ended := by
  cases t with
  | hangUp _ hr => exact hr
  | stopReader | peerGone => rfl
  | closed hstage | abandoned hstage => exact h.joined (by simp [hstage, Stage.closings])
  | take | drained | cancelled | wrote | goOn | giveUp | late | struck | dropped =>
    simp [leaving, drop, Stage.closings] at hc
  | _ => exact h.joined hc

theorem Turn.attended (t : Turn p k m p' k') (h : k.reader ≠ .absent) : k'.reader ≠ .absent := by
  cases t with
  | stopReader | peerGone => simp
  | _ => exact h

theorem Turn.proper (t : Turn p k m p' k') (h : Proper p k) : Proper p' k' where
  settled hi := t.settled (h.settled (t.not_idle hi))
  left := t.left h
  closes := t.closes h.closes
  attended hi := t.attended (h.attended (t.not_idle hi))
  dismissed := t.dismissed h
  joined := t.joined h

theorem proper_new (p : Place) (s : Nat) (timeout : Number) (fault? : Option String) :
    Proper p (.new s timeout fault?) where
  settled hi := absurd rfl hi
  left hl := by simp [Session.new, Stage.isLeft] at hl
  closes := rfl
  attended hi := absurd rfl hi
  dismissed hl := by simp [Session.new, Stage.isLeft] at hl
  joined hc := by simp [Session.new, Stage.closings] at hc

theorem Proper.idle_of_unjoined (h : Proper p k) (hl : p.live = false) (ho : p.isOpen = true) :
    k.stage = .idle := by
  cases hs : k.stage with
  | idle => rfl
  | _ =>
    have hkept := (h.settled (by simp [hs])).kept
    simp [hl, ho] at hkept

theorem Proper.started (h : Proper p k) (hl : p.live = false) (ho : p.isOpen = true) :
    Proper { p with live := true } k.started where
  settled _ := by
    have hjoined : p.buffer? ≠ none := fun hb => by simp [Place.isOpen, hb] at ho
    exact ⟨hjoined, .inl rfl⟩
  left hleft := by simp [Session.started, Stage.isLeft] at hleft
  closes := by
    have hcloses := h.closes
    rw [h.idle_of_unjoined hl ho] at hcloses
    exact hcloses
  attended _ := by simp [Session.started]
  dismissed hleft := by simp [Session.started, Stage.isLeft] at hleft
  joined hc := by simp [Session.started, Stage.closings] at hc

end Session

namespace Switchboard

variable {s : Nat} {e : Event} {p p' : Place} {k k' : Session} {k? k?' : Option Session}
  {m : Session.Move}

theorem Change.settled (c : Change s e p k? p' k?') (h : p.Settled) : p'.Settled := by
  cases c with
  | elsewhere => exact h
  | hub op => exact h.step s op
  | join => exact absurd rfl h.joined
  | serve => exact ⟨h.joined, .inl rfl⟩
  | move t => exact t.settled h

theorem Change.gone (c : Change s e p k? p' k?') (h : p.Gone) : p'.Gone := by
  cases c with
  | elsewhere => exact h
  | hub op => exact h.step s op
  | join => exact absurd rfl h.joined
  | serve _ ho => simp [h.shut] at ho
  | move t => exact t.gone h

theorem Change.proper (c : Change s e p k? p' k?')
    (h : ∀ k, k? = some k → Session.Proper p k) (hk : k?' = some k') :
    Session.Proper p' k' := by
  cases c with
  | elsewhere => exact h k' hk
  | hub op =>
    have hproper := h k' hk
    exact { hproper with
      settled := fun hi => (hproper.settled hi).step s op
      left := fun hl => (hproper.left hl).step s op }
  | join _ _ hsession =>
    obtain ⟨timeout, fault?, rfl⟩ := hsession k' hk
    exact Session.proper_new _ _ _ _
  | serve hl ho =>
    rw [← Option.some.inj hk]
    exact (h _ rfl).started hl ho
  | move t =>
    rw [← Option.some.inj hk]
    exact t.proper (h _ rfl)

theorem Change.exists_turn (c : Change s (.move s m) p (some k) p' k?') :
    ∃ k', k?' = some k' ∧ Session.Turn p k m p' k' := by
  cases c with
  | elsewhere _ hnone => exact absurd (hnone m rfl) (by simp)
  | move t => exact ⟨_, rfl, t⟩

theorem Change.closes (c : Change s e p (some k) p' (some k')) (hc : k.closes < k'.closes) :
    Session.Stage.isLeft k.stage = true ∧ k.reader = .ended := by
  cases c with
  | elsewhere | hub | serve => exact absurd hc (Nat.lt_irrefl _)
  | move t =>
    cases t with
    | hangUp hstage hr => exact ⟨by simp [hstage, Session.Stage.isLeft], hr⟩
    | _ => exact absurd hc (Nat.lt_irrefl _)

structure Proper (b : Switchboard) : Prop where
  sound : b.Sound
  session : ∀ s k, b.session? s = some k → Session.Proper (b.hub.place s) k

theorem proper_empty : empty.Proper where
  sound := sound_empty
  session s k hk := by simp [session?, empty] at hk

theorem Proper.step {b : Switchboard} (h : b.Proper) (e : Event) : (b.step e).Proper where
  sound := h.sound.step e
  session s _ hk := (step_change h.sound e s).proper (h.session s) hk

theorem Proper.run {b : Switchboard} (h : b.Proper) (es : List Event) : (b.run es).Proper := by
  induction es generalizing b with
  | nil => exact h
  | cons e es ih => exact ih (h.step e)

end Switchboard

end Household.Realtime
