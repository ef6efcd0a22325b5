import Household.Proofs.Realtime.Cleanup

/-!
# Cancelling a session

A session that is cancelled before it closes its connection ends as cancelled,
after it has cleaned up, with two exceptions. A session that leaves of its own
accord loses the cancellation that comes while it waits for its reader. And one
that meets a finished write is dropped: the writer had ended when it came, or
ends before the serving has gone on. Then the session goes on as if there had
been none.
-/

set_option autoImplicit false

namespace Household.Realtime

namespace Session

/-- The session serves, or has left and has not yet closed the connection. -/
def Stage.isUnderway : Stage → Bool
  | .joining _ => true
  | stage => isServing stage

/-- A session at the stage, with a cancellation pending or not, can only end
as cancelled. -/
def Stage.isDoomed : Stage → Bool → Bool
  | .receiving, c => c
  | .dropping how, c => c || how = .cancelled
  | .joining how, _ => how = .cancelled
  | .closing how, _ => how = .cancelled
  | .over how, _ => how = .cancelled
  | _, _ => false

/-- A session at the stage, with a cancellation pending or not, ends as cancelled
only if it is cancelled later. -/
def Stage.isSpared : Stage → Bool → Bool
  | .idle, _ => false
  | .dropping how, c => !c && how = .returned
  | .joining how, c => !c && how = .returned
  | .closing how, c => !c && how = .returned
  | .over how, _ => how = .returned
  | _, c => !c

def Doomed (k : Session) : Prop := Stage.isDoomed k.stage k.cancelling = true

def Spared (k : Session) : Prop := Stage.isSpared k.stage k.cancelling = true

/-- The session has been cancelled while it waits for a writer that may yet end
of itself. -/
def Pending (k : Session) : Prop := (∃ text, k.stage = .writing text) ∧ k.cancelling = true

/-- A cancellation is pending only where it strikes, or was when the session
came to its end. -/
def Calm (k : Session) : Prop :=
  k.cancelling = true → Stage.isInterruptible k.stage = true ∨ ∃ how, k.stage = .over how

variable {p p' : Place} {k k' : Session} {m : Move}

theorem Doomed.begun (h : Doomed k) : k.stage ≠ .idle := by
  intro hs
  simp [Doomed, hs, Stage.isDoomed] at h

theorem Spared.begun (h : Spared k) : k.stage ≠ .idle := by
  intro hs
  simp [Spared, hs, Stage.isSpared] at h

theorem Pending.begun (h : Pending k) : k.stage ≠ .idle := by
  obtain ⟨⟨text, hs⟩, -⟩ := h
  simp [hs]

theorem Doomed.ending (h : Doomed k) {how : Ending} (hs : k.stage = .over how) :
    how = .cancelled := by
  simpa [Doomed, hs, Stage.isDoomed] using h

theorem Spared.ending (h : Spared k) {how : Ending} (hs : k.stage = .over how) :
    how = .returned := by
  simpa [Spared, hs, Stage.isSpared] using h

theorem Spared.of_joining (hs : k.stage = .joining .returned) (hc : k.cancelling = false) :
    Spared k := by
  simp [Spared, hs, hc, Stage.isSpared]

theorem Spared.of_wrote {r : Written} (hs : k.stage = .wrote r) (hc : k.cancelling = false) :
    Spared k := by
  simp [Spared, hs, hc, Stage.isSpared]

theorem Spared.not_cancelling (h : Spared k) (hi : Stage.isInterruptible k.stage = true) :
    k.cancelling = false := by
  unfold Spared at h
  cases hs : k.stage <;> simp_all [Stage.isInterruptible, Stage.isSpared]

theorem Calm.not_cancelling (h : Calm k) (hi : Stage.isInterruptible k.stage = false)
    (hover : ∀ how, k.stage ≠ .over how) : k.cancelling = false := by
  apply eq_false_of_ne_true
  intro hc
  rcases h hc with hi' | ⟨how, hs⟩
  · simp [hi] at hi'
  · exact hover how hs

/-! What a turn keeps -/

theorem Turn.doomed (t : Turn p k m p' k') (h : Doomed k) : Doomed k' := by
  unfold Doomed at h ⊢
  cases t with
  | cancel => cases hs : k.stage <;> simp_all [Stage.isDoomed]
  | take hs hc | drained hs hc => simp [hs, hc, Stage.isDoomed] at h
  | wrote _ hs | goOn hs | giveUp hs | late hs | struck _ hs => simp [hs, Stage.isDoomed] at h
  | cancelled | abandoned => rfl
  | dropped hs hc => simpa [hs, hc, leaving, Stage.isDoomed] using h
  | hangUp hs | closed hs => simpa [hs, Stage.isDoomed] using h
  | _ => exact h

theorem Turn.spared (t : Turn p k m p' k') (hm : m ≠ .cancel) (h : Spared k) : Spared k' := by
  have struck (hi : Stage.isInterruptible k.stage = true) (hc : k.cancelling = true) :
      Spared k' := by simp [h.not_cancelling hi] at hc
  cases t with
  | cancel => exact absurd rfl hm
  | cancelled hs hc =>
    refine struck ?_ hc
    cases hk : k.stage <;> simp_all [Stage.isLeaving, Stage.isInterruptible]
  | struck _ hs hc | abandoned hs hc => exact struck (by simp [hs, Stage.isInterruptible]) hc
  | take _ hc => simp [Spared, hc, Stage.isSpared]
  | drained | wrote | giveUp | late => rfl
  | goOn hs => simpa [Spared, hs, Stage.isSpared] using h
  | dropped hs hc => simpa [Spared, hs, hc, leaving, Stage.isSpared] using h
  | hangUp hs => simpa [Spared, hs, Stage.isSpared] using h
  | @closed how hs =>
    have hspared : (!k.cancelling && decide (how = .returned)) = true := by
      simpa [Spared, hs, Stage.isSpared] using h
    exact (Bool.and_eq_true_iff.mp hspared).2
  | _ => exact h

theorem Turn.calm (t : Turn p k m p' k') (h : Calm k) : Calm k' := by
  have unstruck (hc : k.cancelling = false) (hk : k'.cancelling = k.cancelling) : Calm k' := by
    intro hc'
    simp [hk, hc] at hc'
  cases t with
  | cancel hs => exact fun _ => .inl hs
  | take _ hc => exact unstruck hc rfl
  | goOn => exact fun _ => .inl rfl
  | drained | cancelled | wrote | giveUp | late | struck | dropped =>
    exact fun hc => absurd hc Bool.false_ne_true
  | hangUp => exact fun _ => .inl rfl
  | closed | abandoned => exact fun _ => .inr ⟨_, rfl⟩
  | _ => exact h

/-- What becomes of a cancellation that waits for the serving to go on. -/
theorem Turn.pending (t : Turn p k m p' k') (h : Pending k) :
    (∃ r, m = .wrote r) ∨ (Pending k' ∧ m ≠ .proceed ∧ m ≠ .deadline) ∨ Doomed k' := by
  obtain ⟨⟨text, hs⟩, hc⟩ := h
  cases t with
  | rest hw =>
    refine .inr (.inl ⟨⟨⟨text, hs⟩, hc⟩, ?_, ?_⟩)
    · rintro rfl
      have hunstruck := hw.1 (by simp [hs, Stage.isInterruptible])
      simp [hc] at hunstruck
    · rintro rfl
      exact absurd hs (hw text)
  | wrote r => exact .inl ⟨r, rfl⟩
  | struck => exact .inr (.inr rfl)
  | cancel => exact .inr (.inl ⟨⟨⟨text, hs⟩, rfl⟩, by simp, by simp⟩)
  | arrive | stopReader | discard | peerGone =>
    exact .inr (.inl ⟨⟨⟨text, hs⟩, hc⟩, by simp, by simp⟩)
  | take hs' | drained hs' | goOn hs' | giveUp hs' | dropped hs' | hangUp hs' | closed hs'
  | abandoned hs' => simp [hs] at hs'
  | cancelled hs' => simp [hs, Stage.isLeaving] at hs'
  | late _ hc' => simp [hc] at hc'

theorem Turn.waits (t : Turn p k m p' k') (hm : m ≠ .cancel ∧ m ≠ .proceed ∧ m ≠ .deadline)
    (h : (∃ text, k.stage = .writing text) ∨ Spared k) :
    (∃ text, k'.stage = .writing text) ∨ Spared k' := by
  rcases h with ⟨text, hs⟩ | h
  · cases t with
    | wrote => exact .inr rfl
    | late => exact absurd rfl hm.2.2
    | struck hm' => exact absurd hm' (by simp [hm])
    | dropped hs' | closed hs' => simp [hs] at hs'
    | take | drained | cancelled | goOn | giveUp | hangUp | abandoned => exact absurd rfl hm.2.1
    | _ => exact .inl ⟨text, hs⟩
  · exact .inr (t.spared hm.1 h)

theorem Turn.meets {r : Written} (t : Turn p k (.wrote r) p' k')
    (h : (∃ text, k.stage = .writing text) ∨ Spared k) : Spared k' := by
  cases t with
  | rest hw => exact h.elim (fun ⟨text, hs⟩ => absurd hs (hw text)) id
  | wrote => rfl
  | struck hm => simp at hm

/-! Being cancelled -/

theorem Turn.stage_of_cancel (t : Turn p k .cancel p' k') : k'.stage = k.stage := by
  cases t with
  | rest | cancel => rfl
  | struck hm => simp at hm

theorem Turn.loses (t : Turn p k .cancel p' k') (hi : Stage.isInterruptible k.stage = false) :
    k' = k := by
  cases t with
  | rest => rfl
  | cancel hi' => simp [hi] at hi'
  | struck hm => simp at hm

theorem Turn.dooms (t : Turn p k .cancel p' k') (hu : Stage.isUnderway k.stage = true)
    (hjoining : k.stage ≠ .joining .returned) (hwrote : ∀ r, k.stage ≠ .wrote r) :
    Pending k' ∨ Doomed k' := by
  cases t with
  | rest hw =>
    have hunstruck : Stage.isInterruptible k.stage = false := hw
    right
    unfold Doomed
    cases hs : k.stage with
    | joining how =>
      cases how with
      | returned => exact absurd hs hjoining
      | cancelled => rfl
    | wrote r => exact absurd hs (hwrote r)
    | receiving | writing | dropping => simp [hs, Stage.isInterruptible] at hunstruck
    | _ => simp [hs, Stage.isUnderway, Stage.isServing] at hu
  | cancel hi =>
    cases hs : k.stage with
    | writing text => exact .inl ⟨⟨text, rfl⟩, rfl⟩
    | receiving | dropping => exact .inr (by simp [Doomed, Stage.isDoomed])
    | closing => simp [hs, Stage.isUnderway, Stage.isServing] at hu
    | _ => simp [hs, Stage.isInterruptible] at hi
  | struck hm => simp at hm

/-- The session has left, or will when the writer that it has told to end has ended. -/
def Retreats (k : Session) : Prop :=
  Stage.isLeft k.stage = true ∨ (∃ how, k.stage = .dropping how) ∧ k.cancelling = false

theorem Turn.retreats (t : Turn p k .proceed p' k') (h : Pending k ∨ Doomed k) :
    Doomed k' ∧ Retreats k' := by
  have hdoomed : Doomed k' := by
    rcases h with h | h
    · rcases t.pending h with ⟨r, hr⟩ | ⟨-, hm, -⟩ | hd
      · simp at hr
      · exact absurd rfl hm
      · exact hd
    · exact t.doomed h
  refine ⟨hdoomed, ?_⟩
  cases t with
  | rest hw =>
    have hcancelling := hw.1
    unfold Doomed at hdoomed
    cases hs : k.stage with
    | idle | wrote => simp [hs, Stage.isDoomed] at hdoomed
    | writing | receiving =>
      have hc := hcancelling (by simp [hs, Stage.isInterruptible])
      simp [hs, hc, Stage.isDoomed] at hdoomed
    | dropping how => exact .inr ⟨⟨how, hs⟩, hcancelling (by simp [hs, Stage.isInterruptible])⟩
    | _ => exact .inl (by simp [hs, Stage.isLeft])
  | take => simp [Doomed, Stage.isDoomed] at hdoomed
  | goOn hs =>
    rcases h with ⟨⟨text, hs'⟩, -⟩ | h
    · simp [hs] at hs'
    · simp [Doomed, hs, Stage.isDoomed] at h
  | struck => exact .inr ⟨⟨_, rfl⟩, rfl⟩
  | drained | cancelled | giveUp | hangUp | abandoned => exact .inl rfl

theorem Turn.lets_go (t : Turn p k .dropped p' k') (h : Retreats k) :
    Stage.isLeft k'.stage = true := by
  cases t with
  | rest hw =>
    rcases h with hl | ⟨⟨how, hs⟩, hc⟩
    · exact hl
    · simp [hw how hs] at hc
  | dropped => rfl
  | struck hm => simp at hm

end Session

namespace Switchboard

variable {s : Nat} {e : Event} {p p' : Place} {k k' : Session} {k? k?' : Option Session}
  {b : Switchboard} {pre post es : List Event}

theorem Change.turns (c : Change s e p (some k) p' k?') (h : Session.Proper p k)
    (hi : k.stage ≠ .idle) : ∃ k', k?' = some k' ∧
      ((k' = k ∧ ∀ m, e ≠ .move s m) ∨ ∃ m, e = .move s m ∧ Session.Turn p k m p' k') := by
  cases c with
  | elsewhere _ hnone => exact ⟨k, rfl, .inl ⟨rfl, fun m hm => by simpa using hnone m hm⟩⟩
  | hub => exact ⟨k, rfl, .inl ⟨rfl, by simp⟩⟩
  | serve hl ho => exact absurd (h.idle_of_unjoined hl ho) hi
  | move t => exact ⟨_, rfl, .inr ⟨_, rfl, t⟩⟩

/-- What all turns by some of the moves keep of a session is kept by a run
in which it makes no other moves. -/
theorem session_keeps (P : Session → Prop) (moves : Session.Move → Prop)
    (begun : ∀ k, P k → k.stage ≠ .idle)
    (turn : ∀ p p' k k' m, Session.Turn p k m p' k' → moves m → P k → P k')
    (h : b.Proper) (hk : b.session? s = some k) (hp : P k)
    (hes : ∀ m, Event.move s m ∈ es → moves m) :
    ∃ k', (b.run es).session? s = some k' ∧ P k' := by
  induction es generalizing b k with
  | nil => exact ⟨k, hk, hp⟩
  | cons e es ih =>
    have c := step_change h.sound e s
    rw [hk] at c
    obtain ⟨j, hj, hstep⟩ := c.turns (h.session s k hk) (begun k hp)
    have hpj : P j := by
      rcases hstep with ⟨rfl, -⟩ | ⟨m, rfl, t⟩
      · exact hp
      · exact turn _ _ _ _ m t (hes m List.mem_cons_self) hp
    exact ih (h.step e) hj hpj fun m hm => hes m (List.mem_cons_of_mem e hm)

/-- The writer of `s` ends of itself before its session goes on. -/
def EndsFirst (s : Nat) (es : List Event) : Prop :=
  ∃ first r rest, es = first ++ .move s (.wrote r) :: rest ∧
    .move s .proceed ∉ first ∧ .move s .deadline ∉ first

theorem EndsFirst.cons (h : EndsFirst s es) (hp : e ≠ .move s .proceed)
    (hd : e ≠ .move s .deadline) : EndsFirst s (e :: es) := by
  obtain ⟨first, r, rest, rfl, hfirst, hfirst'⟩ := h
  refine ⟨e :: first, r, rest, rfl, ?_, ?_⟩
  · exact List.not_mem_cons_of_ne_of_not_mem hp.symm hfirst
  · exact List.not_mem_cons_of_ne_of_not_mem hd.symm hfirst'

section

variable (h : b.Proper) (hk : b.session? s = some k)
include h hk

theorem doomed_run (hd : Session.Doomed k) (es : List Event) :
    ∃ k', (b.run es).session? s = some k' ∧ Session.Doomed k' :=
  session_keeps Session.Doomed (fun _ => True) (fun _ hd => hd.begun)
    (fun _ _ _ _ _ t _ hd => t.doomed hd) h hk hd (fun _ _ => trivial)

theorem spared_run (hs : Session.Spared k) (hes : .move s .cancel ∉ es) :
    ∃ k', (b.run es).session? s = some k' ∧ Session.Spared k' :=
  session_keeps Session.Spared (· ≠ .cancel) (fun _ hs => hs.begun)
    (fun _ _ _ _ _ t hm hs => t.spared hm hs) h hk hs fun _ hm hc => hes (hc ▸ hm)

theorem spared_of_endsFirst {text : String} (hs : k.stage = .writing text)
    (hends : EndsFirst s es) (hes : .move s .cancel ∉ es) :
    ∃ k', (b.run es).session? s = some k' ∧ Session.Spared k' := by
  obtain ⟨first, r, rest, rfl, hproceed, hdeadline⟩ := hends
  simp only [List.mem_append, List.mem_cons, not_or] at hes
  obtain ⟨hfirst, -, hrest⟩ := hes
  have begun (j : Session) (hj : (∃ text, j.stage = .writing text) ∨ Session.Spared j) :
      j.stage ≠ .idle := by
    rcases hj with ⟨text, hj⟩ | hj
    · simp [hj]
    · exact hj.begun
  obtain ⟨k₁, hk₁, hwaits⟩ := session_keeps _ _ begun (fun _ _ _ _ _ t hm hj => t.waits hm hj)
    h hk (.inl ⟨text, hs⟩) fun m hm => ⟨fun hc => hfirst (hc ▸ hm),
      fun hc => hproceed (hc ▸ hm), fun hc => hdeadline (hc ▸ hm)⟩
  have h₁ := h.run first
  obtain ⟨k₂, hk₂, t⟩ := exists_turn h₁.sound hk₁ (.wrote r)
  rw [run_append, run]
  exact spared_run (h₁.step (.move s (.wrote r))) hk₂ (t.meets hwaits) hrest

theorem pending_run (hp : Session.Pending k) (hes : ¬EndsFirst s es) :
    ∃ k', (b.run es).session? s = some k' ∧ (Session.Pending k' ∨ Session.Doomed k') := by
  induction es generalizing b k with
  | nil => exact ⟨k, hk, .inl hp⟩
  | cons e es ih =>
    have c := step_change h.sound e s
    rw [hk] at c
    obtain ⟨j, hj, hstep⟩ := c.turns (h.session s k hk) hp.begun
    rcases hstep with ⟨rfl, hother⟩ | ⟨m, rfl, t⟩
    · exact ih (h.step e) hj hp fun hends => hes (hends.cons (hother _) (hother _))
    · rcases t.pending hp with ⟨r, rfl⟩ | ⟨hp', hproceed, hdeadline⟩ | hd
      · exact absurd ⟨[], r, es, rfl, List.not_mem_nil, List.not_mem_nil⟩ hes
      · exact ih (h.step _) hj hp' fun hends => hes (hends.cons (by simpa) (by simpa))
      · obtain ⟨k', hk', hd'⟩ := doomed_run (h.step (.move s m)) hj hd es
        exact ⟨k', hk', .inr hd'⟩

theorem over_of_cancelled (hc : Session.Pending k ∨ Session.Doomed k) :
    ∃ k', (b.run (.move s .proceed :: .move s .dropped :: windUp s)).session? s = some k' ∧
      k'.stage = .over .cancelled := by
  obtain ⟨k₁, hk₁, t₁⟩ := exists_turn h.sound hk .proceed
  obtain ⟨hdoomed, hretreats⟩ := t₁.retreats hc
  have h₁ := h.step (.move s .proceed)
  obtain ⟨k₂, hk₂, t₂⟩ := exists_turn h₁.sound hk₁ .dropped
  have h₂ := h₁.step (.move s .dropped)
  obtain ⟨k₃, how, hk₃, hover⟩ := over_of_windUp h₂ hk₂ (t₂.lets_go hretreats)
  obtain ⟨k₃', hk₃', hdoomed'⟩ := doomed_run h₂ hk₂ (t₂.doomed hdoomed) (windUp s)
  rw [hk₃] at hk₃'
  obtain rfl := Option.some.inj hk₃'
  exact ⟨k₃, hk₃, by rw [hover, hdoomed'.ending hover]⟩

end

theorem Change.calm (c : Change s e p k? p' k?') (h : ∀ k, k? = some k → Session.Calm k)
    (hk : k?' = some k') : Session.Calm k' := by
  cases c with
  | elsewhere | hub => exact h k' hk
  | join _ _ hsession =>
    obtain ⟨timeout, fault?, rfl⟩ := hsession k' hk
    exact fun hc => absurd hc Bool.false_ne_true
  | serve =>
    obtain rfl := Option.some.inj hk
    exact fun _ => .inl rfl
  | move t =>
    obtain rfl := Option.some.inj hk
    exact t.calm (h _ rfl)

theorem calm_run (hk : (empty.run es).session? s = some k) : Session.Calm k := by
  induction es using List.reverseRecOn generalizing k with
  | nil => simp [run, session?, empty] at hk
  | append_singleton es e ih =>
    have c := step_change (proper_empty.run es).sound e s
    rw [← run_concat, hk] at c
    exact c.calm (fun _ => ih) rfl

/-- A cancellation of the session `k` before the events `post` is lost: the
session has left of its own accord and waits for its reader, or it meets a
finished write. -/
inductive Loses (s : Nat) (post : List Event) (k : Session) : Prop
  | leaving : k.stage = .joining .returned → Loses s post k
  | written {r : Written} : k.stage = .wrote r → Loses s post k
  | writing {text : String} : k.stage = .writing text → EndsFirst s post → Loses s post k

theorem not_loses_of_writing {text : String} (hs : k.stage = .writing text)
    (hes : ∀ r, .move s (.wrote r) ∉ es) : ¬Loses s es k := by
  intro hl
  cases hl with
  | leaving hs' | written hs' => simp [hs] at hs'
  | writing _ hends =>
    obtain ⟨first, r, rest, rfl, -⟩ := hends
    exact hes r (List.mem_append_right _ List.mem_cons_self)

/-- What comes of cancelling the session `k` of the subscriber `s` after the
events `pre`, whatever happens then. -/
structure Answers (s : Nat) (pre post : List Event) (k : Session) : Prop where
  cancelled : ¬Loses s post k → ∀ k' how,
    (empty.run (pre ++ .move s .cancel :: post)).session? s = some k' →
    k'.stage = .over how → how = .cancelled
  ends : ¬Loses s post k → ∃ k',
    (empty.run (pre ++ .move s .cancel :: post ++
      .move s .proceed :: .move s .dropped :: windUp s)).session? s = some k' ∧
    k'.stage = .over .cancelled
  lost : Loses s post k → .move s .cancel ∉ post → ∀ k' how,
    (empty.run (pre ++ .move s .cancel :: post)).session? s = some k' →
    k'.stage = .over how → how = .returned
  cleans_up : ∀ k' how, (empty.run (pre ++ .move s .cancel :: post)).session? s = some k' →
    k'.stage = .over how →
    s ∉ (empty.run (pre ++ .move s .cancel :: post)).hub.live ∧
    (∃ buffer, (empty.run (pre ++ .move s .cancel :: post)).hub.buffer? s = some buffer ∧
      buffer.closed = true) ∧
    k'.reader = .ended ∧ k'.closes = 1

theorem spared_of_loses (hk : (empty.run pre).session? s = some k) (hl : Loses s post k)
    (hpost : .move s .cancel ∉ post) :
    ∃ k', (empty.run (pre ++ .move s .cancel :: post)).session? s = some k' ∧
      Session.Spared k' := by
  obtain ⟨k₁, hk₁, t⟩ := exists_turn (proper_empty.run pre).sound hk .cancel
  have h₁ := (proper_empty.run pre).step (.move s .cancel)
  have hcalm := calm_run hk
  rw [run_append, run]
  cases hl with
  | leaving hs =>
    have hunstruck : Session.Stage.isInterruptible k.stage = false := by rw [hs]; rfl
    rw [t.loses hunstruck] at hk₁
    exact spared_run h₁ hk₁ (.of_joining hs (hcalm.not_cancelling hunstruck (by simp [hs]))) hpost
  | written hs =>
    have hunstruck : Session.Stage.isInterruptible k.stage = false := by rw [hs]; rfl
    rw [t.loses hunstruck] at hk₁
    exact spared_run h₁ hk₁ (.of_wrote hs (hcalm.not_cancelling hunstruck (by simp [hs]))) hpost
  | writing hs hends =>
    exact spared_of_endsFirst h₁ hk₁ (t.stage_of_cancel.trans hs) hends hpost

theorem cancelled_of_not_loses (hk : (empty.run pre).session? s = some k)
    (hu : Session.Stage.isUnderway k.stage = true) (hl : ¬Loses s post k) :
    ∃ k', (empty.run (pre ++ .move s .cancel :: post)).session? s = some k' ∧
      (Session.Pending k' ∨ Session.Doomed k') := by
  obtain ⟨k₁, hk₁, t⟩ := exists_turn (proper_empty.run pre).sound hk .cancel
  have h₁ := (proper_empty.run pre).step (.move s .cancel)
  rw [run_append, run]
  rcases t.dooms hu (fun hs => hl (.leaving hs)) (fun r hs => hl (.written hs)) with hp | hd
  · -- a cancellation begins to wait only at the side of a writer
    have hfirst : ¬EndsFirst s post := by
      intro hends
      obtain ⟨⟨text, hs⟩, -⟩ := hp
      exact hl (.writing (t.stage_of_cancel.symm.trans hs) hends)
    exact pending_run h₁ hk₁ hp hfirst
  · obtain ⟨k', hk', hd'⟩ := doomed_run h₁ hk₁ hd post
    exact ⟨k', hk', .inr hd'⟩

/-- A session that has begun to serve and has not yet closed its connection
answers to a cancellation, but for those that are lost. -/
theorem session_answers (hk : (empty.run pre).session? s = some k)
    (hu : Session.Stage.isUnderway k.stage = true) (post : List Event) :
    Answers s pre post k := by
  refine ⟨fun hl k' how hk' hover => ?_, fun hl => ?_, fun hl hpost k' how hk' hover => ?_,
    fun k' how hk' hover => ?_⟩
  · obtain ⟨j, hj, hp | hd⟩ := cancelled_of_not_loses hk hu hl
    · obtain ⟨⟨text, hs⟩, -⟩ := hp
      rw [hk', Option.some.injEq] at hj
      simp [← hj, hover] at hs
    · rw [hk', Option.some.injEq] at hj
      exact hd.ending (hj ▸ hover)
  · obtain ⟨j, hj, hc⟩ := cancelled_of_not_loses hk hu hl
    rw [run_append]
    exact over_of_cancelled (proper_empty.run _) hj hc
  · obtain ⟨j, hj, hspared⟩ := spared_of_loses hk hl hpost
    rw [hk', Option.some.injEq] at hj
    exact hspared.ending (hj ▸ hover)
  · exact (proper_empty.run _).cleaned_up hk' hover

def textInFlight : List Event :=
  [.connect 2 Session.defaultTimeout (some "gone"), .serve 0,
    .hub (.broadcast ⟨"chore", "done", 7, []⟩), .move 0 .proceed]

def troubledEnd : List Event :=
  [.move 0 (.arrive (.gone "reset")), .hub .close, .move 0 .proceed, .move 0 .dropped,
    .move 0 .cancel, .move 0 .read, .move 0 .proceed, .move 0 .closed]

theorem write_cancelled : ∃ k k', (empty.run textInFlight).session? 0 = some k ∧
    Session.Stage.isUnderway k.stage = true ∧ ¬Loses 0 troubledEnd k ∧
    (empty.run (textInFlight ++ .move 0 .cancel :: troubledEnd)).session? 0 = some k' ∧
    k'.stage = .over .cancelled ∧ Answers 0 textInFlight troubledEnd k := by
  exact ⟨_, _, rfl, rfl, not_loses_of_writing rfl (by simp [troubledEnd]), rfl, rfl,
    session_answers rfl rfl _⟩

def waitingForReader : List Event :=
  [.connect 2 Session.defaultTimeout none, .serve 0, .hub .close, .move 0 .proceed]

/-- Cancelled at this point, before its connection is closed, the session
returns. -/
theorem cancellation_lost : ∃ k k', (empty.run waitingForReader).session? 0 = some k ∧
    Session.Stage.isUnderway k.stage = true ∧ k.closes = 0 ∧
    (empty.run (waitingForReader ++ .move 0 .cancel :: windUp 0)).session? 0 = some k' ∧
    k'.stage = .over .returned :=
  ⟨_, _, rfl, rfl, rfl, rfl, rfl⟩

/-- A cancellation that comes as the writer ends: the session serves on. -/
example : ((empty.run (textInFlight ++ [.move 0 .cancel, .move 0 (.wrote .sent),
    .move 0 .proceed])).session? 0).map (fun k => (k.stage, k.cancelling, k.sent.length)) =
      some (.receiving, false, 1) := rfl

end Switchboard

end Household.Realtime
