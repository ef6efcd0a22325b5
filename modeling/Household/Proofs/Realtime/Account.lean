import Household.Proofs.Realtime.Acceptance
import Household.Proofs.Realtime.Conduct

/-!
# The account of a session

The texts that a connection has taken, the text being written to it and the
texts in its buffer are, in this order, what the buffer has accepted. Every
event keeps this equation until the session leaves the hub; from then on
nothing more is accepted and nothing more is written.
-/

set_option autoImplicit false

namespace Household.Realtime

namespace Session

/-- A stage with the texts that have been read and are not yet written. -/
def Stage.Carries : Stage → List String → Prop
  | .idle, flight => flight = []
  | .receiving, flight => flight = []
  | .writing text, flight => flight = [text]
  | .wrote .sent, flight => flight = []
  | _, _ => True

/-- The session `k` and the buffer at its place account for all that has been
accepted. -/
def Accounts (p : Place) (k : Session) (acc : List String) : Prop :=
  ∃ b texts flight, p.buffer? = some b ∧ b.Holds texts ∧ Stage.Carries k.stage flight ∧
    k.sent ++ flight ++ texts = acc

structure Tracks (p : Place) (k : Session) (acc : List String) : Prop extends Proper p k where
  accounts : Accounts p k acc

theorem Accounts.sent_in_order {p : Place} {k : Session} {acc : List String} (h : Accounts p k acc) :
    k.sent <+: acc := by
  obtain ⟨b, texts, flight, -, -, -, hacc⟩ := h
  rw [← hacc, List.append_assoc]
  exact List.prefix_append _ _

/-! What a turn keeps -/

variable {p p' : Place} {k k' : Session} {m : Move} {acc : List String}

theorem Turn.steady (t : Turn p k m p' k') (h : p.Steady acc) : p'.Steady acc :=
  t.keeps (P := fun q => q.Steady acc) (fun _ => Place.Steady.read)
    (fun _ => Place.Steady.leave) h

theorem Turn.accounts (t : Turn p k m p' k') (h : Accounts p k acc) : Accounts p' k' acc := by
  obtain ⟨b, texts, flight, hb, hold, hc, hacc⟩ := h
  cases t with
  | take hstage _ hb' hr =>
    obtain rfl := Option.some.inj (hb.symm.trans hb')
    obtain ⟨rest, rfl, hold'⟩ := hold.read_text hr
    rw [hstage] at hc
    have hflight : flight = [] := hc
    exact ⟨_, rest, _, rfl, hold', rfl, by simpa [hflight] using hacc⟩
  | drained hstage _ hb' hr =>
    obtain rfl := Option.some.inj (hb.symm.trans hb')
    obtain ⟨rfl, hold'⟩ := hold.read_end hr
    obtain ⟨b'', hb'', hold''⟩ := Place.holds_leave (p := { p with buffer? := some _ }) rfl hold'
    exact ⟨b'', [], flight, hb'', hold'', trivial, hacc⟩
  | wrote r hstage =>
    rw [hstage] at hc
    have hflight : flight = [_] := hc
    cases r with
    | sent => exact ⟨b, texts, [], hb, hold, rfl, by simpa [hflight, Written.texts] using hacc⟩
    | _ => exact ⟨b, texts, flight, hb, hold, trivial, by simpa [Written.texts] using hacc⟩
  | goOn hstage =>
    rw [hstage] at hc
    exact ⟨b, texts, flight, hb, hold, hc, hacc⟩
  | late | struck => exact ⟨b, texts, flight, hb, hold, trivial, hacc⟩
  | cancelled | giveUp | dropped =>
    obtain ⟨b', hb', hold'⟩ := Place.holds_leave hb hold
    exact ⟨b', texts, flight, hb', hold', trivial, hacc⟩
  | peerGone =>
    obtain ⟨b', hb', hold'⟩ := Place.holds_leave hb hold
    exact ⟨b', texts, flight, hb', hold', hc, hacc⟩
  | hangUp | closed | abandoned => exact ⟨b, texts, flight, hb, hold, trivial, hacc⟩
  | _ => exact ⟨b, texts, flight, hb, hold, hc, hacc⟩

theorem Turn.tracks (t : Turn p k m p' k') (h : Tracks p k acc) : Tracks p' k' acc where
  toProper := t.proper h.toProper
  accounts := t.accounts h.accounts

/-- The stages of a session that writes nothing any more: it has left, or it
is about to, its last write having failed or been dropped. -/
def Stage.isStopped : Stage → Bool
  | .wrote r => r ≠ .sent
  | .dropping _ => true
  | stage => isLeft stage

def Stopped (k : Session) : Prop := Stage.isStopped k.stage = true

theorem Stopped.of_left (h : Stage.isLeft k.stage = true) : Stopped k := by
  unfold Stopped
  cases hs : k.stage <;> simp_all [Stage.isLeft, Stage.isStopped]

theorem Turn.stopped (t : Turn p k m p' k') (h : Stopped k) : k'.sent = k.sent ∧ Stopped k' := by
  unfold Stopped at h
  cases t with
  | take hs | drained hs | wrote _ hs | goOn hs | late hs | struck _ hs =>
    simp [hs, Stage.isStopped, Stage.isLeft] at h
  | cancelled | giveUp | dropped | hangUp | closed | abandoned => exact ⟨rfl, rfl⟩
  | _ => exact ⟨rfl, h⟩

def Move.fails : Move → Bool
  | .wrote r => r ≠ .sent
  | .deadline => true
  | _ => false

def Move.interrupts : Move → Bool
  | .cancel => true
  | m => m.fails

theorem Turn.stopped_of_fails {text : String} (t : Turn p k m p' k') (hm : m.fails = true)
    (hstage : k.stage = .writing text) : k'.sent = k.sent ∧ Stopped k' := by
  cases t with
  | rest hw =>
    cases m with
    | wrote | deadline => exact absurd hstage (hw text)
    | _ => simp [Move.fails] at hm
  | wrote r =>
    cases r with
    | sent => simp [Move.fails] at hm
    | _ => exact ⟨List.append_nil _, rfl⟩
  | late | struck => exact ⟨rfl, rfl⟩
  | _ => simp [Move.fails] at hm

structure Whole (k : Session) (acc : List String) : Prop where
  cancelling : k.cancelling = false
  unstopped : Stopped k → Stage.isLeft k.stage = true
  left : Stage.isLeft k.stage = true → k.sent = acc

theorem Whole.of_serving (hc : k.cancelling = false) (hs : Stage.isStopped k.stage = false) :
    Whole k acc where
  cancelling := hc
  unstopped h := by simp [Stopped, hs] at h
  left h := by
    have hstopped : Stage.isStopped k.stage = true := Stopped.of_left h
    simp [hs] at hstopped

theorem Turn.whole (t : Turn p k m p' k') (hm : m.interrupts = true → k' = k)
    (ha : Accounts p k acc) (h : Whole k acc) : Whole k' acc := by
  have interrupted (hi : m.interrupts = true) : Whole k' acc := by
    rw [hm hi]
    exact h
  -- what has been told to end or has failed has not been left alone
  have stopped (hs : Stage.isStopped k.stage = true) (hl : Stage.isLeft k.stage = false) :
      Whole k' acc := by simp [h.unstopped hs] at hl
  cases t with
  | rest => exact h
  | cancel => exact interrupted rfl
  | late => exact interrupted rfl
  | wrote r =>
    cases r with
    | sent => exact .of_serving rfl rfl
    | _ => exact interrupted rfl
  | take | goOn => exact .of_serving h.cancelling rfl
  | drained hstage _ hb hr =>
    obtain ⟨b, texts, flight, hb', hold, hc, hacc⟩ := ha
    obtain rfl := Option.some.inj (hb.symm.trans hb')
    obtain ⟨rfl, -⟩ := hold.read_end hr
    rw [hstage] at hc
    have hflight : flight = [] := hc
    exact ⟨rfl, fun _ => rfl, fun _ => by simpa [hflight, leaving] using hacc⟩
  | cancelled _ hc | struck _ _ hc | abandoned _ hc => simp [h.cancelling] at hc
  | giveUp hstage hr =>
    exact stopped (by simp [hstage, Stage.isStopped, hr]) (by simp [hstage, Stage.isLeft])
  | dropped hstage =>
    exact stopped (by simp [hstage, Stage.isStopped]) (by simp [hstage, Stage.isLeft])
  | hangUp hstage | closed hstage =>
    exact ⟨h.cancelling, fun _ => rfl, fun _ => h.left (by simp [hstage, Stage.isLeft])⟩
  | arrive | stopReader | discard | peerGone => exact ⟨h.cancelling, h.unstopped, h.left⟩

end Session

namespace Switchboard

variable {s : Nat} {e : Event} {p p' : Place} {k k' : Session} {k? k?' : Option Session}
  {acc : List String}

theorem Change.steady (c : Change s e p k? p' k?') (h : p.Steady acc) :
    p'.Steady (acc ++ p.accepts e) := by
  cases c with
  | elsewhere he =>
    rw [Place.accepts_of_not_hub p he, List.append_nil]
    exact h
  | hub op => exact h.step s op
  | join he =>
    rw [Place.accepts_of_not_hub _ he, List.append_nil]
    exact ⟨fun hb => by simp at hb, fun hl => by simp at hl, fun _ _ => h.absent rfl⟩
  | serve hl ho =>
    rw [Place.accepts_of_not_live hl, List.append_nil]
    exact ⟨h.absent, fun _ => ho, fun hl' => by simp at hl'⟩
  | move t =>
    rw [Place.accepts_of_not_hub p (by simp), List.append_nil]
    exact t.steady h

theorem Change.registers (c : Change s e p k? p' k?') (h : p.Steady acc) (hl : p.live = false)
    (hl' : p'.live = true) : acc = [] := by
  cases c with
  | elsewhere => simp [hl] at hl'
  | hub op => exact h.unjoined hl (Place.isOpen_of_joining hl hl')
  | join => exact h.absent rfl
  | serve _ ho => exact h.unjoined hl ho
  | move t =>
    have hkeeps : p'.live = false :=
      t.keeps (P := fun q => q.live = false) (fun _ hq => hq) (fun q _ => Place.live_leave q) hl
    simp [hkeeps] at hl'

theorem Change.accepts_of_leaving (c : Change s e p k? p' k?') (hl : p.live = true)
    (hl' : p'.live = false) : p.accepts e = [] := by
  cases c with
  | hub op => exact Place.accepts_of_leaving hl hl'
  | elsewhere he | join he => exact Place.accepts_of_not_hub _ he
  | serve | move => exact Place.accepts_of_not_hub p (by simp)

theorem tracks_started (h : Session.Tracks p k acc) (hl : p.live = false) (ho : p.isOpen = true) :
    Session.Tracks { p with live := true } k.started acc where
  toProper := h.toProper.started hl ho
  accounts := by
    obtain ⟨b, texts, flight, hb, hold, hc, hacc⟩ := h.accounts
    rw [h.idle_of_unjoined hl ho] at hc
    exact ⟨b, texts, flight, hb, hold, hc, hacc⟩

theorem Change.tracks (c : Change s e p k? p' k?') (he : e ≠ .hub (.read s)) (hp : p.Steady acc)
    (h : ∀ k, k? = some k → Session.Tracks p k acc) (hk : k?' = some k') :
    Session.Tracks p' k' (acc ++ p.accepts e) := by
  have hproper := c.proper (fun k hk => (h k hk).toProper) hk
  cases c with
  | elsewhere hop =>
    rw [Place.accepts_of_not_hub p hop, List.append_nil]
    exact h k' hk
  | hub op =>
    obtain ⟨b, texts, flight, hb, hold, hc, hacc⟩ := (h k' hk).accounts
    have hop : op ≠ .read s := fun hop => he (by rw [hop])
    obtain ⟨b', hb', hold'⟩ := Place.holds_step hb hold s hop
    exact { hproper with accounts := ⟨b', _, flight, hb', hold', hc, by simp [← hacc]⟩ }
  | join hop hnew hsession =>
    obtain ⟨timeout, fault?, rfl⟩ := hsession k' hk
    obtain ⟨hold, -⟩ := Buffer.holds_new hnew
    rw [Place.accepts_of_not_hub _ hop, List.append_nil, hp.absent rfl]
    exact { hproper with accounts := ⟨_, [], [], rfl, hold, rfl, rfl⟩ }
  | serve hl ho =>
    rw [Place.accepts_of_not_live hl, List.append_nil, ← Option.some.inj hk]
    exact tracks_started (h _ rfl) hl ho
  | move t =>
    rw [Place.accepts_of_not_hub p (by simp), List.append_nil, ← Option.some.inj hk]
    exact t.tracks (h _ rfl)

theorem Change.stopped (c : Change s e p (some k) p' k?') (h : Session.Tracks p k acc)
    (hs : Session.Stopped k) :
    ∃ k', k?' = some k' ∧ k'.sent = k.sent ∧ Session.Stopped k' := by
  cases c with
  | elsewhere | hub => exact ⟨k, rfl, rfl, hs⟩
  | serve hl ho =>
    have hidle := h.idle_of_unjoined hl ho
    simp [Session.Stopped, hidle, Session.Stage.isStopped, Session.Stage.isLeft] at hs
  | move t =>
    obtain ⟨hsent, hs'⟩ := t.stopped hs
    exact ⟨_, rfl, hsent, hs'⟩

theorem Change.stopped_of_fails {m : Session.Move} {text : String}
    (c : Change s (.move s m) p (some k) p' k?') (hm : m.fails = true)
    (hstage : k.stage = .writing text) :
    ∃ k', k?' = some k' ∧ k'.sent = k.sent ∧ Session.Stopped k' := by
  obtain ⟨k', hk', t⟩ := c.exists_turn
  obtain ⟨hsent, hs⟩ := t.stopped_of_fails hm hstage
  exact ⟨k', hk', hsent, hs⟩

theorem Change.whole (c : Change s e p k? p' k?')
    (hu : ∀ m, e = .move s m → m.interrupts = true → k?' = k?)
    (ht : ∀ k, k? = some k → Session.Tracks p k acc)
    (h : ∀ k, k? = some k → Session.Whole k acc) (hk : k?' = some k') :
    Session.Whole k' (acc ++ p.accepts e) := by
  cases c with
  | elsewhere hop =>
    rw [Place.accepts_of_not_hub p hop, List.append_nil]
    exact h k' hk
  | hub op =>
    have hwhole := h k' hk
    refine ⟨hwhole.cancelling, hwhole.unstopped, fun hl => ?_⟩
    rw [Place.accepts_of_not_live ((ht k' hk).left hl).live, List.append_nil]
    exact hwhole.left hl
  | join _ _ hsession =>
    obtain ⟨timeout, fault?, rfl⟩ := hsession k' hk
    exact .of_serving rfl rfl
  | serve =>
    rw [← Option.some.inj hk]
    exact .of_serving (h _ rfl).cancelling rfl
  | move t =>
    rw [Place.accepts_of_not_hub p (by simp), List.append_nil, ← Option.some.inj hk]
    exact t.whole (fun hm => Option.some.inj (hu _ rfl hm)) (ht _ rfl).accounts (h _ rfl)

end Switchboard

end Household.Realtime
