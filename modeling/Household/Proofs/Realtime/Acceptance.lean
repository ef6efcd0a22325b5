import Household.Proofs.Realtime.Queue

/-!
# What a buffer accepts

A buffer accepts a broadcast when its subscriber is live and there is room.
Nothing is accepted before the subscriber is live, nothing after it has left,
and what is accepted stands at the end of the buffer.
-/

set_option autoImplicit false

namespace Household.Realtime

namespace Switchboard

def accepts (b : Switchboard) (s : Nat) : Event → List String
  | .hub (.broadcast c) =>
    match c.wireText?, b.hub.buffer? s with
    | some text, some buffer => if s ∈ b.hub.live ∧ (buffer.offer text).1 then [text] else []
    | _, _ => []
  | _ => []

def accepted (s : Nat) : Switchboard → List Event → List String
  | _, [] => []
  | b, e::es => b.accepts s e ++ accepted s (b.step e) es

theorem accepted_append (s : Nat) (b : Switchboard) (es rest : List Event) :
    accepted s b (es ++ rest) = accepted s b es ++ accepted s (b.run es) rest := by
  induction es generalizing b with
  | nil => rfl
  | cons e es ih => simp [accepted, run, ih]

end Switchboard

namespace Place

def accepts (p : Place) : Switchboard.Event → List String
  | .hub (.broadcast c) =>
    match c.wireText?, p.buffer? with
    | some text, some buffer => if p.live ∧ (buffer.offer text).1 then [text] else []
    | _, _ => []
  | _ => []

theorem accepts_place (b : Switchboard) (s : Nat) (e : Switchboard.Event) :
    (b.hub.place s).accepts e = b.accepts s e := by
  unfold accepts Switchboard.accepts Hub.place
  split <;> simp

theorem accepts_of_not_live {p : Place} (h : p.live = false) (e : Switchboard.Event) :
    p.accepts e = [] := by
  unfold accepts
  split
  · split <;> simp [h]
  · rfl

theorem accepts_of_not_hub (p : Place) {e : Switchboard.Event} (h : ∀ op, e ≠ .hub op) :
    p.accepts e = [] := by
  unfold accepts
  split
  · exact absurd rfl (h _)
  · rfl

theorem accepts_eq_nil {p : Place} {op : Hub.Op} (h : ∀ c, op ≠ .broadcast c) :
    p.accepts (.hub op) = [] := by
  cases op with
  | broadcast c => exact absurd rfl (h c)
  | _ => rfl

theorem holds_leave {p : Place} {b : Buffer} {texts : List String} (hb : p.buffer? = some b)
    (h : b.Holds texts) : ∃ b', p.leave.buffer? = some b' ∧ b'.Holds texts := by
  unfold leave
  split
  · exact ⟨b.close.2, by rw [hb]; rfl, h.close⟩
  · exact ⟨b, hb, h⟩

theorem holds_step {p : Place} {b : Buffer} {texts : List String} (hb : p.buffer? = some b)
    (h : b.Holds texts) (s : Nat) {op : Hub.Op} (hop : op ≠ .read s) :
    ∃ b', (p.step s op).buffer? = some b' ∧ b'.Holds (texts ++ p.accepts (.hub op)) := by
  cases op with
  | register t =>
    rw [accepts_eq_nil (by simp), List.append_nil]
    simp only [step, register]
    split
    · split <;> exact ⟨b, hb, h⟩
    · exact ⟨b, hb, h⟩
  | unregister t =>
    rw [accepts_eq_nil (by simp), List.append_nil]
    simp only [step]
    split
    · exact holds_leave hb h
    · exact ⟨b, hb, h⟩
  | broadcast c =>
    cases hc : c.wireText? with
    | none =>
      refine ⟨b, by simp [step, hc, hb], ?_⟩
      simpa [accepts, hc] using h
    | some text =>
      cases hl : p.live with
      | false =>
        rw [accepts_of_not_live hl, List.append_nil]
        exact ⟨b, by simp [step, hc, offer, hl, hb], h⟩
      | true =>
        refine ⟨(b.offer text).2, by simp [step, hc, offer, hl, hb], ?_⟩
        simpa [accepts, hc, hb, hl] using h.offer text
  | close =>
    rw [accepts_eq_nil (by simp), List.append_nil]
    exact holds_leave hb h
  | read t =>
    rw [accepts_eq_nil (by simp), List.append_nil]
    have hne : t ≠ s := fun e => hop (by rw [e])
    exact ⟨b, by simp [step, hne, hb], h⟩

structure Steady (p : Place) (acc : List String) : Prop where
  absent : p.buffer? = none → acc = []
  open_of_live : p.live = true → p.isOpen = true
  unjoined : p.live = false → p.isOpen = true → acc = []

theorem Steady.leave {p : Place} {acc : List String} (h : p.Steady acc) : p.leave.Steady acc where
  absent hb := h.absent (absent_of_leave hb)
  open_of_live hl := by simp [live_leave] at hl
  unjoined _ ho := by
    rw [isOpen_leave, Bool.and_eq_true, Bool.not_eq_true'] at ho
    exact h.unjoined ho.1 ho.2

theorem Steady.read {p : Place} {acc : List String} (h : p.Steady acc) : p.read.Steady acc where
  absent hb := h.absent (Option.map_eq_none_iff.mp hb)
  open_of_live hl := by
    rw [isOpen_read]
    exact h.open_of_live hl
  unjoined hl ho := by
    rw [isOpen_read] at ho
    exact h.unjoined hl ho

theorem Steady.step {p : Place} {acc : List String} (h : p.Steady acc) (s : Nat) (op : Hub.Op) :
    (p.step s op).Steady (acc ++ p.accepts (.hub op)) := by
  cases op with
  | register t =>
    rw [accepts_eq_nil (by simp), List.append_nil]
    simp only [Place.step, register]
    split
    · split
      · rename_i ho
        exact ⟨h.absent, fun _ => ho, by simp⟩
      · exact h
    · exact h
  | unregister t =>
    rw [accepts_eq_nil (by simp), List.append_nil]
    simp only [Place.step]
    split
    · exact h.leave
    · exact h
  | broadcast c =>
    simp only [Place.step]
    cases hc : c.wireText? with
    | none => simpa [accepts, hc] using h
    | some text =>
      refine ⟨fun hb => ?_, fun hl => ?_, fun hl ho => ?_⟩
      · have hb' := absent_of_offer hb
        simp [accepts, hc, hb', h.absent hb']
      · rw [isOpen_offer]
        rw [live_offer] at hl
        exact h.open_of_live hl
      · rw [live_offer] at hl
        rw [isOpen_offer] at ho
        rw [accepts_of_not_live hl, List.append_nil]
        exact h.unjoined hl ho
  | close =>
    rw [accepts_eq_nil (by simp), List.append_nil]
    exact h.leave
  | read t =>
    rw [accepts_eq_nil (by simp), List.append_nil]
    simp only [Place.step]
    split
    · exact h.read
    · exact h

theorem Steady.settled {p : Place} {acc : List String} (h : p.Steady acc) (hl : p.live = true) :
    p.Settled where
  joined hb := by simpa [isOpen, hb] using h.open_of_live hl
  kept := .inl hl

theorem accepts_of_leaving {p : Place} {s : Nat} {op : Hub.Op} (hl : p.live = true)
    (hl' : (p.step s op).live = false) : p.accepts (.hub op) = [] := by
  apply accepts_eq_nil
  rintro c rfl
  simp only [Place.step] at hl'
  split at hl'
  · rw [live_offer, hl] at hl'
    simp at hl'
  · rw [hl] at hl'
    simp at hl'

theorem isOpen_of_joining {p : Place} {s : Nat} {op : Hub.Op} (hl : p.live = false)
    (hl' : (p.step s op).live = true) : p.isOpen = true := by
  have stays {q : Place} (hq : q.live = p.live) (hq' : q.live = true) : p.isOpen = true := by
    rw [hq, hl] at hq'
    simp at hq'
  cases op with
  | register t =>
    simp only [Place.step, register] at hl'
    split at hl'
    · split at hl'
      · assumption
      · exact stays rfl hl'
    · exact stays rfl hl'
  | unregister t =>
    simp only [Place.step] at hl'
    split at hl'
    · simp [live_leave] at hl'
    · exact stays rfl hl'
  | broadcast c =>
    simp only [Place.step] at hl'
    split at hl'
    · exact stays (live_offer p _) hl'
    · exact stays rfl hl'
  | close => simp [Place.step, live_leave] at hl'
  | read t =>
    simp only [Place.step] at hl'
    split at hl' <;> exact stays rfl hl'

end Place

end Household.Realtime
