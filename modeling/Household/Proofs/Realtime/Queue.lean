import Household.Proofs.Realtime.Turn

/-!
# What a buffer holds

A buffer holds the texts that were accepted and not read yet, in order, and
behind them a marker exactly when it is closed. A subscriber that has left
has a closed buffer and is out of everybody's reach.
-/

set_option autoImplicit false

namespace Household.Realtime

namespace Buffer

def Holds (b : Buffer) (texts : List String) : Prop :=
  b.queue = texts.map .text ++ if b.closed then [.marker] else []

theorem holds_new {size : Int} {b : Buffer} (h : new? size = some b) :
    b.Holds [] ∧ b.closed = false := by
  unfold new? at h
  split at h
  · simp at h
  · rw [Option.some.injEq] at h
    rw [← h]
    exact ⟨rfl, rfl⟩

theorem closed_offer (b : Buffer) (text : String) : (b.offer text).2.closed = b.closed := by
  unfold offer
  split <;> rfl

theorem Holds.offer {b : Buffer} {texts : List String} (h : b.Holds texts) (text : String) :
    (b.offer text).2.Holds (texts ++ if (b.offer text).1 then [text] else []) := by
  unfold Buffer.offer
  by_cases hr : b.closed = true ∨ b.size ≤ b.pending
  · simpa [hr] using h
  · rw [not_or, Bool.not_eq_true] at hr
    unfold Holds at h ⊢
    simp only [hr.1, hr.2, Bool.false_eq_true, if_false, List.append_nil, Bool.false_or,
      decide_false] at h ⊢
    simp [h]

theorem closed_close (b : Buffer) : b.close.2.closed = true := by
  unfold close
  split
  · assumption
  · rfl

theorem Holds.close {b : Buffer} {texts : List String} (h : b.Holds texts) :
    b.close.2.Holds texts := by
  unfold Buffer.close
  by_cases hc : b.closed = true
  · rwa [if_pos hc]
  · unfold Holds at h ⊢
    simp only [hc, Bool.false_eq_true, if_false, if_true, List.append_nil] at h ⊢
    rw [h]

theorem closed_read? {b b' : Buffer} {r : Option String} (h : b.read? = some (r, b')) :
    b'.closed = b.closed := by
  unfold read? at h
  split at h
  · simp at h
  · simp only [Option.some.injEq, Prod.mk.injEq] at h
    rw [← h.2]
  · simp only [Option.some.injEq, Prod.mk.injEq] at h
    rw [← h.2]

theorem closed_step_read (b : Buffer) : (b.step .read).closed = b.closed := by
  unfold step
  cases hr : b.read? with
  | none => simp
  | some r => exact closed_read? hr

theorem Holds.read_text {b b' : Buffer} {texts : List String} {text : String} (h : b.Holds texts)
    (hr : b.read? = some (some text, b')) : ∃ rest, texts = text :: rest ∧ b'.Holds rest := by
  unfold Holds at h
  unfold read? at hr
  cases texts with
  | nil => cases hc : b.closed <;> simp [h, hc] at hr
  | cons t rest =>
    simp only [h, List.map_cons, List.cons_append, Option.some.injEq, Prod.mk.injEq] at hr
    obtain ⟨rfl, rfl⟩ := hr
    exact ⟨rest, rfl, rfl⟩

theorem Holds.read_end {b b' : Buffer} {texts : List String} (h : b.Holds texts)
    (hr : b.read? = some (none, b')) : texts = [] ∧ b'.Holds [] := by
  unfold Holds at h
  unfold read? at hr
  cases texts with
  | nil =>
    cases hc : b.closed with
    | false => simp [h, hc] at hr
    | true =>
      simp only [h, hc, List.map_nil, List.nil_append, if_true, Option.some.injEq,
        Prod.mk.injEq, true_and] at hr
      exact ⟨rfl, by rw [← hr]; simp [Holds]⟩
  | cons t rest => simp [h] at hr

end Buffer

namespace Place

theorem isOpen_offer (p : Place) (text : String) : (p.offer text).isOpen = p.isOpen := by
  unfold offer isOpen
  split
  · cases p.buffer? <;> simp [Buffer.closed_offer]
  · rfl

theorem isOpen_read (p : Place) : p.read.isOpen = p.isOpen := by
  unfold read isOpen
  cases p.buffer? <;> simp [Buffer.closed_step_read]

theorem isOpen_leave (p : Place) : p.leave.isOpen = (!p.live && p.isOpen) := by
  unfold leave isOpen
  cases p.live
  · simp
  · cases p.buffer? <;> simp [Buffer.closed_close]

theorem live_leave (p : Place) : p.leave.live = false := by
  unfold leave
  split
  · rfl
  · rename_i h
    exact eq_false_of_ne_true h

theorem live_offer (p : Place) (text : String) : (p.offer text).live = p.live := by
  unfold offer
  split <;> rfl

theorem absent_of_offer {p : Place} {text : String} (h : (p.offer text).buffer? = none) :
    p.buffer? = none := by
  unfold offer at h
  by_cases hl : p.live = true
  · rw [if_pos hl] at h
    exact Option.map_eq_none_iff.mp h
  · rwa [if_neg hl] at h

theorem absent_of_leave {p : Place} (h : p.leave.buffer? = none) : p.buffer? = none := by
  unfold leave at h
  by_cases hl : p.live = true
  · rw [if_pos hl] at h
    exact Option.map_eq_none_iff.mp h
  · rwa [if_neg hl] at h

structure Settled (p : Place) : Prop where
  joined : p.buffer? ≠ none
  kept : p.live = true ∨ p.isOpen = false

/-- Out of reach for good: with a closed buffer, and not live. -/
structure Gone (p : Place) : Prop where
  joined : p.buffer? ≠ none
  live : p.live = false
  shut : p.isOpen = false

theorem Settled.gone {p : Place} (h : p.Settled) (hl : p.live = false) : p.Gone :=
  ⟨h.joined, hl, h.kept.resolve_left (by simp [hl])⟩

theorem Settled.gone_leave {p : Place} (h : p.Settled) : p.leave.Gone := by
  refine ⟨mt absent_of_leave h.joined, live_leave p, ?_⟩
  rw [isOpen_leave]
  rcases h.kept with h | h <;> simp [h]

theorem Settled.leave {p : Place} (h : p.Settled) : p.leave.Settled :=
  ⟨h.gone_leave.joined, .inr h.gone_leave.shut⟩

theorem Settled.read {p : Place} (h : p.Settled) : p.read.Settled where
  joined := mt Option.map_eq_none_iff.mp h.joined
  kept := by
    rw [isOpen_read]
    exact h.kept

theorem Settled.register {p : Place} (h : p.Settled) : p.register.Settled := by
  unfold Place.register
  split
  · exact ⟨h.joined, .inl rfl⟩
  · exact h

theorem Settled.offer {p : Place} (h : p.Settled) (text : String) : (p.offer text).Settled where
  joined := mt absent_of_offer h.joined
  kept := by
    rw [live_offer, isOpen_offer]
    exact h.kept

theorem Settled.step {p : Place} (h : p.Settled) (s : Nat) (op : Hub.Op) :
    (p.step s op).Settled := by
  cases op with
  | register t =>
    simp only [Place.step]
    split
    · exact h.register
    · exact h
  | unregister t =>
    simp only [Place.step]
    split
    · exact h.leave
    · exact h
  | broadcast c =>
    simp only [Place.step]
    split
    · exact h.offer _
    · exact h
  | close => exact h.leave
  | read t =>
    simp only [Place.step]
    split
    · exact h.read
    · exact h

theorem Gone.settled {p : Place} (h : p.Gone) : p.Settled := ⟨h.joined, .inr h.shut⟩

theorem Gone.leave {p : Place} (h : p.Gone) : p.leave.Gone := h.settled.gone_leave

theorem Gone.read {p : Place} (h : p.Gone) : p.read.Gone := h.settled.read.gone h.live

theorem Gone.step {p : Place} (h : p.Gone) (s : Nat) (op : Hub.Op) : (p.step s op).Gone := by
  apply (h.settled.step s op).gone
  cases op with
  | register t =>
    have hregister : p.register = p := by simp [Place.register, h.shut]
    simpa [Place.step, hregister] using h.live
  | unregister t =>
    simp only [Place.step]
    split
    · exact live_leave p
    · exact h.live
  | broadcast c =>
    simp only [Place.step]
    split
    · rw [live_offer, h.live]
    · exact h.live
  | close => exact live_leave p
  | read t =>
    simp only [Place.step]
    split <;> exact h.live

end Place

end Household.Realtime
