import Household.Proofs.Realtime.Queue
import Mathlib.Data.List.Induction

/-!
# The life of a subscriber

A subscriber is live from its registration until it is unregistered or the
hub is closed. Leaving closes its buffer, once and for good, so that it is
never live again. What a buffer holds stays within the size it was made with.
-/

set_option autoImplicit false

namespace Household.Realtime

/-! What a buffer holds -/

def Item.text? : Item → Option String
  | text s => some s
  | marker => none

namespace Buffer

def texts (b : Buffer) : List String := b.queue.filterMap Item.text?

def markers (b : Buffer) : Nat := b.queue.count .marker

theorem Holds.texts_eq {b : Buffer} {ts : List String} (h : b.Holds ts) : b.texts = ts := by
  have htexts : (ts.map Item.text).filterMap Item.text? = ts := by
    simp [List.filterMap_map, Function.comp_def, Item.text?]
  unfold Holds at h
  rw [texts, h, List.filterMap_append, htexts]
  split <;> simp [Item.text?]

theorem Holds.markers_eq {b : Buffer} {ts : List String} (h : b.Holds ts) :
    b.markers = if b.closed then 1 else 0 := by
  have htexts : (ts.map Item.text).count .marker = 0 := by simp [List.count_eq_zero]
  unfold Holds at h
  rw [markers, h, List.count_append, htexts]
  split <;> simp

/-- A buffer made for `size` texts that counts what it holds. -/
structure Counted (b : Buffer) (size : Nat) : Prop where
  size_eq : b.size = size
  holds : b.Holds b.texts
  pending : b.pending = b.texts.length
  le_size : b.pending ≤ size

theorem counted_of_holds {b : Buffer} {size : Nat} {ts : List String} (hsize : b.size = size)
    (hts : b.Holds ts) (hpending : b.pending = ts.length) (hle : b.pending ≤ size) :
    b.Counted size := by
  have htexts := hts.texts_eq
  exact ⟨hsize, htexts.symm ▸ hts, htexts.symm ▸ hpending, hle⟩

theorem counted_new {size : Int} {b : Buffer} (h : new? size = some b) : b.Counted b.size := by
  have hholds := (holds_new h).1
  unfold new? at h
  split at h
  · simp at h
  · rw [Option.some.injEq] at h
    subst h
    exact counted_of_holds rfl hholds rfl (Nat.zero_le _)

theorem Counted.offer {b : Buffer} {size : Nat} (h : b.Counted size) (text : String) :
    (b.offer text).2.Counted size := by
  have hholds := h.holds.offer text
  have hpending := h.pending
  by_cases hr : (b.closed || b.size ≤ b.pending) = true
  · have hoffer : b.offer text = (false, b) := if_pos hr
    rw [hoffer]
    exact h
  · have hroom : b.pending < size := by
      rw [← h.size_eq]
      simp only [Bool.or_eq_true, decide_eq_true_eq, not_or] at hr
      omega
    have hoffer : b.offer text =
        (true, { b with queue := b.queue ++ [.text text], pending := b.pending + 1 }) := if_neg hr
    rw [hoffer] at hholds ⊢
    refine counted_of_holds h.size_eq hholds ?_ hroom
    simp [hpending]

theorem Counted.close {b : Buffer} {size : Nat} (h : b.Counted size) :
    b.close.2.Counted size := by
  have hholds := h.holds.close
  unfold Buffer.close at hholds ⊢
  by_cases hc : b.closed = true
  · rwa [if_pos hc]
  · rw [if_neg hc] at hholds ⊢
    exact counted_of_holds h.size_eq hholds h.pending h.le_size

theorem Counted.read {b : Buffer} {size : Nat} (h : b.Counted size) :
    (b.step .read).Counted size := by
  have hpending := h.pending
  have hle := h.le_size
  simp only [step]
  cases hr : b.read? with
  | none => exact h
  | some r =>
    obtain ⟨text?, b'⟩ := r
    cases text? with
    | none =>
      obtain ⟨hnil, hholds⟩ := h.holds.read_end hr
      have hrest : b'.size = b.size ∧ b'.pending = b.pending := by
        unfold read? at hr
        split at hr <;> simp at hr
        simp [← hr]
      rw [hnil] at hpending
      exact counted_of_holds (hrest.1.trans h.size_eq) hholds (hrest.2.trans hpending)
        (hrest.2 ▸ hle)
    | some text =>
      obtain ⟨rest, htexts, hholds⟩ := h.holds.read_text hr
      have hrest : b'.size = b.size ∧ b'.pending = b.pending - 1 := by
        unfold read? at hr
        split at hr <;> simp at hr
        simp [← hr.2]
      rw [htexts, List.length_cons] at hpending
      refine counted_of_holds (hrest.1.trans h.size_eq) hholds ?_ ?_
      · rw [hrest.2, hpending, Nat.add_sub_cancel]
      · exact Nat.le_trans (Nat.le_of_eq hrest.2) (Nat.le_trans (Nat.sub_le _ _) hle)

end Buffer

/-! Steps at one place -/

namespace Hub

def Op.dismisses (s : Nat) : Op → Bool
  | unregister t => t == s
  | close => true
  | _ => false

end Hub

namespace Place

theorem live_step (p : Place) (s : Nat) (op : Hub.Op) :
    (p.step s op).live = true ↔
      op = .register s ∧ p.isOpen = true ∨ p.live = true ∧ op.dismisses s = false := by
  cases op with
  | register t =>
    by_cases ht : t = s
    · by_cases ho : p.isOpen = true <;> simp [step, register, Hub.Op.dismisses, ht, ho]
    · simp [step, Hub.Op.dismisses, ht]
  | unregister t =>
    by_cases ht : t = s <;> simp [step, Hub.Op.dismisses, ht, live_leave]
  | broadcast c =>
    simp only [step]
    split <;> simp [Hub.Op.dismisses, live_offer]
  | close => simp [step, Hub.Op.dismisses, live_leave]
  | read t =>
    by_cases ht : t = s <;> simp [step, Hub.Op.dismisses, ht, read]

theorem isOpen_step (p : Place) (s : Nat) (op : Hub.Op) :
    (p.step s op).isOpen = (p.isOpen && !(p.live && op.dismisses s)) := by
  cases op with
  | register t =>
    have hregister : p.register.isOpen = p.isOpen := by
      unfold register
      split <;> rfl
    by_cases ht : t = s <;> simp [step, Hub.Op.dismisses, ht, hregister]
  | unregister t =>
    by_cases ht : t = s
    · simp [step, Hub.Op.dismisses, ht, isOpen_leave, Bool.and_comm]
    · simp [step, Hub.Op.dismisses, ht]
  | broadcast c =>
    simp only [step]
    split <;> simp [Hub.Op.dismisses, isOpen_offer]
  | close => simp [step, Hub.Op.dismisses, isOpen_leave, Bool.and_comm]
  | read t =>
    by_cases ht : t = s <;> simp [step, Hub.Op.dismisses, ht, isOpen_read]

/-- The place of a subscriber whose buffer was made for `size` texts. -/
def Counted (p : Place) (size : Nat) : Prop := ∃ b, p.buffer? = some b ∧ b.Counted size

theorem Counted.leave {p : Place} {size : Nat} (h : p.Counted size) : p.leave.Counted size := by
  obtain ⟨b, hb, hcounted⟩ := h
  unfold Place.leave
  split
  · exact ⟨b.close.2, by rw [hb]; rfl, hcounted.close⟩
  · exact ⟨b, hb, hcounted⟩

theorem Counted.step {p : Place} {size : Nat} (h : p.Counted size) (s : Nat) (op : Hub.Op) :
    (p.step s op).Counted size := by
  have ⟨b, hb, hcounted⟩ := h
  cases op with
  | register t =>
    simp only [Place.step, register]
    split
    · split <;> exact h
    · exact h
  | unregister t =>
    simp only [Place.step]
    split
    · exact h.leave
    · exact h
  | broadcast c =>
    simp only [Place.step]
    split
    · rename_i text _
      unfold offer
      split
      · exact ⟨(b.offer text).2, by rw [hb]; rfl, hcounted.offer text⟩
      · exact h
    · exact h
  | close => exact h.leave
  | read t =>
    simp only [Place.step]
    split
    · exact ⟨b.step .read, by rw [read, hb]; rfl, hcounted.read⟩
    · exact h

end Place

/-! Runs -/

namespace Hub

def ofSizes (sizes : List Int) : Hub := ⟨sizes.filterMap Buffer.new?, []⟩

/-- In the course of some operations `s` was registered, and it was neither
unregistered nor the hub closed since. -/
def Enrolled (h : Hub) (s : Nat) (ops : List Op) : Prop :=
  ∃ before after, ops = before ++ .register s :: after ∧
    (∃ r, (h.run before).register s = .ok r) ∧ ∀ op ∈ after, op.dismisses s = false

/-- In the course of some operations `s` was live and then unregistered, or
the hub closed. -/
def Removed (h : Hub) (s : Nat) (ops : List Op) : Prop :=
  ∃ before op after, ops = before ++ op :: after ∧ s ∈ (h.run before).live ∧
    op.dismisses s = true

def closings (s : Nat) : Hub → List Op → Nat
  | _, [] => 0
  | h, op::ops =>
    (if (h.place s).isOpen && !((h.step op).place s).isOpen then 1 else 0) +
      closings s (h.step op) ops

theorem closings_append (s : Nat) (h : Hub) (ops rest : List Op) :
    closings s h (ops ++ rest) = closings s h ops + closings s (h.run ops) rest := by
  induction ops generalizing h with
  | nil => simp [closings, run]
  | cons op ops ih => simp [closings, run, ih, Nat.add_assoc]

theorem run_concat (h : Hub) (ops : List Op) (op : Op) :
    h.run (ops ++ [op]) = (h.run ops).step op := by
  rw [run_append]
  rfl

theorem Sound.run {h : Hub} (hh : h.Sound) (ops : List Op) : (h.run ops).Sound := by
  induction ops generalizing h with
  | nil => exact hh
  | cons op ops ih => exact ih (hh.step op)

theorem length_run (h : Hub) (ops : List Op) : (h.run ops).buffers.length = h.buffers.length := by
  induction ops generalizing h with
  | nil => rfl
  | cons op ops ih => exact (ih _).trans (length_step h op)

theorem live_place (h : Hub) (s : Nat) : (h.place s).live = true ↔ s ∈ h.live := by
  simp [place]

theorem register_ok_iff (h : Hub) (s : Nat) :
    (∃ r, h.register s = .ok r) ↔ s ∉ h.live ∧ (h.place s).isOpen = true := by
  constructor
  · rintro ⟨⟨h', ns⟩, hr⟩
    obtain ⟨-, hs, b, hb, hc⟩ := register_ok hr
    exact ⟨hs, by simp [Place.isOpen, place, hb, hc]⟩
  · rintro ⟨hs, ho⟩
    cases hr : h.register s with
    | ok r => exact ⟨r, rfl⟩
    | error e =>
      rcases register_error hr with hlive | hclosed
      · exact absurd hlive hs
      · simp [ho] at hclosed

theorem enrolled_concat (h : Hub) (s : Nat) (ops : List Op) (op : Op) :
    h.Enrolled s (ops ++ [op]) ↔
      (op = .register s ∧ ∃ r, (h.run ops).register s = .ok r) ∨
        h.Enrolled s ops ∧ op.dismisses s = false := by
  constructor
  · rintro ⟨before, after, hops, hr, hafter⟩
    rcases concat_eq_append_cons.mp hops with ⟨rfl, hop, -⟩ | ⟨rest, rfl, hrest⟩
    · exact .inl ⟨hop, hr⟩
    · rw [List.forall_mem_append, List.forall_mem_singleton] at hafter
      exact .inr ⟨⟨before, rest, hrest, hr, hafter.1⟩, hafter.2⟩
  · rintro (⟨rfl, hr⟩ | ⟨⟨before, after, rfl, hr, hafter⟩, hop⟩)
    · exact ⟨ops, [], rfl, hr, by simp⟩
    · refine ⟨before, after ++ [op], by simp, hr, ?_⟩
      rw [List.forall_mem_append, List.forall_mem_singleton]
      exact ⟨hafter, hop⟩

theorem removed_concat (h : Hub) (s : Nat) (ops : List Op) (op : Op) :
    h.Removed s (ops ++ [op]) ↔
      h.Removed s ops ∨ s ∈ (h.run ops).live ∧ op.dismisses s = true := by
  constructor
  · rintro ⟨before, mid, after, hops, hlive, hmid⟩
    rcases concat_eq_append_cons.mp hops with ⟨rfl, rfl, -⟩ | ⟨rest, -, hrest⟩
    · exact .inr ⟨hlive, hmid⟩
    · exact .inl ⟨before, mid, rest, hrest, hlive, hmid⟩
  · rintro (⟨before, mid, after, rfl, hlive, hmid⟩ | ⟨hlive, hop⟩)
    · exact ⟨before, mid, after ++ [op], by simp, hlive, hmid⟩
    · exact ⟨ops, op, [], rfl, hlive, hop⟩

theorem Removed.append {h : Hub} {s : Nat} {ops : List Op} (hr : h.Removed s ops)
    (rest : List Op) : h.Removed s (ops ++ rest) := by
  obtain ⟨before, op, after, rfl, hlive, hop⟩ := hr
  exact ⟨before, op, after ++ rest, by simp, hlive, hop⟩

structure Fresh (h : Hub) : Prop where
  idle : h.live = []
  counted : ∀ s b, h.buffer? s = some b → b.Counted b.size ∧ b.closed = false

theorem fresh_ofSizes (sizes : List Int) : (ofSizes sizes).Fresh where
  idle := rfl
  counted s b hb := by
    obtain ⟨size, -, hnew⟩ := List.mem_filterMap.mp (List.mem_of_getElem? hb)
    exact ⟨Buffer.counted_new hnew, (Buffer.holds_new hnew).2⟩

namespace Fresh

variable {h : Hub} (hh : h.Fresh)
include hh

theorem sound : h.Sound := ⟨by simp [hh.idle], by simp [hh.idle]⟩

theorem not_live (s : Nat) : s ∉ h.live := by simp [hh.idle]

theorem place_run_concat (ops : List Op) (op : Op) (s : Nat) :
    (h.run (ops ++ [op])).place s = ((h.run ops).place s).step s op := by
  rw [run_concat]
  exact place_step (hh.sound.run ops) op s

theorem isOpen_of_live {s : Nat} (ops : List Op) (hs : s ∈ (h.run ops).live) :
    ((h.run ops).place s).isOpen = true := by
  induction ops using List.reverseRecOn with
  | nil => exact absurd hs (hh.not_live s)
  | append_singleton ops op ih =>
    rw [← live_place, hh.place_run_concat, Place.live_step] at hs
    rw [hh.place_run_concat, Place.isOpen_step]
    rcases hs with ⟨rfl, ho⟩ | ⟨hlive, hop⟩
    · simp [ho, Op.dismisses]
    · simp [ih ((live_place _ _).mp hlive), hop]

theorem live_iff (s : Nat) (ops : List Op) : s ∈ (h.run ops).live ↔ h.Enrolled s ops := by
  induction ops using List.reverseRecOn with
  | nil => simp [run, hh.not_live, Enrolled]
  | append_singleton ops op ih =>
    rw [enrolled_concat, ← ih, register_ok_iff, ← live_place, hh.place_run_concat,
      Place.live_step, live_place]
    constructor
    · rintro (⟨rfl, ho⟩ | hstays)
      · by_cases hlive : s ∈ (h.run ops).live
        · exact .inr ⟨hlive, rfl⟩
        · exact .inl ⟨rfl, hlive, ho⟩
      · exact .inr hstays
    · rintro (⟨rfl, -, ho⟩ | hstays)
      · exact .inl ⟨rfl, ho⟩
      · exact .inr hstays

section

variable {s : Nat} {b₀ : Buffer} (hb : h.buffer? s = some b₀)
include hb

theorem counted_run (ops : List Op) : ((h.run ops).place s).Counted b₀.size := by
  induction ops using List.reverseRecOn with
  | nil => exact ⟨b₀, hb, (hh.counted s b₀ hb).1⟩
  | append_singleton ops op ih =>
    rw [hh.place_run_concat]
    exact ih.step s op

theorem isOpen_iff (ops : List Op) :
    ((h.run ops).place s).isOpen = true ↔ ¬h.Removed s ops := by
  induction ops using List.reverseRecOn with
  | nil => simp [run, place, Place.isOpen, hb, (hh.counted s b₀ hb).2, Removed]
  | append_singleton ops op ih =>
    rw [removed_concat, not_or, ← ih, hh.place_run_concat, Place.isOpen_step, Bool.and_eq_true,
      Bool.not_eq_true', ← live_place, Bool.and_eq_false_iff, not_and, Bool.not_eq_true,
      or_iff_not_imp_left, Bool.not_eq_false]

theorem closings_eq_zero {ops : List Op} (hr : ¬h.Removed s ops) : closings s h ops = 0 := by
  induction ops using List.reverseRecOn with
  | nil => rfl
  | append_singleton ops op ih =>
    have hopen := (hh.isOpen_iff hb _).mpr hr
    rw [run_concat] at hopen
    rw [removed_concat, not_or] at hr
    rw [closings_append, ih hr.1]
    simp [closings, hopen]

theorem closings_eq_one {ops : List Op} (hr : h.Removed s ops) : closings s h ops = 1 := by
  induction ops using List.reverseRecOn with
  | nil => simp [Removed] at hr
  | append_singleton ops op ih =>
    have hclosed := mt (hh.isOpen_iff hb _).mp (not_not_intro hr)
    rw [run_concat, Bool.not_eq_true] at hclosed
    rw [closings_append]
    by_cases hbefore : h.Removed s ops
    · have hshut := mt (hh.isOpen_iff hb _).mp (not_not_intro hbefore)
      rw [Bool.not_eq_true] at hshut
      simp [closings, ih hbefore, hshut]
    · have hopen := (hh.isOpen_iff hb _).mpr hbefore
      simp [closings, hh.closings_eq_zero hb hbefore, hopen, hclosed]

end

theorem buffer_of_live {s : Nat} {ops : List Op} (hs : s ∈ (h.run ops).live) :
    ∃ b₀, h.buffer? s = some b₀ := by
  have hlt := (hh.sound.run ops).buffered s hs
  rw [length_run] at hlt
  exact ⟨_, List.getElem?_eq_getElem hlt⟩

theorem buffer_of_removed {s : Nat} {ops : List Op} (hr : h.Removed s ops) :
    ∃ b₀, h.buffer? s = some b₀ := by
  obtain ⟨before, op, after, -, hlive, -⟩ := hr
  exact hh.buffer_of_live hlive

end Fresh

structure Lifecycle (h : Hub) (ops : List Op) : Prop where
  live : ∀ s, s ∈ (h.run ops).live ↔ h.Enrolled s ops
  opened : ∀ s ∈ (h.run ops).live, ∃ b, (h.run ops).buffer? s = some b ∧ b.closed = false
  closed : ∀ s, h.Removed s ops → closings s h ops = 1 ∧
    ∃ b, (h.run ops).buffer? s = some b ∧ b.closed = true ∧ b.markers = 1
  final : ∀ s, h.Removed s ops → ∀ rest, s ∉ (h.run (ops ++ rest)).live
  bounded : ∀ s b₀, h.buffer? s = some b₀ →
    ∃ b, (h.run ops).buffer? s = some b ∧ b.texts.length ≤ b₀.size
  rejected : ∀ s e, (h.run ops).register s = .error e →
    (h.run ops).step (.register s) = h.run ops
  ignored : ∀ s, s ∉ (h.run ops).live → (h.run ops).step (.unregister s) = h.run ops

/-- Subscribers of any sizes, through any operations. -/
theorem lifecycle_run (sizes : List Int) (ops : List Op) : (ofSizes sizes).Lifecycle ops := by
  have hh := fresh_ofSizes sizes
  constructor
  · exact fun s => hh.live_iff s ops
  · intro s hs
    have hopen := hh.isOpen_of_live ops hs
    simpa [Place.isOpen, place, Option.any_eq_true] using hopen
  · intro s hr
    obtain ⟨b₀, hb₀⟩ := hh.buffer_of_removed hr
    obtain ⟨b, hb, hcounted⟩ := hh.counted_run hb₀ ops
    have hshut := mt (hh.isOpen_iff hb₀ ops).mp (not_not_intro hr)
    have hclosed : b.closed = true := by simpa [Place.isOpen, hb] using hshut
    exact ⟨hh.closings_eq_one hb₀ hr, b, hb, hclosed, by simp [hcounted.holds.markers_eq, hclosed]⟩
  · intro s hr rest hlive
    obtain ⟨b₀, hb₀⟩ := hh.buffer_of_removed hr
    exact (hh.isOpen_iff hb₀ _).mp (hh.isOpen_of_live _ hlive) (hr.append rest)
  · intro s b₀ hb₀
    obtain ⟨b, hb, hcounted⟩ := hh.counted_run hb₀ ops
    exact ⟨b, hb, by rw [← hcounted.pending]; exact hcounted.le_size⟩
  · intro s e hr
    simp [step, hr]
  · intro s hs
    simp [step, unregister, hs]

end Hub

end Household.Realtime
