import Household.Realtime.Hub

/-!
# The place of one subscriber

What the hub holds for one subscriber is its buffer and whether it is live.
Every operation of the hub acts on this place alone: those for other
subscribers leave it as it is, and the order in which a broadcast goes round
does not matter.
-/

set_option autoImplicit false

namespace Household.Realtime

@[ext] structure Place where
  buffer? : Option Buffer
  live : Bool
  deriving DecidableEq, Repr

namespace Place

def isOpen (p : Place) : Bool := p.buffer?.any (fun b => !b.closed)

def register (p : Place) : Place := if p.isOpen then { p with live := true } else p

def leave (p : Place) : Place :=
  if p.live then ⟨p.buffer?.map (fun b => b.close.2), false⟩ else p

def offer (p : Place) (text : String) : Place :=
  if p.live then { p with buffer? := p.buffer?.map (fun b => (b.offer text).2) } else p

def read (p : Place) : Place := { p with buffer? := p.buffer?.map (fun b => b.step .read) }

def step (s : Nat) (p : Place) : Hub.Op → Place
  | .register t => if t = s then p.register else p
  | .unregister t => if t = s then p.leave else p
  | .broadcast c =>
    match c.wireText? with
    | some text => p.offer text
    | none => p
  | .close => p.leave
  | .read t => if t = s then p.read else p

@[simp] theorem leave_leave (p : Place) : p.leave.leave = p.leave := by
  unfold leave
  cases h : p.live <;> simp [h]

end Place

namespace Hub

structure Sound (h : Hub) : Prop where
  nodup : h.live.Nodup
  buffered : ∀ s ∈ h.live, s < h.buffers.length

def place (h : Hub) (s : Nat) : Place := ⟨h.buffer? s, decide (s ∈ h.live)⟩

/-! Single operations -/

theorem buffer?_setBuffer_self {h : Hub} {s : Nat} {b : Buffer} (hs : h.buffer? s = some b)
    (b' : Buffer) : (h.setBuffer s b').buffer? s = some b' := by
  have hlt : s < h.buffers.length := (List.getElem?_eq_some_iff.mp hs).1
  simp [buffer?, setBuffer, hlt]

theorem buffer?_setBuffer_of_ne (h : Hub) {s t : Nat} (b : Buffer) (hne : t ≠ s) :
    (h.setBuffer t b).buffer? s = h.buffer? s := by
  simp [buffer?, setBuffer, hne]

theorem place_setBuffer_self {h : Hub} {s : Nat} {b : Buffer} (hs : h.buffer? s = some b)
    (b' : Buffer) : (h.setBuffer s b').place s = ⟨some b', (h.place s).live⟩ :=
  Place.ext (buffer?_setBuffer_self hs b') rfl

theorem place_setBuffer_of_ne (h : Hub) {s t : Nat} (b : Buffer) (hne : t ≠ s) :
    (h.setBuffer t b).place s = h.place s :=
  Place.ext (buffer?_setBuffer_of_ne h b hne) rfl

theorem length_setBuffer (h : Hub) (s : Nat) (b : Buffer) :
    (h.setBuffer s b).buffers.length = h.buffers.length := by
  simp [setBuffer]

theorem Sound.setBuffer {h : Hub} (hh : h.Sound) (s : Nat) (b : Buffer) :
    (h.setBuffer s b).Sound where
  nodup := hh.nodup
  buffered t ht := by
    rw [length_setBuffer]
    exact hh.buffered t ht

theorem register_ok {h h' : Hub} {s : Nat} {ns : List Notice} (hr : h.register s = .ok (h', ns)) :
    h' = { h with live := h.live ++ [s] } ∧ s ∉ h.live ∧
      ∃ b, h.buffer? s = some b ∧ b.closed = false := by
  unfold register at hr
  by_cases hs : s ∈ h.live
  · simp [hs] at hr
  · rw [if_neg hs] at hr
    cases hb : h.buffer? s with
    | none => simp [hb] at hr
    | some b =>
      cases hc : b.closed with
      | true => simp [hb, hc] at hr
      | false =>
        simp only [hb, hc, Bool.false_eq_true, if_false, Except.ok.injEq, Prod.mk.injEq] at hr
        exact ⟨hr.1.symm, hs, b, rfl, hc⟩

theorem register_error {h : Hub} {s : Nat} {e : HubError} (hr : h.register s = .error e) :
    s ∈ h.live ∨ (h.place s).isOpen = false := by
  unfold register at hr
  by_cases hs : s ∈ h.live
  · exact .inl hs
  · rw [if_neg hs] at hr
    cases hb : h.buffer? s with
    | none => exact .inr (by simp [Place.isOpen, place, hb])
    | some b =>
      cases hc : b.closed with
      | true => exact .inr (by simp [Place.isOpen, place, hb, hc])
      | false => simp [hb, hc] at hr

theorem buffer?_closeBuffer_self (h : Hub) (s : Nat) :
    (h.closeBuffer s).buffer? s = (h.buffer? s).map (fun b => b.close.2) := by
  unfold closeBuffer
  cases hb : h.buffer? s with
  | none => simpa using hb
  | some b => exact buffer?_setBuffer_self hb _

theorem buffer?_closeBuffer_of_ne (h : Hub) {s t : Nat} (hne : t ≠ s) :
    (h.closeBuffer t).buffer? s = h.buffer? s := by
  unfold closeBuffer
  split
  · rfl
  · exact buffer?_setBuffer_of_ne h _ hne

theorem live_unregister (h : Hub) (s : Nat) :
    (h.unregister s).1.live = h.live.filter (fun t => decide (t ≠ s)) := by
  unfold unregister
  by_cases hs : s ∈ h.live
  · simp [hs]
  · rw [if_neg hs, eq_comm, List.filter_eq_self]
    intro t ht
    exact decide_eq_true fun e => hs (e ▸ ht)

theorem length_unregister (h : Hub) (s : Nat) :
    (h.unregister s).1.buffers.length = h.buffers.length := by
  unfold unregister closeBuffer
  split
  · split
    · rfl
    · exact length_setBuffer _ _ _
  · rfl

theorem place_unregister_self (h : Hub) (s : Nat) :
    (h.unregister s).1.place s = (h.place s).leave := by
  by_cases hs : s ∈ h.live
  · have hlive : (h.place s).live = true := decide_eq_true hs
    apply Place.ext
    · simp only [unregister, if_pos hs, Place.leave, hlive, if_true]
      exact buffer?_closeBuffer_self h s
    · simp [place, live_unregister, Place.leave, hs]
  · simp [unregister, hs, place, Place.leave]

theorem place_unregister_of_ne (h : Hub) {s t : Nat} (hne : t ≠ s) :
    (h.unregister t).1.place s = h.place s := by
  apply Place.ext
  · unfold unregister
    split
    · exact buffer?_closeBuffer_of_ne h hne
    · rfl
  · simp [place, live_unregister, hne.symm]

theorem Sound.unregister {h : Hub} (hh : h.Sound) (s : Nat) : (h.unregister s).1.Sound where
  nodup := by
    rw [live_unregister]
    exact hh.nodup.filter _
  buffered t ht := by
    rw [live_unregister] at ht
    rw [length_unregister]
    exact hh.buffered t (List.mem_filter.mp ht).1

/-! Rounds over several subscribers -/

def offerTo (h : Hub) (text : String) (t : Nat) : Hub :=
  match h.buffer? t with
  | none => h
  | some b => h.setBuffer t (b.offer text).2

theorem offerAll_cons_hub (h : Hub) (text : String) (t : Nat) (ts : List Nat) :
    (h.offerAll text (t :: ts)).hub = ((h.offerTo text t).offerAll text ts).hub := by
  unfold offerTo
  conv => lhs; unfold offerAll
  cases h.buffer? t with
  | none => rfl
  | some b =>
    simp only
    split <;> rfl

theorem live_offerTo (h : Hub) (text : String) (t : Nat) : (h.offerTo text t).live = h.live := by
  unfold offerTo
  split <;> rfl

theorem length_offerTo (h : Hub) (text : String) (t : Nat) :
    (h.offerTo text t).buffers.length = h.buffers.length := by
  unfold offerTo
  split
  · rfl
  · exact length_setBuffer _ _ _

theorem buffer?_offerTo (h : Hub) (text : String) (t s : Nat) :
    (h.offerTo text t).buffer? s =
      if s = t then (h.buffer? s).map (fun b => (b.offer text).2) else h.buffer? s := by
  unfold offerTo
  by_cases hst : s = t
  · subst hst
    cases hb : h.buffer? s with
    | none => simpa using hb
    | some b => simpa using buffer?_setBuffer_self hb _
  · rw [if_neg hst]
    split
    · rfl
    · exact buffer?_setBuffer_of_ne h _ (Ne.symm hst)

theorem live_offerAll (h : Hub) (text : String) (ss : List Nat) :
    (h.offerAll text ss).hub.live = h.live := by
  induction ss generalizing h with
  | nil => rfl
  | cons t ts ih => rw [offerAll_cons_hub, ih, live_offerTo]

theorem length_offerAll (h : Hub) (text : String) (ss : List Nat) :
    (h.offerAll text ss).hub.buffers.length = h.buffers.length := by
  induction ss generalizing h with
  | nil => rfl
  | cons t ts ih => rw [offerAll_cons_hub, ih, length_offerTo]

theorem buffer?_offerAll (h : Hub) (text : String) {ss : List Nat} (hss : ss.Nodup) (s : Nat) :
    (h.offerAll text ss).hub.buffer? s =
      if s ∈ ss then (h.buffer? s).map (fun b => (b.offer text).2) else h.buffer? s := by
  induction ss generalizing h with
  | nil => rfl
  | cons t ts ih =>
    obtain ⟨ht, hts⟩ := List.nodup_cons.mp hss
    rw [offerAll_cons_hub, ih _ hts, buffer?_offerTo]
    by_cases hst : s = t
    · subst hst
      simp [ht]
    · simp [hst]

theorem place_unregisterAll (h : Hub) (ss : List Nat) (s : Nat) :
    (h.unregisterAll ss).1.place s = if s ∈ ss then (h.place s).leave else h.place s := by
  induction ss generalizing h with
  | nil => simp [unregisterAll]
  | cons t ts ih =>
    simp only [unregisterAll]
    rw [ih]
    by_cases hst : s = t
    · subst hst
      simp [place_unregister_self]
    · simp [hst, place_unregister_of_ne h (Ne.symm hst)]

theorem Sound.unregisterAll {h : Hub} (hh : h.Sound) (ss : List Nat) :
    (h.unregisterAll ss).1.Sound := by
  induction ss generalizing h with
  | nil => exact hh
  | cons t ts ih => exact ih (hh.unregister t)

/-! All operations -/

theorem place_register_of_ok {h h' : Hub} {s : Nat} {ns : List Notice}
    (hr : h.register s = .ok (h', ns)) : h'.place s = (h.place s).register := by
  obtain ⟨rfl, hs, b, hb, hc⟩ := register_ok hr
  have hopen : (h.place s).isOpen = true := by simp [Place.isOpen, place, hb, hc]
  rw [Place.register, if_pos hopen]
  exact Place.ext rfl (by simp [place])

theorem register_of_error {h : Hub} {s : Nat} {e : HubError} (hr : h.register s = .error e) :
    (h.place s).register = h.place s := by
  unfold Place.register
  rcases register_error hr with hlive | hclosed
  · have htrue : (h.place s).live = true := decide_eq_true hlive
    split
    · exact Place.ext rfl htrue.symm
    · rfl
  · simp [hclosed]

theorem place_register_of_ne {h h' : Hub} {s t : Nat} {ns : List Notice}
    (hr : h.register t = .ok (h', ns)) (hne : t ≠ s) : h'.place s = h.place s := by
  obtain ⟨rfl, -⟩ := register_ok hr
  exact Place.ext rfl (by simp [place, hne.symm])

theorem Sound.register {h h' : Hub} (hh : h.Sound) {s : Nat} {ns : List Notice}
    (hr : h.register s = .ok (h', ns)) : h'.Sound := by
  obtain ⟨rfl, hs, b, hb, -⟩ := register_ok hr
  have hlt : s < h.buffers.length := (List.getElem?_eq_some_iff.mp hb).1
  refine ⟨?_, ?_⟩
  · refine List.nodup_append.mpr ⟨hh.nodup, by simp, ?_⟩
    rintro a ha b hb rfl
    rw [List.mem_singleton] at hb
    exact hs (hb ▸ ha)
  · intro t ht
    rcases List.mem_append.mp ht with ht | ht
    · exact hh.buffered t ht
    · rw [List.mem_singleton.mp ht]
      exact hlt

theorem Sound.step {h : Hub} (hh : h.Sound) (op : Op) : (h.step op).Sound := by
  cases op with
  | register s =>
    cases hr : h.register s with
    | ok r => simpa [Hub.step, hr] using hh.register hr
    | error e => simpa [Hub.step, hr] using hh
  | unregister s => exact hh.unregister s
  | broadcast c =>
    simp only [Hub.step, broadcast]
    cases c.wireText? with
    | none => exact hh
    | some text =>
      refine ⟨?_, ?_⟩
      · simpa only [live_offerAll] using hh.nodup
      · simpa only [live_offerAll, length_offerAll] using hh.buffered
  | close => exact hh.unregisterAll h.live
  | read s =>
    simp only [Hub.step]
    split
    · exact hh
    · exact hh.setBuffer s _

theorem length_unregisterAll (h : Hub) (ss : List Nat) :
    (h.unregisterAll ss).1.buffers.length = h.buffers.length := by
  induction ss generalizing h with
  | nil => rfl
  | cons t ts ih => exact (ih _).trans (length_unregister h t)

theorem length_step (h : Hub) (op : Op) : (h.step op).buffers.length = h.buffers.length := by
  cases op with
  | register s =>
    simp only [Hub.step]
    split
    · rename_i r hr
      rw [(register_ok hr).1]
    · rfl
  | unregister s => exact length_unregister h s
  | broadcast c =>
    simp only [Hub.step, broadcast]
    split
    · rfl
    · exact length_offerAll h _ _
  | close => exact length_unregisterAll h h.live
  | read s =>
    simp only [Hub.step]
    split
    · rfl
    · exact length_setBuffer h s _

theorem place_offerAll {h : Hub} (hh : h.Sound) (text : String) (s : Nat) :
    (h.offerAll text h.live).hub.place s = (h.place s).offer text := by
  apply Place.ext
  · simp only [place, buffer?_offerAll h text hh.nodup s, Place.offer]
    by_cases hs : s ∈ h.live <;> simp [hs]
  · simp only [place, live_offerAll, Place.offer]
    by_cases hs : s ∈ h.live <;> simp [hs]

/-- Seen from one place, the hub does there what the operation says. -/
theorem place_step {h : Hub} (hh : h.Sound) (op : Op) (s : Nat) :
    (h.step op).place s = (h.place s).step s op := by
  cases op with
  | register t =>
    by_cases hts : t = s
    · subst hts
      cases hr : h.register t with
      | ok r => simpa [Hub.step, hr, Place.step] using place_register_of_ok hr
      | error e => simp [Hub.step, hr, Place.step, register_of_error hr]
    · cases hr : h.register t with
      | ok r => simpa [Hub.step, hr, Place.step, hts] using place_register_of_ne hr hts
      | error e => simp [Hub.step, hr, Place.step, hts]
  | unregister t =>
    by_cases hts : t = s
    · subst hts
      simpa [Hub.step, Place.step] using place_unregister_self h t
    · simpa [Hub.step, Place.step, hts] using place_unregister_of_ne h hts
  | broadcast c =>
    simp only [Hub.step, broadcast, Place.step]
    cases c.wireText? with
    | none => rfl
    | some text => exact place_offerAll hh text s
  | close =>
    simp only [Hub.step, Hub.close, Place.step, place_unregisterAll]
    by_cases hs : s ∈ h.live
    · simp [hs]
    · simp [hs, place, Place.leave]
  | read t =>
    simp only [Hub.step, Place.step]
    by_cases hts : t = s
    · subst hts
      cases hb : h.buffer? t with
      | none => simp [Place.read, place, hb]
      | some b =>
        simp only [place_setBuffer_self hb, if_true, Place.read]
        simp [place, hb]
    · cases hb : h.buffer? t with
      | none => simp [hts]
      | some b => simp [hts, place_setBuffer_of_ne h _ hts]

end Hub

end Household.Realtime
