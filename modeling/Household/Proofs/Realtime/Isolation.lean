import Household.Proofs.Realtime.Lifecycle

/-!
# Subscribers among themselves

What one subscriber's buffer accepts, holds and gives to its reader depends
on its own operations, the broadcasts and the closings of the hub, and on
nothing that is done for the others. A round through the live subscribers
comes to the same in every order.
-/

set_option autoImplicit false

namespace Household.Realtime

namespace Buffer

def hasRoom (b : Buffer) : Bool := !b.closed && decide (b.texts.length < b.size)

theorem Counted.accepts_eq {b : Buffer} {size : Nat} (h : b.Counted size) (text : String) :
    (b.offer text).1 = b.hasRoom := by
  have hpending := h.pending
  unfold Buffer.offer hasRoom
  by_cases hc : b.closed = true
  · simp [hc]
  · by_cases hfull : b.size ≤ b.pending
    · have hnot : ¬b.texts.length < b.size := by omega
      simp [hfull, hnot]
    · have hroom : b.texts.length < b.size := by omega
      simp [hc, hfull, hroom]

end Buffer

namespace Hub

/-! Rounds in any order -/

def takes (h : Hub) (text : String) (s : Nat) : Bool :=
  (h.buffer? s).any (fun b => (b.offer text).1)

def misses (h : Hub) (text : String) (s : Nat) : Bool :=
  (h.buffer? s).any (fun b => !(b.offer text).1)

theorem ext_places {g h : Hub} (hbuffers : ∀ s, g.buffer? s = h.buffer? s)
    (hlive : g.live = h.live) : g = h := by
  obtain ⟨buffers, live⟩ := g
  obtain ⟨buffers', live'⟩ := h
  obtain rfl : buffers = buffers' := List.ext_getElem? hbuffers
  obtain rfl : live = live' := hlive
  rfl

theorem countP_offerTo (h : Hub) (text : String) {t : Nat} {ts : List Nat} (ht : t ∉ ts)
    (f : Option Buffer → Bool) :
    ts.countP (fun s => f ((h.offerTo text t).buffer? s)) = ts.countP (fun s => f (h.buffer? s)) := by
  apply List.countP_congr
  intro s hs
  have hne : s ≠ t := fun e => ht (e ▸ hs)
  rw [buffer?_offerTo, if_neg hne]

theorem offerAll_counts (h : Hub) (text : String) {ss : List Nat} (hss : ss.Nodup) :
    (h.offerAll text ss).delivered = ss.countP (h.takes text) ∧
      (h.offerAll text ss).dropped = ss.countP (h.misses text) := by
  induction ss generalizing h with
  | nil => exact ⟨rfl, rfl⟩
  | cons t ts ih =>
    obtain ⟨ht, hts⟩ := List.nodup_cons.mp hss
    -- the round goes on from a hub in which only the buffer of `t` has changed
    have hrest := ih (h.offerTo text t) hts
    have htakes := countP_offerTo h text ht (fun b? => b?.any (fun b => (b.offer text).1))
    have hmisses := countP_offerTo h text ht (fun b? => b?.any (fun b => !(b.offer text).1))
    change _ = ts.countP (h.takes text) at htakes
    change _ = ts.countP (h.misses text) at hmisses
    unfold takes misses at hrest
    rw [htakes, hmisses] at hrest
    rw [List.countP_cons, List.countP_cons]
    unfold offerAll
    unfold offerTo at hrest
    cases hb : h.buffer? t with
    | none => simpa [hb, takes, misses] using hrest
    | some b =>
      simp only [hb] at hrest
      cases hr : (b.offer text).1 <;> simp [takes, misses, hb, hr, hrest]

theorem offerAll_perm {h : Hub} (hh : h.Sound) (text : String) {ss : List Nat}
    (hss : ss.Perm h.live) : h.offerAll text ss = h.offerAll text h.live := by
  have hnodup : ss.Nodup := hss.nodup_iff.mpr hh.nodup
  obtain ⟨hdelivered, hdropped⟩ := offerAll_counts h text hnodup
  obtain ⟨hdelivered', hdropped'⟩ := offerAll_counts h text hh.nodup
  have hhub : (h.offerAll text ss).hub = (h.offerAll text h.live).hub := by
    apply ext_places
    · intro s
      rw [buffer?_offerAll h text hnodup, buffer?_offerAll h text hh.nodup]
      simp only [hss.mem_iff]
    · rw [live_offerAll, live_offerAll]
  rw [hss.countP_eq] at hdelivered hdropped
  cases hspread : h.offerAll text ss
  cases hspread' : h.offerAll text h.live
  simp_all

def farewells : Nat → Nat → List Notice
  | _, 0 => []
  | n, k + 1 => .unregistered (n - 1) :: farewells (n - 1) k

theorem live_unregisterAll (h : Hub) (ss : List Nat) :
    (h.unregisterAll ss).1.live = h.live.filter (fun t => decide (t ∉ ss)) := by
  induction ss generalizing h with
  | nil => exact (List.filter_eq_self.mpr (by simp)).symm
  | cons s ss ih =>
    simp only [unregisterAll]
    rw [ih, live_unregister, List.filter_filter]
    apply List.filter_congr
    intro t _
    by_cases hts : t = s <;> simp [hts]

theorem length_live_unregister {h : Hub} (hh : h.Sound) {s : Nat} (hs : s ∈ h.live) :
    (h.unregister s).1.live.length = h.live.length - 1 := by
  rw [live_unregister, ← List.length_erase_of_mem hs, hh.nodup.erase_eq_filter]
  simp only [bne, ne_eq, decide_not]
  rfl

theorem notices_unregisterAll {h : Hub} (hh : h.Sound) {ss : List Nat} (hss : ss.Nodup)
    (hlive : ∀ s ∈ ss, s ∈ h.live) :
    (h.unregisterAll ss).2 = farewells h.live.length ss.length := by
  induction ss generalizing h with
  | nil => rfl
  | cons s ss ih =>
    obtain ⟨hs, hrest⟩ := List.nodup_cons.mp hss
    rw [List.forall_mem_cons] at hlive
    have hlength := length_live_unregister hh hlive.1
    have hnotices : (h.unregister s).2 = [.unregistered (h.live.length - 1)] := by
      rw [← hlength, live_unregister]
      simp [unregister, hlive.1]
    have hstay : ∀ t ∈ ss, t ∈ (h.unregister s).1.live := by
      intro t ht
      rw [live_unregister, List.mem_filter]
      exact ⟨hlive.2 t ht, decide_eq_true fun e => hs (e ▸ ht)⟩
    simp only [unregisterAll, List.length_cons, farewells, hnotices]
    rw [ih (hh.unregister s) hrest hstay, hlength]
    rfl

theorem unregisterAll_perm {h : Hub} (hh : h.Sound) {ss : List Nat} (hss : ss.Perm h.live) :
    h.unregisterAll ss = h.unregisterAll h.live := by
  apply Prod.ext
  · apply ext_places
    · intro s
      have hplace : (h.unregisterAll ss).1.place s = (h.unregisterAll h.live).1.place s := by
        rw [place_unregisterAll, place_unregisterAll]
        simp only [hss.mem_iff]
      exact congrArg Place.buffer? hplace
    · simp only [live_unregisterAll, hss.mem_iff]
  · have hnodup : ss.Nodup := hss.nodup_iff.mpr hh.nodup
    rw [notices_unregisterAll hh hnodup fun s => hss.mem_iff.mp,
      notices_unregisterAll hh hh.nodup fun _ => id, hss.length_eq]

structure Outcome where
  delivered? : Option Nat
  notices : List Notice
  hub : Hub

def outcome (h : Hub) : Op → Outcome
  | .broadcast c => ⟨some (h.broadcast c).1, (h.broadcast c).2.2, (h.broadcast c).2.1⟩
  | .close => ⟨none, h.close.2, h.close.1⟩
  | .unregister s => ⟨none, (h.unregister s).2, (h.unregister s).1⟩
  | .register s => ⟨none, (h.register s).toOption.elim [] Prod.snd, h.step (.register s)⟩
  | .read s => ⟨none, [], h.step (.read s)⟩

/-- The same when the operation goes round the subscribers `ss`, if it goes
round. -/
def outcomeAlong (h : Hub) (ss : List Nat) : Op → Outcome
  | .broadcast c =>
    match c.wireText? with
    | none => ⟨some 0, [.unwritable c.kind], h⟩
    | some text =>
      let spread := h.offerAll text ss
      ⟨some spread.delivered, List.replicate spread.dropped (.dropped c.kind), spread.hub⟩
  | .close => ⟨none, (h.unregisterAll ss).2, (h.unregisterAll ss).1⟩
  | op => h.outcome op

theorem outcome_hub (h : Hub) (op : Op) : (h.outcome op).hub = h.step op := by
  cases op <;> rfl

theorem outcomeAlong_perm {h : Hub} (hh : h.Sound) {ss : List Nat} (hss : ss.Perm h.live)
    (op : Op) : h.outcomeAlong ss op = h.outcome op := by
  cases op with
  | broadcast c =>
    cases hc : c.wireText? with
    | none => simp only [outcomeAlong, outcome, broadcast, hc]
    | some text => simp only [outcomeAlong, outcome, broadcast, hc, offerAll_perm hh text hss]
  | close => simp only [outcomeAlong, outcome, close, unregisterAll_perm hh hss]
  | _ => rfl

inductive Course : Hub → List Op → List Outcome → Prop
  | nil (h : Hub) : Course h [] []
  | cons {h : Hub} {ss : List Nat} {op : Op} {ops : List Op} {os : List Outcome} :
      ss.Perm h.live → Course (h.outcomeAlong ss op).hub ops os →
      Course h (op :: ops) (h.outcomeAlong ss op :: os)

def outcomes (h : Hub) : List Op → List Outcome
  | [] => []
  | op::ops => h.outcome op :: (h.step op).outcomes ops

theorem course_iff {h : Hub} (hh : h.Sound) (ops : List Op) (os : List Outcome) :
    Course h ops os ↔ os = h.outcomes ops := by
  induction ops generalizing h os with
  | nil =>
    constructor
    · rintro ⟨⟩
      rfl
    · rintro rfl
      exact .nil h
  | cons op ops ih =>
    constructor
    · rintro (_ | ⟨hss, hrest⟩)
      rw [outcomeAlong_perm hh hss] at hrest ⊢
      rw [outcome_hub, ih (hh.step op)] at hrest
      rw [hrest, outcomes]
    · rintro rfl
      have hop := outcomeAlong_perm hh (.refl _) op
      rw [outcomes, ← hop]
      refine .cons (.refl _) ?_
      rw [hop, outcome_hub]
      exact (ih (hh.step op) _).mpr rfl

/-! One subscriber among the others -/

def Op.concerns (s : Nat) : Op → Bool
  | register t => t == s
  | unregister t => t == s
  | read t => t == s
  | _ => true

def accepts? (s : Nat) (h : Hub) : Op → Option Bool
  | .broadcast c => some (decide (s ∈ h.live) && c.wireText?.any (fun text => h.takes text s))
  | _ => none

def obtains? (s : Nat) (h : Hub) : Op → Option (Option String)
  | .read t => if t = s then (h.buffer? s).bind (fun b => b.read?.map Prod.fst) else none
  | _ => none

def observed {α : Type} (f : Hub → Op → Option α) : Hub → List Op → List α
  | _, [] => []
  | h, op::ops => (f h op).toList ++ observed f (h.step op) ops

structure Local {α : Type} (s : Nat) (f : Hub → Op → Option α) : Prop where
  place : ∀ {g h : Hub}, g.place s = h.place s → ∀ op, f g op = f h op
  others : ∀ h {op : Op}, op.concerns s = false → f h op = none

theorem local_accepts (s : Nat) : Local s (accepts? s) where
  place {g h} hs op := by
    have hbuffer : g.buffer? s = h.buffer? s := congrArg Place.buffer? hs
    have hlive : decide (s ∈ g.live) = decide (s ∈ h.live) := congrArg Place.live hs
    cases op with
    | broadcast c => simp only [accepts?, takes, hbuffer, hlive]
    | _ => rfl
  others h op hop := by
    cases op with
    | broadcast c => simp [Op.concerns] at hop
    | _ => rfl

theorem local_obtains (s : Nat) : Local s (obtains? s) where
  place {g h} hs op := by
    have hbuffer : g.buffer? s = h.buffer? s := congrArg Place.buffer? hs
    cases op with
    | read t => simp only [obtains?, hbuffer]
    | _ => rfl
  others h op hop := by
    cases op with
    | read t =>
      have hne : t ≠ s := ne_of_beq_false hop
      simp [obtains?, hne]
    | _ => rfl

theorem Fresh.takes_eq {h : Hub} (hh : h.Fresh) {s : Nat} {ops : List Op}
    (hs : s ∈ (h.run ops).live) (text : String) :
    (h.run ops).takes text s = ((h.run ops).buffer? s).any Buffer.hasRoom := by
  obtain ⟨b₀, hb₀⟩ := hh.buffer_of_live hs
  obtain ⟨b, hb, hcounted⟩ := hh.counted_run hb₀ ops
  have hb' : (h.run ops).buffer? s = some b := hb
  simp [takes, hb', hcounted.accepts_eq]

theorem place_step_of_others {h : Hub} (hh : h.Sound) {s : Nat} {op : Op}
    (hop : op.concerns s = false) : (h.step op).place s = h.place s := by
  rw [place_step hh]
  cases op with
  | register t | unregister t | read t =>
    have hne : t ≠ s := ne_of_beq_false hop
    simp [Place.step, hne]
  | _ => simp [Op.concerns] at hop

section

variable {g h : Hub} {s : Nat} (hg : g.Sound) (hh : h.Sound) (hs : g.place s = h.place s)
include hg hh hs

theorem place_step_congr (op : Op) : (g.step op).place s = (h.step op).place s := by
  rw [place_step hg, place_step hh, hs]

theorem place_run_filter (ops : List Op) :
    (g.run ops).place s = (h.run (ops.filter (Op.concerns s))).place s := by
  induction ops generalizing g h with
  | nil => exact hs
  | cons op ops ih =>
    by_cases hop : op.concerns s = true
    · rw [List.filter_cons_of_pos hop]
      exact ih (hg.step op) (hh.step op) (place_step_congr hg hh hs op)
    · rw [List.filter_cons_of_neg hop]
      refine ih (hg.step op) hh ?_
      rw [place_step_of_others hg (eq_false_of_ne_true hop), hs]

theorem observed_filter {α : Type} {f : Hub → Op → Option α} (hf : Local s f) (ops : List Op) :
    observed f g ops = observed f h (ops.filter (Op.concerns s)) := by
  induction ops generalizing g h with
  | nil => rfl
  | cons op ops ih =>
    by_cases hop : op.concerns s = true
    · rw [List.filter_cons_of_pos hop]
      have hrest := ih (hg.step op) (hh.step op) (place_step_congr hg hh hs op)
      simp only [observed, hf.place hs, hrest]
    · rw [List.filter_cons_of_neg hop]
      have hop' := eq_false_of_ne_true hop
      have hrest := ih (hg.step op) hh (by rw [place_step_of_others hg hop', hs])
      simp only [observed, hf.others g hop', hrest, Option.toList_none, List.nil_append]

end

/-- To a subscriber only its own operations matter, of those on `h`, beside the
broadcasts and the closings; a broadcast reaches whoever has room. -/
structure Isolates (h : Hub) (ops : List Op) : Prop where
  accepted : ∀ s, observed (accepts? s) h ops =
    observed (accepts? s) h (ops.filter (Op.concerns s))
  obtained : ∀ s, observed (obtains? s) h ops =
    observed (obtains? s) h (ops.filter (Op.concerns s))
  buffer : ∀ s, (h.run ops).buffer? s = (h.run (ops.filter (Op.concerns s))).buffer? s
  live : ∀ s, s ∈ (h.run ops).live ↔ s ∈ (h.run (ops.filter (Op.concerns s))).live
  distinct : (h.run ops).live.Nodup
  delivered : ∀ c text, c.wireText? = some text → ((h.run ops).broadcast c).1 =
    (h.run ops).live.countP (fun s => ((h.run ops).buffer? s).any Buffer.hasRoom)
  unordered : ∀ os, Course h ops os ↔ os = h.outcomes ops
  unwritable : ∀ c, c.wireText? = none →
    (h.run ops).broadcast c = (0, h.run ops, [.unwritable c.kind])

/-- Subscribers of any sizes, through any operations. -/
theorem isolates_run (sizes : List Int) (ops : List Op) : (ofSizes sizes).Isolates ops := by
  have hh := fresh_ofSizes sizes
  have hsame (s : Nat) := place_run_filter hh.sound hh.sound (s := s) rfl ops
  constructor
  · exact fun s => observed_filter hh.sound hh.sound rfl (local_accepts s) ops
  · exact fun s => observed_filter hh.sound hh.sound rfl (local_obtains s) ops
  · exact fun s => congrArg Place.buffer? (hsame s)
  · intro s
    rw [← live_place, ← live_place, hsame]
  · exact (hh.sound.run ops).nodup
  · intro c text hc
    have hsound := hh.sound.run ops
    simp only [broadcast, hc]
    rw [(offerAll_counts _ text hsound.nodup).1]
    apply List.countP_congr
    intro s hs
    rw [hh.takes_eq hs]
  · exact course_iff hh.sound ops
  · intro c hc
    simp [broadcast, hc]

end Hub

end Household.Realtime
