import Household.Proofs.Realtime.Channel
import Household.Proofs.Realtime.Isolation

/-!
# Buffers as channels

By what it answers, a buffer cannot be told from a bounded channel: it does
what the rules allow and all of it. The counter is the number of texts that
were accepted and not read, and the marker that every read at the end takes
out and puts back stands behind them exactly when the buffer is closed.
-/

set_option autoImplicit false

namespace Household.Realtime

namespace Buffer

/-- What happens when an operation is tried: nothing while a read waits. -/
def event? (b : Buffer) : Op → Option Event
  | .offer s => some (.offer s (b.offer s).1)
  | .close => some (.close b.close.1)
  | .read => b.read?.map (fun r => .read r.1)

def history (b : Buffer) : List Op → List Event
  | [] => []
  | op::ops => (b.event? op).toList ++ (b.step op).history ops

def view (b : Buffer) : Channel := ⟨b.texts, b.closed⟩

section
variable {b : Buffer} {size : Nat} {op : Op} {e : Event} {es : List Event} {q : Channel}

/-! One operation -/

theorem op_of_event? (h : b.event? op = some e) : e.op = op := by
  cases op with
  | offer s =>
    obtain rfl := Option.some.inj h
    rfl
  | close =>
    obtain rfl := Option.some.inj h
    rfl
  | read =>
    obtain ⟨r, -, rfl⟩ := Option.map_eq_some_iff.mp h
    rfl

theorem read?_eq_none_iff : b.read? = none ↔ b.queue = [] := by
  unfold read?
  split <;> simp_all

theorem event?_eq_none_iff : b.event? op = none ↔ op = .read ∧ b.queue = [] := by
  cases op with
  | offer s => simp [event?]
  | close => simp [event?]
  | read => simp [event?, read?_eq_none_iff]

theorem step_of_waiting (h : b.event? op = none) : b.step op = b := by
  obtain ⟨rfl, hqueue⟩ := event?_eq_none_iff.mp h
  simp [step, read?_eq_none_iff.mpr hqueue]

theorem Counted.queue_eq_nil_iff (h : b.Counted size) : b.queue = [] ↔ b.view = .empty := by
  have hholds : b.queue = b.texts.map .text ++ if b.closed then [.marker] else [] := h.holds
  rw [hholds]
  cases hc : b.closed <;> simp [view, Channel.empty, hc]

theorem Counted.step (h : b.Counted size) (op : Op) : (b.step op).Counted size := by
  cases op with
  | offer s => exact h.offer s
  | close => exact h.close
  | read => exact h.read

theorem first_close (b : Buffer) : b.close.1 = !b.closed := by
  unfold Buffer.close
  cases hc : b.closed <;> simp

theorem Counted.closed_of_read_end {b' : Buffer} (h : b.Counted size)
    (hr : b.read? = some (none, b')) : b.closed = true := by
  by_contra hopen
  have hnil := (h.holds.read_end hr).1
  have hqueue := h.queue_eq_nil_iff.mpr (by simpa [view, Channel.empty, hnil] using hopen)
  rw [read?_eq_none_iff.mpr hqueue] at hr
  cases hr

theorem Counted.offer_step (h : b.Counted size) (s : String) :
    Channel.Step size b.view (.offer s (b.offer s).1) (b.offer s).2.view := by
  have hview : (b.offer s).2.view =
      ⟨b.texts ++ if (b.offer s).1 then [s] else [], b.closed⟩ := by
    rw [view, (h.holds.offer s).texts_eq, closed_offer]
  rw [hview, h.accepts_eq, hasRoom, h.size_eq, view]
  by_cases hc : b.closed = true
  · simpa [hc] using Channel.Step.shut b.texts s
  · rw [Bool.not_eq_true] at hc
    by_cases hroom : b.texts.length < size
    · simpa [hc, hroom] using Channel.Step.accept s hroom
    · simpa [hc, hroom] using Channel.Step.full s (Nat.not_lt.mp hroom)

theorem Counted.close_step (h : b.Counted size) :
    Channel.Step size b.view (.close b.close.1) b.close.2.view := by
  have hview : b.close.2.view = ⟨b.texts, true⟩ := by
    rw [view, h.holds.close.texts_eq, closed_close]
  rw [hview, first_close, view]
  cases b.closed with
  | false => exact .close b.texts
  | true => exact .again b.texts

theorem Counted.read_step {b' : Buffer} {text? : Option String} (h : b.Counted size)
    (hr : b.read? = some (text?, b')) : Channel.Step size b.view (.read text?) b'.view := by
  have hclosed := closed_read? hr
  cases text? with
  | none =>
    obtain ⟨hnil, hholds⟩ := h.holds.read_end hr
    rw [view, view, hholds.texts_eq, hclosed, hnil, h.closed_of_read_end hr]
    exact .ended
  | some text =>
    obtain ⟨rest, htexts, hholds⟩ := h.holds.read_text hr
    rw [view, view, hholds.texts_eq, hclosed, htexts]
    exact .next text rest b.closed

/-- What a buffer does is what the rules for channels allow. -/
theorem Counted.event_step (h : b.Counted size) (he : b.event? op = some e) :
    Channel.Step size b.view e (b.step op).view := by
  cases op with
  | offer s =>
    obtain rfl := Option.some.inj he
    exact h.offer_step s
  | close =>
    obtain rfl := Option.some.inj he
    exact h.close_step
  | read =>
    obtain ⟨⟨text?, b'⟩, hr, rfl⟩ := Option.map_eq_some_iff.mp he
    have hstep : b.step .read = b' := by simp [Buffer.step, hr]
    rw [hstep]
    exact h.read_step hr

/-- Whatever the rules allow, the buffer does. -/
theorem Counted.step_event (h : b.Counted size) (hstep : Channel.Step size b.view e q) :
    b.event? e.op = some e ∧ (b.step e.op).view = q := by
  cases he : b.event? e.op with
  | none =>
    -- only a read waits, and then there is no rule for it either
    obtain ⟨hop, hqueue⟩ := event?_eq_none_iff.mp he
    rw [h.queue_eq_nil_iff.mp hqueue] at hstep
    cases e with
    | read text? => exact absurd hstep (Channel.not_step_empty text?)
    | offer s accepted => cases hop
    | close first => cases hop
  | some f =>
    obtain ⟨rfl, rfl⟩ := hstep.deterministic (h.event_step he) (op_of_event? he).symm
    exact ⟨rfl, rfl⟩

/-! All operations -/

theorem Counted.run (h : b.Counted size) (ops : List Op) : (b.run ops).Counted size := by
  induction ops generalizing b with
  | nil => exact h
  | cons op ops ih => exact ih (h.step op)

theorem Counted.run_history (h : b.Counted size) (ops : List Op) :
    Channel.Run size b.view (b.history ops) (b.run ops).view := by
  induction ops generalizing b with
  | nil => exact .nil b.view
  | cons op ops ih =>
    cases he : b.event? op with
    | none =>
      rw [history, Buffer.run, he, step_of_waiting he]
      exact ih h
    | some e =>
      rw [history, Buffer.run, he]
      exact .cons (h.event_step he) (ih (h.step op))

theorem Counted.history_of_run (h : b.Counted size) (hrun : Channel.Run size b.view es q) :
    b.history (es.map Event.op) = es ∧ (b.run (es.map Event.op)).view = q := by
  induction es generalizing b with
  | nil =>
    cases hrun
    exact ⟨rfl, rfl⟩
  | cons e es ih =>
    cases hrun with
    | cons hstep hrest =>
      obtain ⟨he, rfl⟩ := h.step_event hstep
      obtain ⟨hhistory, hview⟩ := ih (h.step e.op) hrest
      exact ⟨by rw [List.map_cons, history, he, hhistory]; rfl, hview⟩

theorem mem_history_iff (b : Buffer) (ops : List Op) (hop : op ≠ .read) :
    op ∈ (b.history ops).map Event.op ↔ op ∈ ops := by
  induction ops generalizing b with
  | nil => rfl
  | cons first ops ih =>
    rw [history, List.map_append, List.mem_append, ih, List.mem_cons]
    cases he : b.event? first with
    | none =>
      obtain ⟨rfl, -⟩ := event?_eq_none_iff.mp he
      simp [hop]
    | some e => simp [op_of_event? he]

theorem Counted.history_ops (h : b.Counted size) (hc : b.closed = true) (ops : List Op) :
    (b.history ops).map Event.op = ops := by
  induction ops generalizing b with
  | nil => rfl
  | cons op ops ih =>
    cases he : b.event? op with
    | none =>
      have hview := h.queue_eq_nil_iff.mp (event?_eq_none_iff.mp he).2
      rw [show b.closed = false from congrArg Channel.closed hview] at hc
      cases hc
    | some e =>
      have hclosed := (h.event_step he).closed_iff.mpr (.inl hc)
      rw [history, he, List.map_append, ih (h.step op) hclosed, ← op_of_event? he]
      rfl

end

/-! The account of a buffer -/

/-- What a buffer for `size` texts has come to by operations of which `past`
tells what happened, and what it does next. -/
structure Conforms (size : Nat) (ops : List Op) (past : List Event) (b : Buffer) : Prop where
  ordered : obtained past <+: accepted past
  queue : b.queue = (unread past).map .text ++ if b.closed then [.marker] else []
  closed_iff : b.closed = true ↔ .close ∈ ops
  pending : b.pending = (unread past).length
  le_size : b.pending ≤ size
  offers : ∀ s, (b.offer s).1 = true ↔ b.closed = false ∧ b.pending < size
  closes : b.close.1 = true ↔ .close ∉ ops
  closings : past.count (.close true) = b.closed.toNat
  /-- There is something to read unless the buffer is empty and open. -/
  waits : b.read? = none ↔ unread past = [] ∧ b.closed = false
  /-- After the close no read waits: they obtain the rest, and then the end. -/
  drains : .close ∈ ops → ∀ rest, (b.history rest).map Event.op = rest ∧
    ∃ k, answers (b.history rest) <+: (unread past).map some ++ List.replicate k none

theorem Counted.conforms {b : Buffer} {size : Nat} (h : b.Counted size) (hb : b.view = .empty)
    (ops : List Op) : Conforms size ops (b.history ops) (b.run ops) := by
  have hrun : Channel.Run size .empty (b.history ops) (b.run ops).view := hb ▸ h.run_history ops
  have hcounted := h.run ops
  have hunread : unread (b.history ops) = (b.run ops).texts := hrun.unread_eq
  have hclosed : (b.run ops).closed = true ↔ .close ∈ ops := by
    have hiff := hrun.closed_iff
    rw [mem_history_iff b ops (by simp)] at hiff
    simpa [view, Channel.empty] using hiff
  exact {
    ordered := hrun.obtained_prefix
    queue := by
      rw [hunread]
      exact hcounted.holds
    closed_iff := hclosed
    pending := by
      rw [hunread]
      exact hcounted.pending
    le_size := hcounted.le_size
    offers := fun s => by
      rw [hcounted.accepts_eq, hasRoom, hcounted.pending, hcounted.size_eq]
      simp
    closes := by
      rw [← hclosed, first_close]
      simp
    closings := by
      have hclosings := hrun.closings
      simpa [view, Channel.empty] using hclosings.symm
    waits := by
      rw [read?_eq_none_iff, hcounted.queue_eq_nil_iff, hunread]
      simp [view, Channel.empty]
    drains := fun hclose rest => by
      have hend := hclosed.mpr hclose
      rw [hunread]
      exact ⟨hcounted.history_ops hend rest, (hcounted.run_history rest).drains hend⟩ }

theorem exists_new {size : Int} (hsize : 1 ≤ size) :
    ∃ b, new? size = some b ∧ b.Counted size.toNat ∧ b.view = .empty := by
  have hnew : new? size = some ⟨size.toNat, [], 0, false⟩ := if_neg (Int.not_lt.mpr hsize)
  exact ⟨_, hnew, counted_new hnew, rfl⟩

/-- A buffer of any size from one up refines the channel with that much room:
what happens at it is exactly what happens at the channel, and all it holds
and answers is told by the texts accepted, the texts read and the close. -/
theorem buffer_refines_channel {size : Int} (hsize : 1 ≤ size) :
    ∃ b, new? size = some b ∧
      (∀ es q, Channel.Run size.toNat .empty es q ↔
        ∃ ops, b.history ops = es ∧ (b.run ops).view = q) ∧
      ∀ ops, Conforms size.toNat ops (b.history ops) (b.run ops) := by
  obtain ⟨b, hnew, hcounted, hview⟩ := exists_new hsize
  refine ⟨b, hnew, fun es q => ⟨fun hrun => ?_, ?_⟩, hcounted.conforms hview⟩
  · rw [← hview] at hrun
    exact ⟨es.map Event.op, hcounted.history_of_run hrun⟩
  · rintro ⟨ops, rfl, rfl⟩
    rw [← hview]
    exact hcounted.run_history ops

def crowding : List Op :=
  [.read, .offer "milk", .offer "eggs", .offer "bread", .read, .close, .offer "tea", .close,
    .read, .read, .read]

def crowdingEvents : List Event :=
  [.offer "milk" true, .offer "eggs" true, .offer "bread" false, .read (some "milk"),
    .close true, .offer "tea" false, .close false, .read (some "eggs"), .read none, .read none]

theorem crowded_buffer_drained : (1 : Int) ≤ 2 ∧ ∃ b, new? 2 = some b ∧
    b.history crowding = crowdingEvents ∧ Channel.Run 2 .empty crowdingEvents ⟨[], true⟩ ∧
    Conforms 2 crowding crowdingEvents ⟨2, [.marker], 0, true⟩ := by
  obtain ⟨b, hnew, hruns, hconforms⟩ := buffer_refines_channel (by decide : (1 : Int) ≤ 2)
  cases hnew
  exact ⟨by decide, _, rfl, rfl, (hruns _ _).mpr ⟨crowding, rfl, rfl⟩, hconforms crowding⟩

end Buffer

end Household.Realtime
