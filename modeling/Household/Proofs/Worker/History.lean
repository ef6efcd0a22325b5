import Household.Proofs.Worker.Timeline
import Mathlib.Algebra.Order.Group.Defs

/-!
# The history of a rehearsal

Each event takes a worker that stands where its last mark says to one that
stands where its new last mark says, by the rule of the log, and what is due
next always lies ahead of the clock.
-/

set_option autoImplicit false

namespace Household

namespace Rehearsal

section

variable {τ : Type}

def elapsed [Zero τ] [Add τ] : List (Op τ) → τ
  | [] => 0
  | .advance d :: ops => d + elapsed ops
  | _ :: ops => elapsed ops

/-- How the first `n` calls go by a script. -/
def scripted [Zero τ] (script : List (Behaviour τ)) (n : Nat) : List (Behaviour τ) :=
  (List.range n).map (fun i => script[i]?.getD ⟨0, .returns⟩)

theorem scripted_add [Zero τ] (script : List (Behaviour τ)) (m n : Nat) :
    scripted script (m + n) = scripted script m ++ scripted (script.drop m) n := by
  rw [scripted, List.range_add, List.map_append, List.map_map]
  apply congrArg (_ ++ ·)
  apply List.map_congr_left
  intro i _
  rw [List.getElem?_drop]
  rfl

theorem stop_running (r : Rehearsal τ) : r.stop.after.worker.running = false := by
  obtain ⟨⟨name, pace, phase?⟩, now, script, ending?⟩ := r
  cases phase? <;> rfl

variable [Add τ] {r : Rehearsal τ}

theorem start_of_running (h : r.worker.running = true) :
    r.start = ⟨r, [], [.alreadyRunning]⟩ := by
  simp only [start, Worker.start, if_pos h]

theorem finish_next (hphase : r.worker.phase? = some .calling) (e : Worker.Ending) {u : τ}
    (hu : u ∈ (r.finish e).after.nextTime?) : u = r.now + r.worker.interval := by
  cases e with
  | returns | fails =>
    simp only [finish, nextTime?, Worker.endCall, Worker.resume, Worker.due?, hphase] at hu
    exact (Option.some.inj hu).symm
  | cancels =>
    simp only [finish, nextTime?, Worker.endCall, Worker.abandon, Worker.due?, hphase] at hu
    cases hu

def called (r : Rehearsal τ) : Rehearsal τ :=
  { r with worker := { r.worker with phase? := some .calling }, script := r.script.tail }

variable [Zero τ] [LE τ] [DecidableLE τ] {t : τ}

theorem fire_of_due {due : τ} (hphase : r.worker.phase? = some (.waiting due))
    (hending : r.ending? = none) : fire { r with now := t } =
      Outcome.andThen ⟨called { r with now := t }, [.begun t r.nextBehaviour], []⟩
        (proceed r.nextBehaviour) := by
  simp only [fire, hending, begin, Worker.call, hphase, called, nextBehaviour]

theorem fire_of_flight {u : τ} {e : Worker.Ending} (hending : r.ending? = some (u, e)) :
    fire { r with now := t } = finish { r with now := t } e := by
  simp only [fire, hending, finish]

end

variable {τ : Type} [AddCommGroup τ] [LinearOrder τ] {interval : τ}

/-- Where the loop of a worker is after its last mark, and how the call in flight
ends. -/
inductive Loop (interval : τ) :
    Option (Mark τ) → Option (Phase τ) → Option (τ × Worker.Ending) → Prop
  | fresh : Loop interval none none none
  | waiting {m : Mark τ} {t : τ} : m.waitsFrom? = some t →
      Loop interval (some m) (some (.waiting (t + interval))) none
  | calling {t : τ} {b : Behaviour τ} : ¬b.pause ≤ 0 →
      Loop interval (some (.begun t b)) (some .calling) (some (t + b.pause, b.ending))
  | ended {t : τ} : Loop interval (some (.cancelled t)) (some .ended) none
  | stopped {t : τ} : Loop interval (some (.stopped t)) none none

structure Stands (interval : τ) (l : Option (Mark τ)) (r : Rehearsal τ) : Prop where
  pace : r.worker.interval = interval
  loop : Loop interval l r.worker.phase? r.ending?
  ahead : ∀ t ∈ r.nextTime?, r.now < t

/-- A stretch of a run, told by its marks. -/
structure Told (interval : τ) (l : Option (Mark τ)) (script : List (Behaviour τ))
    (o : Outcome τ) : Prop where
  stands : Stands interval (latest l o.marks) o.after
  lawful : Lawful interval l o.marks
  notices : o.notices.filter (· ≠ .alreadyRunning) = o.marks.filterMap Mark.notice?
  calls : o.marks.filterMap Mark.behaviour? =
    scripted script (o.marks.filterMap Mark.behaviour?).length
  rest : o.after.script = script.drop (o.marks.filterMap Mark.behaviour?).length

variable {l : Option (Mark τ)} {r : Rehearsal τ} {o : Outcome τ} {f : Rehearsal τ → Outcome τ}

theorem Stands.told_nil (h : Stands interval l r) : Told interval l r.script ⟨r, [], []⟩ where
  stands := h
  lawful := .nil
  notices := rfl
  calls := rfl
  rest := rfl

theorem Told.andThen {script : List (Behaviour τ)} (h : Told interval l script o)
    (h' : Told interval (latest l o.marks) o.after.script (f o.after)) :
    Told interval l script (o.andThen f) where
  stands := by
    rw [Outcome.andThen, latest_append]
    exact h'.stands
  lawful := h.lawful.append h'.lawful
  notices := by
    rw [Outcome.andThen, List.filter_append, h.notices, h'.notices, List.filterMap_append]
  calls := by
    rw [Outcome.andThen, List.filterMap_append, List.length_append, scripted_add, ← h.calls,
      ← h.rest, ← h'.calls]
  rest := by
    rw [Outcome.andThen, h'.rest, h.rest, List.drop_drop, List.filterMap_append, List.length_append]

theorem Told.begun {t : τ} (hnext : Next interval l (.begun t r.nextBehaviour))
    (h : Told interval (some (.begun t r.nextBehaviour)) r.script.tail (f r.called)) :
    Told interval l r.script
      (Outcome.andThen ⟨r.called, [.begun t r.nextBehaviour], []⟩ f) where
  stands := by
    rw [Outcome.andThen, latest_append]
    exact h.stands
  lawful := .cons hnext h.lawful
  notices := h.notices
  calls := by
    have hfirst : scripted r.script 1 = [r.nextBehaviour] := by
      rw [nextBehaviour, List.head?_eq_getElem?]
      rfl
    show r.nextBehaviour :: (f r.called).marks.filterMap Mark.behaviour? = scripted r.script
      ((f r.called).marks.filterMap Mark.behaviour?).length.succ
    rw [Nat.succ_eq_one_add, scripted_add, hfirst, List.drop_one, ← h.calls]
    rfl
  rest := by
    show (f r.called).after.script = r.script.drop
      ((f r.called).marks.filterMap Mark.behaviour?).length.succ
    rw [h.rest, List.drop_tail]

/-! Where a worker stands -/

theorem Stands.due (h : Stands interval l r) {t : τ} (ht : r.nextTime? = some t) :
    (∃ m s, l = some m ∧ m.waitsFrom? = some s ∧ t = s + interval ∧
      r.worker.phase? = some (.waiting t) ∧ r.ending? = none) ∨
    (∃ s b, l = some (.begun s b) ∧ ¬b.pause ≤ 0 ∧ t = s + b.pause ∧
      r.worker.phase? = some .calling ∧ r.ending? = some (t, b.ending)) := by
  obtain ⟨⟨name, pace, phase?⟩, now, script, ending?⟩ := r
  obtain ⟨-, hloop : Loop interval l phase? ending?, -⟩ := h
  cases hloop with
  | fresh | ended | stopped => cases ht
  | waiting hm =>
    cases ht
    exact .inl ⟨_, _, rfl, hm, rfl, rfl, rfl⟩
  | calling hb =>
    cases ht
    exact .inr ⟨_, _, rfl, hb, rfl, rfl, rfl⟩

theorem Stands.running (h : Stands interval l r) :
    r.worker.running = !l.all Mark.endsLoop := by
  obtain ⟨⟨name, pace, phase?⟩, now, script, ending?⟩ := r
  obtain ⟨-, hloop : Loop interval l phase? ending?, -⟩ := h
  cases hloop with
  | @waiting m t hm =>
    have hends : (some m).all Mark.endsLoop = false := Mark.endsLoop_of_waitsFrom? hm
    rw [hends]
    rfl
  | _ => rfl

section

variable {phase? : Option (Phase τ)} {ending? : Option (τ × Worker.Ending)}

theorem Loop.ending?_eq_none (h : Loop interval l phase? ending?)
    (hover : l.all Mark.endsLoop = true) : ending? = none := by
  cases h with
  | calling => cases hover
  | _ => rfl

theorem Loop.exists_not_stopped {phase : Phase τ} (h : Loop interval l (some phase) ending?) :
    ∃ m, l = some m ∧ m.isStopped = false := by
  cases h with
  | waiting hm => exact ⟨_, rfl, Mark.isStopped_of_waitsFrom? hm⟩
  | calling | ended => exact ⟨_, rfl, rfl⟩

end

theorem Stands.prompt {m : Mark τ} {t : τ} (h : Stands interval (some m) r)
    (hm : m.waitsFrom? = some t) : r.now < t + interval := by
  obtain ⟨⟨name, pace, phase?⟩, now, script, ending?⟩ := r
  obtain ⟨-, hloop : Loop interval (some m) phase? ending?, hahead⟩ := h
  cases hloop with
  | waiting hm' =>
    cases Option.some.inj (hm.symm.trans hm')
    exact hahead _ rfl
  | calling | ended | stopped => cases hm

theorem Stands.lasting {t : τ} {b : Behaviour τ} (h : Stands interval (some (.begun t b)) r) :
    r.now < (b.endMark t).time := by
  obtain ⟨⟨name, pace, phase?⟩, now, script, ending?⟩ := r
  obtain ⟨-, hloop : Loop interval (some (.begun t b)) phase? ending?, hahead⟩ := h
  cases hloop with
  | waiting hm => cases hm
  | calling hb =>
    rw [Behaviour.endMark, Worker.Ending.time_mark, if_neg hb]
    exact hahead _ rfl

/-! Events up to a target -/

section

variable {fuel : Nat} {target t : τ}

theorem advance_fire (ht : r.nextTime? = some t) (hle : t ≤ target) :
    r.advance (fuel + 1) target =
      (fire { r with now := t }).andThen (fun r => r.advance fuel target) := by
  simp only [advance, ht, if_pos hle]

theorem advance_rest (hahead : ∀ t ∈ r.nextTime?, target < t) :
    r.advance (fuel + 1) target = ⟨{ r with now := target }, [], []⟩ := by
  cases ht : r.nextTime? with
  | none => simp only [advance, ht]
  | some t => simp only [advance, ht, if_neg (not_le.mpr (hahead t ht))]

omit [AddCommGroup τ] in
theorem event_or_rest (r : Rehearsal τ) (target : τ) :
    (∃ t, r.nextTime? = some t ∧ t ≤ target) ∨ ∀ t ∈ r.nextTime?, target < t := by
  cases r.nextTime? with
  | none => exact .inr (by rintro _ ⟨⟩)
  | some t =>
    rcases le_or_gt t target with hle | hlt
    · exact .inl ⟨t, rfl, hle⟩
    · exact .inr (by rintro _ ⟨⟩; exact hlt)

end

/-! Single events -/

theorem stop_told (h : Stands interval l r) : Told interval l r.script r.stop := by
  obtain ⟨⟨name, pace, phase?⟩, now, script, ending?⟩ := r
  obtain ⟨hpace, hloop : Loop interval l phase? ending?, hahead⟩ := h
  cases phase? with
  | none =>
    have hnone : ending? = none := by
      cases hloop <;> rfl
    subst hnone
    exact Stands.told_nil ⟨hpace, hloop, hahead⟩
  | some phase =>
    obtain ⟨m, rfl, hm⟩ := hloop.exists_not_stopped
    refine ⟨⟨hpace, .stopped, ?_⟩, .cons (.stop hm) .nil, rfl, rfl, rfl⟩
    rintro _ ⟨⟩

variable [IsOrderedAddMonoid τ]

theorem stands_waiting (hpos : 0 < interval) (hpace : r.worker.interval = interval) {m : Mark τ}
    (hm : m.waitsFrom? = some r.now)
    (hphase : r.worker.phase? = some (.waiting (r.now + r.worker.interval)))
    (hending : r.ending? = none) : Stands interval (some m) r where
  pace := hpace
  loop := by
    rw [hphase, hending, hpace]
    exact .waiting hm
  ahead := by
    intro t ht
    simp only [nextTime?, hending, Worker.due?, hphase, hpace, Option.mem_some_iff] at ht
    rw [← ht]
    exact lt_add_of_pos_right _ hpos

theorem finish_told (hpos : 0 < interval) {s : τ} {b : Behaviour τ}
    (hnow : b.endMark s = b.ending.mark r.now) (hpace : r.worker.interval = interval)
    (hphase : r.worker.phase? = some .calling) :
    Told interval (some (.begun s b)) r.script (r.finish b.ending) := by
  have hlawful : Lawful interval (some (.begun s b)) [b.ending.mark r.now] :=
    .cons (.ending hnow) .nil
  cases hb : b.ending with
  | returns | fails =>
    rw [hb] at hlawful
    simp only [finish, Worker.endCall, Worker.resume, hphase]
    refine ⟨?_, hlawful, rfl, rfl, rfl⟩
    apply stands_waiting hpos
    · exact hpace
    · rfl
    · rfl
    · rfl
  | cancels =>
    rw [hb] at hlawful
    simp only [finish, Worker.endCall, Worker.abandon, hphase]
    refine ⟨⟨hpace, .ended, ?_⟩, hlawful, rfl, rfl, rfl⟩
    rintro _ ⟨⟩

theorem proceed_told (hpos : 0 < interval) {b : Behaviour τ} (hpace : r.worker.interval = interval)
    (hphase : r.worker.phase? = some .calling) :
    Told interval (some (.begun r.now b)) r.script (proceed b r) := by
  by_cases hb : b.pause ≤ 0
  · rw [proceed, if_pos hb]
    apply finish_told hpos _ hpace hphase
    rw [Behaviour.endMark, if_pos hb]
  · rw [proceed, if_neg hb]
    have hstands : Stands interval (some (.begun r.now b))
        { r with ending? := some (r.now + b.pause, b.ending) } := by
      refine ⟨hpace, ?_, ?_⟩
      · rw [hphase]
        exact .calling hb
      · rintro _ ⟨⟩
        exact lt_add_of_pos_right _ (not_le.mp hb)
    exact hstands.told_nil

theorem fire_told (hpos : 0 < interval) (h : Stands interval l r) {t : τ}
    (ht : r.nextTime? = some t) : Told interval l r.script (fire { r with now := t }) := by
  rcases h.due ht with ⟨m, s, rfl, hm, hnow, hphase, hending⟩ |
    ⟨s, b, rfl, hb, hnow, hphase, hending⟩
  · rw [fire_of_due hphase hending]
    apply Told.begun (r := { r with now := t })
    · rw [hnow]
      exact .call hm
    · exact proceed_told (r := called { r with now := t }) hpos h.pace rfl
  · rw [fire_of_flight hending]
    apply finish_told (r := { r with now := t }) hpos _ h.pace hphase
    rw [hnow, Behaviour.endMark, if_neg hb]

/-! Steps and runs -/

theorem advance_told (hpos : 0 < interval) (h : Stands interval l r) (fuel : Nat) (target : τ) :
    Told interval l r.script (r.advance fuel target) := by
  induction fuel generalizing l r with
  | zero => exact h.told_nil
  | succ fuel ih =>
    rcases r.event_or_rest target with ⟨t, ht, hle⟩ | hahead
    · rw [advance_fire ht hle]
      have hfire := fire_told hpos h ht
      exact hfire.andThen (ih hfire.stands)
    · rw [advance_rest hahead]
      have hset : Stands interval l { r with now := target } := ⟨h.pace, h.loop, hahead⟩
      exact hset.told_nil

theorem start_told (hpos : 0 < interval) (h : Stands interval l r) :
    Told interval l r.script r.start := by
  rw [start, Worker.start]
  cases hrunning : r.worker.running with
  | true => exact { h.told_nil with notices := rfl }
  | false =>
    have hover : l.all Mark.endsLoop = true := by simpa [h.running] using hrunning
    refine ⟨?_, .cons (.start hover) .nil, rfl, rfl, rfl⟩
    apply stands_waiting hpos
    · exact h.pace
    · rfl
    · rfl
    · exact h.loop.ending?_eq_none hover

theorem step_told (hpos : 0 < interval) (h : Stands interval l r) (fuel : Nat) (op : Op τ) :
    Told interval l r.script (r.step fuel op) := by
  cases op with
  | start => exact start_told hpos h
  | startDetached =>
    cases hrefused : r.worker.detachedRefusal?.isSome with
    | true =>
      simp only [step, hrefused, if_true]
      exact h.told_nil
    | false =>
      simp only [step, hrefused]
      exact start_told hpos h
  | stop => exact stop_told h
  | advance d => exact advance_told hpos h fuel _

theorem run_told (hpos : 0 < interval) (h : Stands interval l r) (fuel : Nat) (ops : List (Op τ)) :
    Told interval l r.script (r.run fuel ops) := by
  induction ops generalizing l r with
  | nil => exact h.told_nil
  | cons op ops ih =>
    have hstep := step_told hpos h fuel op
    exact hstep.andThen (ih hstep.stands)

end Rehearsal

end Household
