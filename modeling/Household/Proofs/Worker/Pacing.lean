import Household.Proofs.Worker.History
import Mathlib.Algebra.Order.Archimedean.Basic
import Mathlib.Algebra.Order.Ring.Int

/-!
# A worker keeps its pace

An interval takes two events of a worker at most, so that with enough fuel the
clock goes as far as it is told to go.
-/

set_option autoImplicit false

namespace Household

namespace Rehearsal

variable {τ : Type} [AddCommGroup τ] [LinearOrder τ] [IsOrderedAddMonoid τ] {interval : τ}
  {l : Option (Mark τ)} {r : Rehearsal τ}

/-! Enough fuel -/

theorem fire_next (h : Stands interval l r) {t : τ} (ht : r.nextTime? = some t) :
    ((fire { r with now := t }).after.ending? = none ∧
      ∀ u ∈ (fire { r with now := t }).after.nextTime?, u = t + interval) ∨
    r.ending? = none ∧ (fire { r with now := t }).after.ending? ≠ none ∧
      ∀ u ∈ (fire { r with now := t }).after.nextTime?, t < u := by
  have hwaiting {k : Rehearsal τ} {e : Worker.Ending} (hphase : k.worker.phase? = some .calling)
      (hnow : k.now = t) (hpace : k.worker.interval = interval) :
      ∀ u ∈ (k.finish e).after.nextTime?, u = t + interval := by
    intro u hu
    rw [finish_next hphase e hu, hnow, hpace]
  rcases h.due ht with ⟨-, -, -, -, -, hphase, hending⟩ | ⟨-, b, -, -, -, hphase, hending⟩
  · rw [fire_of_due hphase hending, Outcome.andThen, proceed]
    by_cases hb : r.nextBehaviour.pause ≤ 0
    · rw [if_pos hb]
      exact .inl ⟨rfl, hwaiting rfl rfl h.pace⟩
    · rw [if_neg hb]
      refine .inr ⟨hending, Option.some_ne_none _, ?_⟩
      rintro _ ⟨⟩
      exact lt_add_of_pos_right t (not_le.mp hb)
  · rw [fire_of_flight hending]
    exact .inl ⟨rfl, hwaiting hphase rfl h.pace⟩

/-- The clock reaches a target that lies less than `n` intervals behind what is
due next. A loop that waits has up to two events in each of these intervals, a
call in flight one less. -/
theorem advance_reaches (hpos : 0 < interval) (h : Stands interval l r) {fuel n : Nat} {target : τ}
    (hn : ∀ t ∈ r.nextTime?, target < t + n • interval) (hfuel : 2 * n + 1 ≤ fuel)
    (hwaiting : r.ending? = none → 2 * n + 2 ≤ fuel) :
    (r.advance fuel target).after.now = target := by
  induction fuel generalizing l r n with
  | zero => omega
  | succ fuel ih =>
    rcases r.event_or_rest target with ⟨t, ht, hle⟩ | hahead
    · rw [advance_fire ht hle]
      have hstands := (fire_told hpos h ht).stands
      have htarget := hn t ht
      cases n with
      | zero =>
        rw [zero_nsmul, add_zero] at htarget
        exact absurd hle (not_le.mpr htarget)
      | succ n =>
        rcases fire_next h ht with ⟨-, hu⟩ | ⟨hret, hlasts, hu⟩
        -- the loop waits again, which takes one of the `n + 1` intervals
        · apply ih (n := n) hstands
          · intro u hmem
            rw [hu u hmem, add_assoc, ← succ_nsmul']
            exact htarget
          · omega
          · omega
        -- the call lasts; its end comes later than its beginning
        · apply ih (n := n + 1) hstands
          · intro u hmem
            exact htarget.trans (add_lt_add_left (hu u hmem) _)
          · have hfuel := hwaiting hret
            omega
          · exact fun hnone => absurd hnone hlasts
    · rw [advance_rest hahead]

theorem exists_fuel [Archimedean τ] (hpos : 0 < interval) (ops : List (Op τ)) :
    ∃ enough, ∀ fuel ≥ enough, ∀ l r, Stands interval l r →
      (r.run fuel ops).after.now = r.now + elapsed ops := by
  induction ops with
  | nil => exact ⟨0, fun _ _ _ r _ => (add_zero r.now).symm⟩
  | cons op ops ih =>
    obtain ⟨enough, henough⟩ := ih
    have hrest {fuel : Nat} (hfuel : enough ≤ fuel) {l : Option (Mark τ)} {r : Rehearsal τ}
        (h : Stands interval l r) :
        (r.run fuel (op :: ops)).after.now = (r.step fuel op).after.now + elapsed ops :=
      henough fuel hfuel _ _ (step_told hpos h fuel op).stands
    cases op with
    | start | stop => exact ⟨enough, fun fuel hfuel l r h => hrest hfuel h⟩
    | startDetached =>
      refine ⟨enough, fun fuel hfuel l r h => ?_⟩
      rw [hrest hfuel h, step]
      split <;> rfl
    | advance d =>
      -- the bound depends on the length only, since nothing is overdue before
      obtain ⟨n, hn⟩ := Archimedean.arch d hpos
      refine ⟨max enough (2 * n + 2), fun fuel hfuel l r h => ?_⟩
      have hreach : (r.step fuel (.advance d)).after.now = r.now + d := by
        apply advance_reaches hpos h (n := n)
        · intro t ht
          exact add_lt_add_of_lt_of_le (h.ahead t ht) hn
        · omega
        · omega
      rw [hrest (le_of_max_le_left hfuel) h, hreach, add_assoc]
      rfl

/-! The pace of a worker -/

/-- What the marks of a run tell. The calls go by the script. There is one call
at a time, each an interval after a start or after the end of the call before,
and none out of a loop. A worker runs from a start until it is stopped or a
call is cancelled, and nothing that is due stays out. -/
structure Paced (interval : τ) (script : List (Behaviour τ)) (o : Outcome τ) : Prop where
  notices : o.notices.filter (· ≠ .alreadyRunning) = o.marks.filterMap Mark.notice?
  calls : o.marks.filterMap Mark.behaviour? =
    scripted script (o.marks.filterMap Mark.behaviour?).length
  single : ∀ earlier later, o.marks = earlier ++ later → inFlight earlier ≤ 1
  ends : ∀ earlier t b m later, o.marks = earlier ++ .begun t b :: m :: later →
    m = b.endMark t ∨ ∃ s, m = .stopped s
  punctual : ∀ earlier t b later, o.marks = earlier ++ .begun t b :: later →
    ∃ m s, earlier.getLast? = some m ∧ m.waitsFrom? = some s ∧ t = s + interval
  silent : ∀ earlier m between t b later,
    o.marks = earlier ++ m :: (between ++ .begun t b :: later) → m.endsLoop = true →
      ∃ s, .started s ∈ between
  running : o.after.worker.running = true ↔
    ∃ earlier t later, o.marks = earlier ++ .started t :: later ∧ ∀ m ∈ later, m.endsLoop = false
  stops : ∀ fuel, (o.after.step fuel .stop).after.worker.running = false
  idle : o.after.worker.running = false → ∀ fuel ops earlier t b later,
    (o.after.run fuel ops).marks = earlier ++ .begun t b :: later → ∃ s, .started s ∈ earlier
  refused : o.after.worker.running = true → ∀ fuel,
    o.after.step fuel .start = ⟨o.after, [], [.alreadyRunning]⟩ ∧
      o.after.step fuel .startDetached = ⟨o.after, [], [.alreadyRunning]⟩
  prompt : ∀ m t, o.marks.getLast? = some m → m.waitsFrom? = some t → o.after.now < t + interval
  lasting : ∀ t b, o.marks.getLast? = some (.begun t b) → o.after.now < (b.endMark t).time

theorem run_paced (hpos : 0 < interval) (h : Stands interval none r) (fuel : Nat)
    (ops : List (Op τ)) : Paced interval r.script (r.run fuel ops) := by
  have htold := run_told hpos h fuel ops
  have hlawful := htold.lawful
  have hstands := htold.stands
  rw [latest_none] at hstands
  exact {
    notices := htold.notices
    calls := htold.calls
    single := by
      intro earlier later hms
      rw [hms] at hlawful
      exact hlawful.of_append.1.inFlight_le
    ends := by
      intro earlier t b m later hms
      rw [hms, List.append_cons] at hlawful
      have hnext := hlawful.next
      rw [latest_append] at hnext
      exact hnext.of_begun
    punctual := by
      intro earlier t b later hms
      rw [hms] at hlawful
      rw [← latest_none]
      exact hlawful.next.of_call
    silent := by
      intro earlier m between t b later hms hm
      rw [hms, List.append_cons] at hlawful
      have hrest := hlawful.of_append.2
      rw [latest_append] at hrest
      have hover : (some m).all Mark.endsLoop = true := hm
      exact hrest.exists_started hover
    running := by
      rw [← hlawful.goesOn_iff, latest_none, hstands.running, Bool.not_eq_true']
    stops := fun _ => stop_running _
    idle := by
      intro hidle fuel more earlier t b later hmore
      have hmore' := (run_told hpos hstands fuel more).lawful
      rw [hmore] at hmore'
      rw [hstands.running, Bool.not_eq_false'] at hidle
      exact hmore'.exists_started hidle
    refused := by
      intro hrunning fuel
      have hstart := start_of_running hrunning
      refine ⟨hstart, ?_⟩
      rw [step, Worker.detachedRefusal?, if_pos hrunning]
      exact hstart
    prompt := by
      intro m t hlast hm
      rw [hlast] at hstands
      exact hstands.prompt hm
    lasting := by
      intro t b hlast
      rw [hlast] at hstands
      exact hstands.lasting }

/-- A worker with a positive interval keeps its pace whatever its calls do and
however it is started and stopped. -/
theorem worker_paced [Archimedean τ] (hpos : 0 < interval) (name : String) (now : τ)
    (script : List (Behaviour τ)) (ops : List (Op τ)) :
    ∃ w, Worker.new? name interval = some w ∧
      (∀ fuel, Paced interval script (run fuel ⟨w, now, script, none⟩ ops)) ∧
      ∃ enough, ∀ fuel ≥ enough,
        (run fuel ⟨w, now, script, none⟩ ops).after.now = now + elapsed ops := by
  have hstands : Stands interval none ⟨⟨name, interval, none⟩, now, script, none⟩ :=
    ⟨rfl, .fresh, by rintro _ ⟨⟩⟩
  obtain ⟨enough, henough⟩ := exists_fuel hpos ops
  refine ⟨⟨name, interval, none⟩, if_neg (not_le.mpr hpos), ?_, enough, ?_⟩
  · exact fun fuel => run_paced hpos hstands fuel ops
  · exact fun fuel hfuel => henough fuel hfuel _ _ hstands

/-- Calls that take their time, fail and are cancelled, at once or after a pause. -/
def erratic : List (Behaviour Int) :=
  [⟨7, .returns⟩, ⟨0, .fails⟩, ⟨3, .fails⟩, ⟨30, .returns⟩, ⟨2, .cancels⟩]

/-- A second start, a stop during a call, a start again and one after the
cancellation. -/
def handling : List (Op Int) :=
  [.start, .advance 5, .start, .advance 50, .stop, .advance 2, .start, .advance 18, .stop,
    .startDetached, .start, .advance 12]

def handlingMarks : List (Mark Int) :=
  [.started 0, .begun 10 ⟨7, .returns⟩, .returned 17, .begun 27 ⟨0, .fails⟩, .failed 27,
    .begun 37 ⟨3, .fails⟩, .failed 40, .begun 50 ⟨30, .returns⟩, .stopped 55, .started 57,
    .begun 67 ⟨2, .cancels⟩, .cancelled 69, .stopped 75, .started 75, .begun 85 ⟨0, .returns⟩,
    .returned 85]

theorem erratic_worker_paced : (0 : Int) < 10 ∧
    (run 20 ⟨⟨"w", 10, none⟩, 0, erratic, none⟩ handling).marks = handlingMarks ∧
      Paced 10 erratic (run 20 ⟨⟨"w", 10, none⟩, 0, erratic, none⟩ handling) := by
  obtain ⟨w, hw, hpaced, -⟩ := worker_paced (by decide : (0 : Int) < 10) "w" 0 erratic handling
  cases hw
  exact ⟨by decide, rfl, hpaced 20⟩

end Rehearsal

end Household
