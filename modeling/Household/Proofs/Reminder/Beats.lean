import Household.Proofs.Calendar.Comparison
import Household.Proofs.Reminder.Deduplication
import Household.Proofs.Reminder.Requests
import Household.Worker
import Mathlib.Algebra.Order.Ring.Int
import Mathlib.Data.List.Chain

/-!
# Ticks under a worker

A scheduler whose ticks are called by its own worker. The collaborators answer
as they like and take their time over it, and the world goes on while the
worker waits. A tick asks the feed at most once, for a window of one interval
from the time at which the tick began; the next tick is due one interval after
this one has ended.
-/

set_option autoImplicit false

namespace Household.Worker

variable {τ : Type} [Add τ] {w : Worker τ}

theorem due?_start (h : w.phase? = none) (now : τ) :
    (w.start now).1.due? = some (now + w.interval) ∧ (w.start now).1.interval = w.interval := by
  simp [start, running, due?, h]

theorem due?_resume {due : τ} (h : w.due? = some due) (now : τ) :
    (w.call.resume now).due? = some (now + w.interval) ∧
      (w.call.resume now).interval = w.interval := by
  unfold due? at h
  split at h
  · rename_i hphase
    simp [call, resume, due?, hphase]
  · simp at h

theorem new?_eq_some {name : String} {interval : Int} {w : Worker Int}
    (h : new? name interval = some w) : 0 < interval ∧ w.interval = interval ∧ w.phase? = none := by
  unfold new? at h
  split at h
  · simp at h
  · rename_i hpos
    rw [← Option.some.inj h]
    exact ⟨Int.not_le.mp hpos, rfl, rfl⟩

end Household.Worker

namespace Household.Reminder

open Household.Calendar Plan

/-- What collaborators answer, how long they take over it, in microseconds,
and what becomes of the world meanwhile. -/
structure Collaborators (ω : Type) where
  reply : (q : Request) → ω → Except Fault q.Reply
  takes : Request → ω → Nat
  after : Request → ω → ω

/-- A world, the time of the loop and the windows that the feed was asked for. -/
structure Watch (ω : Type) where
  world : ω
  now : Int
  windows : List (Moment × Moment)

def windowOf? : Request → Option (Moment × Moment)
  | .events first last => some (first, last)
  | _ => none

/-- The moment that lies `n` microseconds after the first one of the calendar. -/
def reading (n : Int) : Except Fault Moment :=
  match WallTime.ofMicros? n with
  | some w => .ok ⟨w, .utc, false⟩
  | none => .error (.calendar .outOfRange)

variable {ω : Type}

/-- The clock goes with the time of the loop, from `base` on. -/
def underClock (c : Collaborators ω) (base : Int) : Handler (Watch ω)
  | .clock, x => (reading (base + x.now), x)
  | q, x => (c.reply q x.world,
      ⟨c.after q x.world, x.now + c.takes q x.world, x.windows ++ (windowOf? q).toList⟩)

/-- What lies between the end of a call and the next one, which may come late. -/
structure Wait (ω : Type) where
  late : Nat
  passes : ω → ω

structure Beat where
  due : Int
  begun : Int
  ended : Int
  windows : List (Moment × Moment)

/-- The calls of a worker that ticks the scheduler, one after each wait. -/
def beats (c : Collaborators ω) (base : Int) (s : Scheduler) :
    List (Wait ω) → Worker Int → Watch ω → List Beat
  | [], _, _ => []
  | wait::waits, w, x =>
    match w.due? with
    | none => []
    | some due =>
      let begun := due + wait.late
      let y := (run (underClock c base) s.tick ⟨wait.passes x.world, begun, []⟩).2.2
      ⟨due, begun, y.now, y.windows⟩ :: beats c base s waits (w.call.resume y.now) y

/-- From `n` on, for one interval. -/
structure Opens (interval n : Int) (v : Moment × Moment) : Prop where
  zone : v.1.zone = .utc ∧ v.2.zone = .utc
  first : v.1.wall.micros = n
  last : v.2.wall.micros = n + interval

/-- A call that lasts for no negative time and asks for one window at most. -/
structure Beat.Regular (base interval : Int) (b : Beat) : Prop where
  due_le : b.due ≤ b.begun
  begun_le : b.begun ≤ b.ended
  window : b.windows = [] ∨ ∃ v, b.windows = [v] ∧ Opens interval (base + b.begun) v

/-! One tick -/

section

variable (c : Collaborators ω) (base : Int)

theorem reading_eq_ok {n : Int} {m : Moment} (h : reading n = .ok m) :
    m.zone = .utc ∧ m.wall.micros = n := by
  unfold reading WallTime.ofMicros? at h
  split at h
  · rename_i w hw
    rw [← Except.ok.inj h]
    refine ⟨rfl, ?_⟩
    split at hw
    · rw [← Option.some.inj hw]
    · simp at hw
  · simp at h

theorem now_le_answer (q : Request) (x : Watch ω) : x.now ≤ (underClock c base q x).2.now := by
  cases q with
  | clock => exact Int.le_refl _
  | _ => exact Int.le_add_of_nonneg_right (Int.natCast_nonneg _)

theorem now_le_run {α : Type} (p : Plan α) (x : Watch ω) :
    x.now ≤ (run (underClock c base) p x).2.2.now := by
  induction p generalizing x with
  | done r => exact Int.le_refl _
  | ask q next ih => exact Int.le_trans (now_le_answer c base q x) (ih _ _)
  | report e rest ih => exact ih x

theorem windows_of_concerns {α : Type} {p : Plan α}
    (hp : p.Asks (fun _ => True) (fun q => ∃ household, q.Concerns household fun _ => True))
    (x : Watch ω) : (run (underClock c base) p x).2.2.windows = x.windows := by
  refine run_eq_of_asks (f := Watch.windows) (fun _ _ => trivial) hp ?_ x
  rintro q x ⟨household, hq⟩
  cases q with
  | clock | events => exact absurd hq id
  | _ => exact List.append_nil _

theorem windows_bind {α β : Type} {p : Plan α} {f : α → Plan β}
    (hf : ∀ a y, (run (underClock c base) (f a) y).2.2.windows = y.windows) (x : Watch ω) :
    (run (underClock c base) (p >>= f) x).2.2.windows =
      (run (underClock c base) p x).2.2.windows := by
  show (run (underClock c base) (p.andThen _) x).2.2.windows = _
  rw [run_andThen]
  dsimp only
  split
  · exact hf _ _
  · rfl

theorem run_attempt_bind {α : Type} (q : Request) (f : Except Fault q.Reply → Plan α)
    (x : Watch ω) : run (underClock c base) (attempt (call q) >>= f) x =
      run (underClock c base) (f (underClock c base q x).1) (underClock c base q x).2 := rfl

variable {s : Scheduler} {interval : Int} (hs : s.window = .ok interval)
include hs

theorem upcoming_windows {now : Moment} (hnow : now.zone = .utc) (x : Watch ω) :
    (run (underClock c base) (s.upcoming now) x).2.2.windows = x.windows ∨
      ∃ v, (run (underClock c base) (s.upcoming now) x).2.2.windows = x.windows ++ [v] ∧
        Opens interval now.wall.micros v := by
  unfold Scheduler.upcoming
  rw [hs]
  cases hlast : now.add? interval with
  | none =>
    have hadd : now.add interval = .error .outOfRange := by simp only [Moment.add, hlast]
    simp only [Plan.ofExcept, ok_bind, hadd, error_bind]
    exact .inl rfl
  | some last =>
    obtain ⟨hwall, hzone⟩ := Moment.add?_eq_some hlast
    refine .inr ⟨(now, last), ?_, ⟨hnow, hzone.trans hnow⟩, rfl, hwall⟩
    simp only [Plan.ofExcept, ok_bind, Moment.add_eq_ok hlast]
    rw [run_attempt_bind]
    cases (underClock c base (.events now last) x).1 with
    | ok es => rfl
    | error f => rfl

theorem pass_windows {now : Moment} (hnow : now.zone = .utc) (x : Watch ω) :
    (run (underClock c base) (s.pass now) x).2.2.windows = x.windows ∨
      ∃ v, (run (underClock c base) (s.pass now) x).2.2.windows = x.windows ++ [v] ∧
        Opens interval now.wall.micros v := by
  have hlisted : (underClock c base .households x).2.windows = x.windows := List.append_nil _
  unfold Scheduler.pass
  rw [run_attempt_bind, ← hlisted]
  cases (underClock c base .households x).1 with
  | error f => exact .inl rfl
  | ok households =>
    have hserve (events : List Event) (y : Watch ω) :
        (run (underClock c base) (each (s.serve now events) households) y).2.2.windows =
          y.windows := by
      apply windows_of_concerns
      apply asks_each
      intro household _
      exact (s.serve_concerns now events).mono (fun _ _ _ _ _ _ => trivial) fun q hq => ⟨household, hq⟩
    dsimp only
    rw [windows_bind c base hserve]
    exact upcoming_windows c base hs hnow _

/-- A tick asks the feed at most once, from when it begins on. -/
theorem tick_windows (x : Watch ω) :
    (run (underClock c base) s.tick x).2.2.windows = x.windows ∨
      ∃ v, (run (underClock c base) s.tick x).2.2.windows = x.windows ++ [v] ∧
        Opens interval (base + x.now) v := by
  have hrun : run (underClock c base) s.tick x =
      run (underClock c base) (done (reading (base + x.now)) >>= s.pass) x := rfl
  rw [hrun]
  cases hnow : reading (base + x.now) with
  | error e => exact .inl rfl
  | ok now =>
    obtain ⟨hzone, hwall⟩ := reading_eq_ok hnow
    rw [ok_bind, ← hwall]
    exact pass_windows c base hs hzone x

end

/-! All ticks -/

section

variable (c : Collaborators ω) (base : Int) {s : Scheduler} {w : Worker Int} {due : Int}

theorem beats_cons (hw : w.due? = some due) (wait : Wait ω) (waits : List (Wait ω)) (x : Watch ω) :
    ∃ b y, beats c base s (wait :: waits) w x = b :: beats c base s waits (w.call.resume b.ended) y ∧
      b.due = due ∧ b.begun = due + wait.late ∧
      b = ⟨b.due, b.begun, y.now, y.windows⟩ ∧
      y = (run (underClock c base) s.tick ⟨wait.passes x.world, b.begun, []⟩).2.2 := by
  simp only [beats, hw]
  exact ⟨_, _, rfl, rfl, rfl, rfl, rfl⟩

theorem beats_length (hw : w.due? = some due) (waits : List (Wait ω)) (x : Watch ω) :
    (beats c base s waits w x).length = waits.length := by
  induction waits generalizing w due x with
  | nil => rfl
  | cons wait waits ih =>
    obtain ⟨b, y, hbeats, -⟩ := beats_cons c base hw wait waits x
    rw [hbeats, List.length_cons, List.length_cons, ih (Worker.due?_resume hw b.ended).1 y]

theorem beats_regular {interval : Int} (hs : s.window = .ok interval) (hw : w.due? = some due)
    (waits : List (Wait ω)) (x : Watch ω) :
    ∀ b ∈ beats c base s waits w x, b.Regular base interval := by
  induction waits generalizing w due x with
  | nil => simp [beats]
  | cons wait waits ih =>
    obtain ⟨b, y, hbeats, hdue, hbegun, hb, hy⟩ := beats_cons c base hw wait waits x
    rw [hbeats, List.forall_mem_cons]
    refine ⟨⟨?_, ?_, ?_⟩, ih (Worker.due?_resume hw b.ended).1 y⟩
    · rw [hdue, hbegun]
      omega
    · rw [congrArg Beat.ended hb, hy]
      exact now_le_run c base s.tick _
    · rw [congrArg Beat.windows hb, hy]
      exact tick_windows c base hs _

theorem head_due (hw : w.due? = some due) (waits : List (Wait ω)) (x : Watch ω) :
    ∀ b ∈ (beats c base s waits w x).head?, b.due = due := by
  cases waits with
  | nil => simp [beats]
  | cons wait waits =>
    obtain ⟨b, y, hbeats, hdue, -⟩ := beats_cons c base hw wait waits x
    rw [hbeats]
    simp [hdue]

theorem beats_isChain (hw : w.due? = some due) (waits : List (Wait ω)) (x : Watch ω) :
    (beats c base s waits w x).IsChain (fun b b' => b'.due = b.ended + w.interval) := by
  induction waits generalizing w due x with
  | nil => exact .nil
  | cons wait waits ih =>
    obtain ⟨b, y, hbeats, -⟩ := beats_cons c base hw wait waits x
    obtain ⟨hnext, hinterval⟩ := Worker.due?_resume hw b.ended
    have hrest := ih hnext y
    rw [hinterval] at hrest
    rw [hbeats, List.isChain_cons]
    exact ⟨head_due c base hnext waits y, hrest⟩

end

end Household.Reminder
