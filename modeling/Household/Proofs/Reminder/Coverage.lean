import Household.Proofs.Reminder.Beats
import Household.Simulation.Step

/-!
# What the windows leave out

The windows of a worker's ticks follow one another in time. Between the end of
one and the beginning of the next lies what the earlier tick took and what the
later one came late by, so they leave nothing out exactly if no time passes
but in waiting.
-/

set_option autoImplicit false

namespace Household.Reminder

open Household.Calendar Plan

/-- An instant of universal time lies in a window of the call. -/
def Beat.Covers (b : Beat) (t : Int) : Prop :=
  ∃ v ∈ b.windows, v.1.wall.micros ≤ t ∧ t < v.2.wall.micros

/-- No time passes in a call, nor after the next one is due. -/
def Prompt (b b' : Beat) : Prop := b.ended = b.begun ∧ b'.begun = b'.due

/-- Calls that ask for a window each, an interval after one another at least. -/
structure Timetable (base interval : Int) (bs : List Beat) : Prop where
  regular : ∀ b ∈ bs, b.Regular base interval
  asking : ∀ b ∈ bs, b.windows ≠ []
  due : bs.IsChain (fun b b' => b'.due = b.ended + interval)

section

variable {base interval : Int} {b b' : Beat} {bs : List Beat}

theorem Beat.Regular.covers_iff (h : b.Regular base interval) (hne : b.windows ≠ []) {t : Int} :
    b.Covers t ↔ base + b.begun ≤ t ∧ t < base + b.begun + interval := by
  rcases h.window with hnil | ⟨v, hv, hopens⟩
  · exact absurd hnil hne
  · simp [Beat.Covers, hv, hopens.first, hopens.last]

theorem Beat.Regular.gap (h : b.Regular base interval) (h' : b'.Regular base interval)
    (hdue : b'.due = b.ended + interval) {v v' : Moment × Moment} (hv : v ∈ b.windows)
    (hv' : v' ∈ b'.windows) :
    v'.1.wall.micros = v.2.wall.micros + (b.ended - b.begun) + (b'.begun - b'.due) ∧
      (v'.1.wall.micros ≤ v.2.wall.micros ↔ Prompt b b') := by
  have opens {b : Beat} (h : b.Regular base interval) {v : Moment × Moment} (hv : v ∈ b.windows) :
      Opens interval (base + b.begun) v := by
    rcases h.window with hnil | ⟨u, hu, hopens⟩
    · simp [hnil] at hv
    · rw [hu, List.mem_singleton] at hv
      rwa [hv]
  have hlast := (opens h hv).last
  have hfirst := (opens h' hv').first
  have hbegun := h.begun_le
  have hpunctual := h'.due_le
  unfold Prompt
  omega

namespace Timetable

theorem tail (h : Timetable base interval (b :: bs)) : Timetable base interval bs where
  regular := (List.forall_mem_cons.mp h.regular).2
  asking := (List.forall_mem_cons.mp h.asking).2
  due := (List.isChain_cons.mp h.due).2

theorem begun_lt (h : Timetable base interval (b :: b' :: bs)) : b.begun + interval ≤ b'.begun := by
  have hdue := (List.isChain_cons_cons.mp h.due).1
  have hb := h.regular b (by simp)
  have hb' := h.regular b' (by simp)
  have hend := hb.begun_le
  have hlate := hb'.due_le
  omega

theorem begun_le (h : Timetable base interval (b :: bs)) (hpos : 0 < interval) :
    ∀ b' ∈ b :: bs, b.begun ≤ b'.begun := by
  induction bs generalizing b with
  | nil => simp
  | cons b' bs ih =>
    rw [List.forall_mem_cons]
    refine ⟨Int.le_refl _, ?_⟩
    intro b'' hmem
    have hfirst := h.begun_lt
    have hrest := ih h.tail b'' hmem
    omega

theorem covers_of_mem (h : Timetable base interval bs) (hb : b ∈ bs) {t : Int} :
    b.Covers t ↔ base + b.begun ≤ t ∧ t < base + b.begun + interval :=
  (h.regular b hb).covers_iff (h.asking b hb)

theorem prompt_of_covers (h : Timetable base interval (b :: b' :: bs)) (hpos : 0 < interval)
    {b'' : Beat} (hmem : b'' ∈ b :: b' :: bs) (ht : b''.Covers (base + b.begun + interval)) :
    Prompt b b' := by
  have hbounds := (h.covers_of_mem hmem).mp ht
  have hdue := (List.isChain_cons_cons.mp h.due).1
  have hbegun := (h.regular b (by simp)).begun_le
  have hpunctual := (h.regular b' (by simp)).due_le
  rcases List.mem_cons.mp hmem with rfl | hmem
  · omega
  · have hlate := h.tail.begun_le hpos b'' hmem
    unfold Prompt
    omega

/-- From the beginning of the first call to the end of the last window nothing
is left out exactly if no time passes but in waiting. -/
theorem covers_iff (h : Timetable base interval (b :: bs)) (hpos : 0 < interval) {last : Beat}
    (hlast : (b :: bs).getLast? = some last) :
    (∀ t, base + b.begun ≤ t → t < base + last.begun + interval → ∃ b' ∈ b :: bs, b'.Covers t) ↔
      (b :: bs).IsChain Prompt := by
  induction bs generalizing b with
  | nil =>
    rw [List.getLast?_singleton, Option.some.injEq] at hlast
    subst hlast
    refine iff_of_true ?_ (.singleton b)
    intro t hfirst hlast
    exact ⟨b, by simp, (h.covers_of_mem (by simp)).mpr ⟨hfirst, hlast⟩⟩
  | cons b' bs ih =>
    rw [List.getLast?_cons_cons] at hlast
    have hnext := h.begun_lt
    have hend := h.tail.begun_le hpos last (List.mem_of_getLast? hlast)
    rw [List.isChain_cons_cons]
    refine Iff.trans ?_ (and_congr_right fun _ => ih h.tail hlast)
    constructor
    · intro hall
      obtain ⟨b'', hmem, ht⟩ := hall (base + b.begun + interval) (by omega) (by omega)
      refine ⟨h.prompt_of_covers hpos hmem ht, ?_⟩
      intro t hfirst hlast
      obtain ⟨b'', hmem, hb''⟩ := hall t (by omega) hlast
      have hbounds := (h.covers_of_mem hmem).mp hb''
      rcases List.mem_cons.mp hmem with rfl | hmem
      · omega
      · exact ⟨b'', hmem, hb''⟩
    · rintro ⟨⟨hended, hbegun⟩, hall⟩ t hfirst hlast
      have hdue := (List.isChain_cons_cons.mp h.due).1
      by_cases ht : t < base + b.begun + interval
      · exact ⟨b, by simp, (h.covers_of_mem (by simp)).mpr ⟨hfirst, ht⟩⟩
      · obtain ⟨b'', hmem, hb''⟩ := hall t (by omega) hlast
        exact ⟨b'', List.mem_cons_of_mem _ hmem, hb''⟩

end Timetable

end

/-- Whatever the collaborators do, a worker goes on ticking its scheduler. The
window of a later tick starts no later than that of the one before it ends
exactly if the earlier tick took no time and the later one did not come late;
and the windows leave no instant out exactly if this holds of all of them. -/
theorem windows_meet_iff {ω : Type} {name : String} {interval : Int} {w : Worker Int}
    (hw : Worker.new? name interval = some w) {s : Scheduler} (hs : s.window = .ok interval)
    (c : Collaborators ω) (base start : Int) (x : ω) (waits : List (Wait ω)) :
    let bs := beats c base s waits (w.start start).1 ⟨x, start, []⟩
    bs.length = waits.length ∧ (∀ b ∈ bs, b.Regular base interval) ∧
      (∀ before b b' after, bs = before ++ b :: b' :: after → b'.due = b.ended + interval ∧
        ∀ v ∈ b.windows, ∀ v' ∈ b'.windows,
          v'.1.wall.micros = v.2.wall.micros + (b.ended - b.begun) + (b'.begun - b'.due) ∧
            (v'.1.wall.micros ≤ v.2.wall.micros ↔ Prompt b b')) ∧
      ((∀ b ∈ bs, b.windows ≠ []) → ∀ first ∈ bs.head?, ∀ last ∈ bs.getLast?,
        ((∀ t, base + first.begun ≤ t → t < base + last.begun + interval → ∃ b ∈ bs, b.Covers t) ↔
          bs.IsChain Prompt)) := by
  intro bs
  obtain ⟨hpos, hinterval, hphase⟩ := Worker.new?_eq_some hw
  obtain ⟨hdue, hsame⟩ := Worker.due?_start hphase start
  have hregular : ∀ b ∈ bs, b.Regular base interval := beats_regular c base hs hdue waits _
  have hchain := beats_isChain c base (s := s) hdue waits ⟨x, start, []⟩
  rw [hsame, hinterval] at hchain
  refine ⟨beats_length c base hdue waits _, hregular, ?_, ?_⟩
  · intro before b b' after hbs
    have hcut : (before ++ b :: b' :: after).IsChain
        (fun b b' => b'.due = b.ended + interval) := hbs ▸ hchain
    have hnext := (List.isChain_cons_cons.mp hcut.right_of_append).1
    refine ⟨hnext, fun v hv v' hv' => ?_⟩
    exact (hregular b (by simp [hbs])).gap (hregular b' (by simp [hbs])) hnext hv hv'
  · intro hasking first hfirst last hlast
    have htimetable : Timetable base interval bs := ⟨hregular, hasking, hchain⟩
    cases hbs : bs with
    | nil => simp [hbs] at hfirst
    | cons b rest =>
      rw [hbs] at htimetable hfirst hlast
      rw [List.head?_cons, Option.mem_some_iff] at hfirst
      rw [← hfirst]
      exact htimetable.covers_iff hpos hlast

def minutely : Scheduler := ⟨"hearth.core.reminder_scheduler", .ok 60000000, true⟩

def slowFeed : Collaborators Unit where
  reply
    | .households, _ => .ok [10]
    | .events _ _, _ => .ok []
    | _, _ => .error (.failure "down")
  takes
    | .events _ _, _ => 5000000
    | _, _ => 0
  after _ _ := ()

def slowBeats : List Beat :=
  [⟨60000000, 60000000, 65000000,
      [(⟨⟨63905706090000000, by decide, by decide⟩, .utc, false⟩,
        ⟨⟨63905706150000000, by decide, by decide⟩, .utc, false⟩)]⟩,
    ⟨125000000, 125000000, 130000000,
      [(⟨⟨63905706155000000, by decide, by decide⟩, .utc, false⟩,
        ⟨⟨63905706215000000, by decide, by decide⟩, .utc, false⟩)]⟩]

/-- With the slow feed some instant lies in no window. -/
theorem slow_feed_leaves_out :
    Worker.new? "reminder-scheduler" (60000000 : Int) =
        some ⟨"reminder-scheduler", 60000000, none⟩ ∧
      minutely.window = .ok 60000000 ∧
      beats slowFeed 63905706030000000 minutely [⟨0, id⟩, ⟨0, id⟩]
        (Worker.start ⟨"reminder-scheduler", 60000000, none⟩ 0).1 ⟨(), 0, []⟩ = slowBeats ∧
      ¬∀ t, 63905706030000000 + 60000000 ≤ t → t < 63905706030000000 + 125000000 + 60000000 →
        ∃ b ∈ slowBeats, b.Covers t := by
  have hbeats : beats slowFeed 63905706030000000 minutely [⟨0, id⟩, ⟨0, id⟩]
      (Worker.start ⟨"reminder-scheduler", 60000000, none⟩ 0).1 ⟨(), 0, []⟩ = slowBeats := rfl
  have hw : Worker.new? "reminder-scheduler" (60000000 : Int) =
      some ⟨"reminder-scheduler", 60000000, none⟩ := rfl
  have hs : minutely.window = .ok 60000000 := rfl
  have hmeet := windows_meet_iff hw hs slowFeed 63905706030000000 0 () [⟨0, id⟩, ⟨0, id⟩]
  dsimp only at hmeet
  rw [hbeats] at hmeet
  refine ⟨hw, hs, hbeats, ?_⟩
  intro hall
  have hprompt := (hmeet.2.2.2 (by simp [slowBeats]) _ rfl _ rfl).mp hall
  simp [slowBeats, Prompt] at hprompt

end Household.Reminder

namespace Household.Simulation

open Household.Calendar Household.Reminder

/-- One household with an event to announce and a target that takes five
seconds to be pushed to. -/
def slowTarget : Script where
  households := [10]
  targets := [(10, [⟨1, "https://push.example/a"⟩])]
  events := [⟨7, "Dentist", 10, .minutes 15⟩]
  chores := []
  disabled := []
  failures := []
  sends := [("https://push.example/a", [.pauses (.whole 5)])]

def slowHousehold : Configuration where
  schedulerInterval := .whole 60
  janitorInterval := .whole 3600
  retentionDays := Settings.defaults.retentionDays
  groceryLimit := Settings.defaults.groceryLimit
  groceryWindow := .whole 60
  throttled := true
  loggers := moduleLoggers
  clock := ⟨⟨63905706030000000, by decide, by decide⟩, .utc, false⟩
  script := slowTarget
  ledgerNoted := true

/-- The scheduler is started and runs for 130 seconds: it ticks twice, and the
second window starts five seconds after the end of the first. -/
theorem slow_push_leaves_gap :
    ∃ w, build slowHousehold = .ok w ∧ ∃ first last first' last',
      ((w.startEngine .scheduler).advance 100 (.whole 130)).calls.filterMap windowOf? =
        [(first, last), (first', last')] ∧
        first'.wall.micros = last.wall.micros + 5000000 :=
  ⟨_, rfl, _, _, _, _, rfl, rfl⟩

end Household.Simulation
