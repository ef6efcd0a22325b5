import Household.Worker

/-!
# The log of a worker

A worker is told by the marks that it leaves: loops are started and stopped,
calls begin and end. What may come next and at what time depends on the last
mark only. A log that keeps to this has one call in flight at most, each call
an interval after the mark before it, and none between loops.
-/

set_option autoImplicit false

namespace Household

variable {τ : Type}

namespace Mark

def time : Mark τ → τ
  | started t | begun t _ | returned t | failed t | cancelled t | stopped t => t

/-- From when on a loop waits for its next call: from its start, and from the
end of each call. -/
def waitsFrom? : Mark τ → Option τ
  | started t | returned t | failed t => some t
  | _ => none

def endsLoop : Mark τ → Bool
  | cancelled _ | stopped _ => true
  | _ => false

def isStopped : Mark τ → Bool
  | stopped _ => true
  | _ => false

def behaviour? : Mark τ → Option (Behaviour τ)
  | begun _ b => some b
  | _ => none

def notice? : Mark τ → Option Worker.Notice
  | started _ => some .started
  | failed _ => some .failed
  | stopped _ => some .stopped
  | _ => none

/-- How many calls are in flight after a mark, if there were `n` before it. A
stop drops them all. -/
def callsAfter (n : Nat) : Mark τ → Nat
  | begun _ _ => n + 1
  | returned _ | failed _ | cancelled _ => n - 1
  | stopped _ => 0
  | started _ => n

/-- How many calls are in flight after a mark that came by the rule. -/
def calls : Mark τ → Nat
  | begun _ _ => 1
  | _ => 0

section

variable {m : Mark τ} {t : τ}

theorem endsLoop_of_waitsFrom? (h : m.waitsFrom? = some t) : m.endsLoop = false := by
  cases m with
  | started | returned | failed => rfl
  | _ => cases h

theorem calls_of_waitsFrom? (h : m.waitsFrom? = some t) : m.calls = 0 := by
  cases m with
  | started | returned | failed => rfl
  | _ => cases h

theorem isStopped_of_waitsFrom? (h : m.waitsFrom? = some t) : m.isStopped = false := by
  cases m with
  | started | returned | failed => rfl
  | _ => cases h

theorem calls_of_endsLoop (h : m.endsLoop = true) : m.calls = 0 := by
  cases m with
  | cancelled | stopped => rfl
  | _ => cases h

end

end Mark

namespace Worker.Ending

variable (e : Ending) (t : τ)

theorem time_mark : (e.mark t).time = t := by cases e <;> rfl

theorem callsAfter_mark : (e.mark t).callsAfter 1 = (e.mark t).calls := by cases e <;> rfl

theorem mark_ne_begun (s : τ) (b : Behaviour τ) : e.mark t ≠ .begun s b := by
  cases e <;> simp [mark]

end Worker.Ending

def inFlight (marks : List (Mark τ)) : Nat := marks.foldl Mark.callsAfter 0

/-- The last mark, where `l` was the last one before. -/
def latest (l : Option (Mark τ)) (marks : List (Mark τ)) : Option (Mark τ) :=
  marks.getLast?.or l

theorem latest_none (ms : List (Mark τ)) : latest none ms = ms.getLast? := Option.or_none

theorem latest_cons (l : Option (Mark τ)) (m : Mark τ) (ms : List (Mark τ)) :
    latest l (m :: ms) = latest (some m) ms := by
  rw [latest, latest, List.getLast?_cons]
  cases ms.getLast? <;> rfl

theorem latest_append (l : Option (Mark τ)) (ms ns : List (Mark τ)) :
    latest l (ms ++ ns) = latest (latest l ms) ns := by
  rw [latest, latest, latest, List.getLast?_append, Option.or_assoc]

theorem latest_goesOn {l : Option (Mark τ)} {ms : List (Mark τ)}
    (hl : l.all Mark.endsLoop = false) (h : ∀ m ∈ ms, m.endsLoop = false) :
    (latest l ms).all Mark.endsLoop = false := by
  induction ms generalizing l with
  | nil => exact hl
  | cons m ms ih =>
    rw [List.forall_mem_cons] at h
    rw [latest_cons]
    exact ih h.1 h.2

variable [Zero τ] [Add τ] [LE τ] [DecidableLE τ]

/-- The mark with which a call that began at `t` ends, if it is not dropped. -/
def Behaviour.endMark (t : τ) (b : Behaviour τ) : Mark τ :=
  b.ending.mark (if b.pause ≤ 0 then t else t + b.pause)

inductive Next (interval : τ) : Option (Mark τ) → Mark τ → Prop
  | start {l : Option (Mark τ)} {t : τ} : l.all Mark.endsLoop = true →
      Next interval l (.started t)
  | call {m : Mark τ} {t : τ} {b : Behaviour τ} : m.waitsFrom? = some t →
      Next interval (some m) (.begun (t + interval) b)
  | ending {m : Mark τ} {t : τ} {b : Behaviour τ} : b.endMark t = m →
      Next interval (some (.begun t b)) m
  | stop {m : Mark τ} {t : τ} : m.isStopped = false → Next interval (some m) (.stopped t)

inductive Lawful (interval : τ) : Option (Mark τ) → List (Mark τ) → Prop
  | nil {l : Option (Mark τ)} : Lawful interval l []
  | cons {l : Option (Mark τ)} {m : Mark τ} {ms : List (Mark τ)} : Next interval l m →
      Lawful interval (some m) ms → Lawful interval l (m :: ms)

namespace Next

variable {interval : τ} {l : Option (Mark τ)} {m : Mark τ}

theorem callsAfter (h : Next interval l m) : m.callsAfter (l.elim 0 Mark.calls) = m.calls := by
  cases h with
  | start hl =>
    cases l with
    | none => rfl
    | some x => exact Mark.calls_of_endsLoop hl
  | call hx => exact congrArg (· + 1) (Mark.calls_of_waitsFrom? hx)
  | @ending _ t b hm =>
    subst hm
    exact b.ending.callsAfter_mark _
  | stop _ => rfl

theorem of_over (h : Next interval l m) (hl : l.all Mark.endsLoop = true) :
    (∃ t, m = .started t) ∨ m.endsLoop = true := by
  cases h with
  | @start _ t _ => exact .inl ⟨t, rfl⟩
  | call hx => exact absurd ((Mark.endsLoop_of_waitsFrom? hx).symm.trans hl) Bool.false_ne_true
  | ending _ => cases hl
  | stop _ => exact .inr rfl

theorem of_goesOn (h : Next interval l m) (hm : m.endsLoop = false) :
    (∃ t, m = .started t) ∨ l.all Mark.endsLoop = false := by
  cases h with
  | @start _ t _ => exact .inl ⟨t, rfl⟩
  | call hx => exact .inr (Mark.endsLoop_of_waitsFrom? hx)
  | ending _ => exact .inr rfl
  | stop _ => cases hm

theorem of_call {t : τ} {b : Behaviour τ} (h : Next interval l (.begun t b)) :
    ∃ m s, l = some m ∧ m.waitsFrom? = some s ∧ t = s + interval := by
  cases h with
  | call hm => exact ⟨_, _, rfl, hm, rfl⟩
  | @ending _ s b' hm => exact absurd hm (b'.ending.mark_ne_begun _ t b)

theorem of_begun {t : τ} {b : Behaviour τ} (h : Next interval (some (.begun t b)) m) :
    m = b.endMark t ∨ ∃ s, m = .stopped s := by
  cases h with
  | start hl => cases hl
  | call hm => cases hm
  | ending hm => exact .inl hm.symm
  | stop _ => exact .inr ⟨_, rfl⟩

end Next

namespace Lawful

variable {interval : τ} {l : Option (Mark τ)} {ms ns : List (Mark τ)} {m : Mark τ}

/-! Logs in two parts -/

theorem append (h : Lawful interval l ms) (h' : Lawful interval (latest l ms) ns) :
    Lawful interval l (ms ++ ns) := by
  induction h with
  | nil => exact h'
  | cons hm _ ih =>
    rw [latest_cons] at h'
    exact .cons hm (ih h')

theorem of_append (h : Lawful interval l (ms ++ ns)) :
    Lawful interval l ms ∧ Lawful interval (latest l ms) ns := by
  induction ms generalizing l with
  | nil => exact ⟨.nil, h⟩
  | cons m ms ih =>
    cases h with
    | cons hm h =>
      rw [latest_cons]
      exact ⟨.cons hm (ih h).1, (ih h).2⟩

theorem next (h : Lawful interval l (ms ++ m :: ns)) : Next interval (latest l ms) m := by
  cases h.of_append.2 with
  | cons hm _ => exact hm

/-! What the rule keeps -/

theorem foldl_callsAfter (h : Lawful interval l ms) :
    ms.foldl Mark.callsAfter (l.elim 0 Mark.calls) = (latest l ms).elim 0 Mark.calls := by
  induction h with
  | nil => rfl
  | cons hm _ ih =>
    rw [List.foldl_cons, hm.callsAfter, latest_cons]
    exact ih

theorem inFlight_eq (h : Lawful interval none ms) :
    inFlight ms = (latest none ms).elim 0 Mark.calls := h.foldl_callsAfter

theorem inFlight_le (h : Lawful interval none ms) : inFlight ms ≤ 1 := by
  rw [h.inFlight_eq]
  cases latest none ms with
  | none => exact Nat.zero_le 1
  | some m => cases m with
    | begun => exact Nat.le_refl 1
    | _ => exact Nat.zero_le 1

theorem exists_started {t : τ} {b : Behaviour τ} (hl : l.all Mark.endsLoop = true)
    (h : Lawful interval l (ms ++ .begun t b :: ns)) : ∃ s, .started s ∈ ms := by
  induction ms generalizing l with
  | nil => rcases h.next.of_over hl with ⟨s, hs⟩ | hs <;> cases hs
  | cons m ms ih =>
    cases h with
    | cons hm h =>
      rcases hm.of_over hl with ⟨s, rfl⟩ | hends
      · exact ⟨s, List.mem_cons_self⟩
      · have hl' : (some m).all Mark.endsLoop = true := hends
        obtain ⟨s, hs⟩ := ih hl' h
        exact ⟨s, List.mem_cons_of_mem _ hs⟩

theorem goesOn (h : Lawful interval l ms) (hlast : (latest l ms).all Mark.endsLoop = false) :
    (∃ earlier t later, ms = earlier ++ .started t :: later ∧
      ∀ m ∈ later, m.endsLoop = false) ∨
    l.all Mark.endsLoop = false ∧ ∀ m ∈ ms, m.endsLoop = false := by
  induction h with
  | nil => exact .inr ⟨hlast, List.forall_mem_nil _⟩
  | @cons l m ms hm _ ih =>
    rw [latest_cons] at hlast
    rcases ih hlast with ⟨earlier, t, later, hms, hlater⟩ | ⟨hends, hms⟩
    · exact .inl ⟨m :: earlier, t, later, congrArg (m :: ·) hms, hlater⟩
    · rcases hm.of_goesOn hends with ⟨t, rfl⟩ | hl
      · exact .inl ⟨[], t, ms, rfl, hms⟩
      · exact .inr ⟨hl, List.forall_mem_cons.mpr ⟨hends, hms⟩⟩

/-- A loop goes on from a start until a mark ends it. -/
theorem goesOn_iff (h : Lawful interval none ms) : (latest none ms).all Mark.endsLoop = false ↔
    ∃ earlier t later, ms = earlier ++ .started t :: later ∧
      ∀ m ∈ later, m.endsLoop = false := by
  constructor
  · intro hlast
    rcases h.goesOn hlast with hstarted | ⟨hnone, -⟩
    · exact hstarted
    · cases hnone
  · rintro ⟨earlier, t, later, rfl, hlater⟩
    rw [latest_append, latest_cons]
    exact latest_goesOn rfl hlater

end Lawful

end Household
