import Household.Realtime.Buffer
import Mathlib.Data.List.Basic

/-!
# Bounded channels

A channel is a queue of texts with room for so many, which can be closed. It
is given by the rules for what may happen next. Along a run no text is lost,
doubled or put out of order; the close succeeds once, and a closed channel
yields what was left in it and then its end at every read.
-/

set_option autoImplicit false

namespace Household.Realtime

namespace Buffer

inductive Event where
  | offer (s : String) (accepted : Bool)
  | close (first : Bool)
  | read (text? : Option String)
  deriving DecidableEq, Repr

namespace Event

def op : Event → Op
  | offer s _ => .offer s
  | close _ => .close
  | read _ => .read

def accepted? : Event → Option String
  | offer s true => some s
  | _ => none

def answer? : Event → Option (Option String)
  | read text? => some text?
  | _ => none

end Event

def accepted (es : List Event) : List String := es.filterMap Event.accepted?

def answers (es : List Event) : List (Option String) := es.filterMap Event.answer?

def obtained (es : List Event) : List String := (answers es).filterMap id

def unread (es : List Event) : List String := (accepted es).drop (obtained es).length

end Buffer

open Buffer (Event Op accepted answers obtained unread)

/-- A queue of texts, and whether more may come. -/
structure Channel where
  waiting : List String
  closed : Bool

namespace Channel

def empty : Channel := ⟨[], false⟩

/-- What may happen at a channel with room for `size` texts. There is no rule
for a read while an open channel is empty: it has to wait. -/
inductive Step (size : Nat) : Channel → Event → Channel → Prop
  | accept {ts : List String} (s : String) : ts.length < size →
      Step size ⟨ts, false⟩ (.offer s true) ⟨ts ++ [s], false⟩
  | full {ts : List String} (s : String) : size ≤ ts.length →
      Step size ⟨ts, false⟩ (.offer s false) ⟨ts, false⟩
  | shut (ts : List String) (s : String) :
      Step size ⟨ts, true⟩ (.offer s false) ⟨ts, true⟩
  | close (ts : List String) : Step size ⟨ts, false⟩ (.close true) ⟨ts, true⟩
  | again (ts : List String) : Step size ⟨ts, true⟩ (.close false) ⟨ts, true⟩
  | next (t : String) (ts : List String) (c : Bool) :
      Step size ⟨t :: ts, c⟩ (.read (some t)) ⟨ts, c⟩
  | ended : Step size ⟨[], true⟩ (.read none) ⟨[], true⟩

inductive Run (size : Nat) : Channel → List Event → Channel → Prop
  | nil (q : Channel) : Run size q [] q
  | cons {q q' q'' : Channel} {e : Event} {es : List Event} :
      Step size q e q' → Run size q' es q'' → Run size q (e :: es) q''

section
variable {size : Nat} {q q' : Channel} {e f : Event} {es : List Event}

theorem Step.deterministic {r : Channel} (h : Step size q e q') (h' : Step size q f r)
    (hop : e.op = f.op) : e = f ∧ q' = r := by
  -- two rules for one operation exclude each other, the last two by the length
  cases h <;> cases h' <;> simp_all [Event.op] <;> omega

/-- What waited and what is accepted is what is obtained and what waits then. -/
theorem Step.conserves (h : Step size q e q') :
    q.waiting ++ accepted [e] = obtained [e] ++ q'.waiting := by
  cases h <;>
    simp [accepted, obtained, answers, List.filterMap_cons, Event.accepted?, Event.answer?]

theorem not_step_empty (text? : Option String) : ¬Step size empty (.read text?) q := by
  intro h
  cases h

theorem Step.closed_iff (h : Step size q e q') :
    q'.closed = true ↔ q.closed = true ∨ e.op = .close := by
  cases h <;> simp [Event.op]

theorem Step.closings (h : Step size q e q') :
    q'.closed.toNat = q.closed.toNat + [e].count (.close true) := by
  cases h <;> simp

theorem accepted_cons (e : Event) (es : List Event) :
    accepted (e :: es) = accepted [e] ++ accepted es :=
  List.filterMap_append (l := [e])

theorem answers_cons (e : Event) (es : List Event) : answers (e :: es) = answers [e] ++ answers es :=
  List.filterMap_append (l := [e])

theorem obtained_cons (e : Event) (es : List Event) :
    obtained (e :: es) = obtained [e] ++ obtained es := by
  rw [obtained, answers_cons, List.filterMap_append]
  rfl

theorem Run.conserves (h : Run size q es q') :
    q.waiting ++ accepted es = obtained es ++ q'.waiting := by
  induction h with
  | nil q => simp [accepted, obtained, answers]
  | @cons q q' q'' e es hstep hrun ih =>
    calc q.waiting ++ accepted (e :: es)
        = q.waiting ++ accepted [e] ++ accepted es := by
          rw [accepted_cons e es, List.append_assoc]
      _ = obtained [e] ++ (q'.waiting ++ accepted es) := by
          rw [hstep.conserves, List.append_assoc]
      _ = obtained (e :: es) ++ q''.waiting := by
          rw [ih, obtained_cons e es, List.append_assoc]

theorem Run.obtained_prefix (h : Run size empty es q) : obtained es <+: accepted es :=
  ⟨q.waiting, h.conserves.symm⟩

theorem Run.unread_eq (h : Run size empty es q) : unread es = q.waiting := by
  have hconserves : accepted es = obtained es ++ q.waiting := h.conserves
  rw [unread, hconserves, List.drop_left]

theorem Run.closed_iff (h : Run size q es q') :
    q'.closed = true ↔ q.closed = true ∨ .close ∈ es.map Event.op := by
  induction h with
  | nil q => simp
  | cons hstep hrun ih =>
    rw [ih, hstep.closed_iff, List.map_cons, List.mem_cons, or_assoc, eq_comm (a := Op.close)]

theorem Run.closings (h : Run size q es q') :
    q'.closed.toNat = q.closed.toNat + es.count (.close true) := by
  induction h with
  | nil q => rfl
  | @cons q q' q'' e es hstep hrun ih =>
    rw [ih, hstep.closings, Nat.add_assoc, ← List.count_append, List.singleton_append]

/-- Once a channel is closed the reads obtain what waits, and then the end. -/
theorem Run.drains (h : Run size q es q') (hq : q.closed = true) :
    ∃ k, answers es <+: q.waiting.map some ++ List.replicate k none := by
  induction h with
  | nil q => exact ⟨0, List.nil_prefix⟩
  | cons hstep hrun ih =>
    obtain ⟨k, hk⟩ := ih (hstep.closed_iff.mpr (.inl hq))
    -- only a read at the end needs one more of the ends
    cases hstep with
    | accept s hroom => cases hq
    | full s hfull => cases hq
    | shut ts s => exact ⟨k, hk⟩
    | close ts => cases hq
    | again ts => exact ⟨k, hk⟩
    | next t ts c => exact ⟨k, (List.prefix_cons_inj (some t)).mpr hk⟩
    | ended => exact ⟨k + 1, (List.prefix_cons_inj none).mpr hk⟩

end

end Channel

end Household.Realtime
