import Household.Log

/-!
# Periodic workers

A worker calls back once an interval, from one interval after its start on,
and once an interval after each call has ended. A failing call does not end
the loop; a stop does, and so does a cancellation out of the call itself.
Times are any values that can be added and compared.
-/

set_option autoImplicit false

namespace Household

/-- Where the loop of a worker stands. After a cancellation out of a call the
loop has ended, but the worker has not been stopped. -/
inductive Phase (τ : Type) where
  | waiting (due : τ)
  | calling
  | ended
  deriving Repr

structure Worker (τ : Type) where
  name : String
  interval : τ
  phase? : Option (Phase τ)

namespace Worker

variable {τ : Type}

/-- How a call ends: it returns, it fails, or a cancellation comes out of it. -/
inductive Ending where
  | returns
  | fails
  | cancels
  deriving Repr

inductive Notice where
  | alreadyRunning
  | started
  | stopped
  | failed
  deriving DecidableEq, Repr

namespace Notice

def level : Notice → Log.Level
  | alreadyRunning => .warning
  | started => .info
  | stopped => .info
  | failed => .error

def text (name pace : String) : Notice → String
  | alreadyRunning => s!"{name} already running"
  | started => s!"{name} started (every {pace}s)"
  | stopped => s!"{name} stopped"
  | failed => s!"{name} tick failed"

end Notice

def refusal (interval : String) : String := s!"interval must be positive, got {interval}"

/-- A worker that has not been started; the interval has to be positive. -/
def new? [Zero τ] [LE τ] [DecidableLE τ] (name : String) (interval : τ) : Option (Worker τ) :=
  if interval ≤ 0 then none else some ⟨name, interval, none⟩

def running (w : Worker τ) : Bool :=
  match w.phase? with
  | some (.waiting _) => true
  | some .calling => true
  | _ => false

def due? (w : Worker τ) : Option τ :=
  match w.phase? with
  | some (.waiting due) => some due
  | _ => none

def start [Add τ] (w : Worker τ) (now : τ) : Worker τ × Notice :=
  if w.running then (w, .alreadyRunning)
  else ({ w with phase? := some (.waiting (now + w.interval)) }, .started)

inductive StartError where
  | noLoop
  deriving DecidableEq, Repr

def StartError.message : StartError → String
  | noLoop => "no running event loop"

/-- Why a start is refused where no loop can run: only a worker that is
running already has no need of one. -/
def detachedRefusal? (w : Worker τ) : Option StartError :=
  if w.running then none else some .noLoop

/-- Stops the loop, also one that has ended by itself. -/
def stop (w : Worker τ) : Worker τ × List Notice :=
  match w.phase? with
  | none => (w, [])
  | some _ => ({ w with phase? := none }, [.stopped])

def call (w : Worker τ) : Worker τ :=
  match w.phase? with
  | some (.waiting _) => { w with phase? := some .calling }
  | _ => w

def resume [Add τ] (w : Worker τ) (now : τ) : Worker τ :=
  match w.phase? with
  | some .calling => { w with phase? := some (.waiting (now + w.interval)) }
  | _ => w

def abandon (w : Worker τ) : Worker τ :=
  match w.phase? with
  | some .calling => { w with phase? := some .ended }
  | _ => w

/-- The call ends at `now`. Only a cancellation ends the loop with it. -/
def endCall [Add τ] (w : Worker τ) (now : τ) : Ending → Worker τ × List Notice
  | .returns => (w.resume now, [])
  | .fails => (w.resume now, [.failed])
  | .cancels => (w.abandon, [])

end Worker

/-- A call of a scripted callback pauses for a while and then ends. -/
structure Behaviour (τ : Type) where
  pause : τ
  ending : Worker.Ending
  deriving Repr

/-- What a worker is seen to do. A start that is refused leaves no mark. -/
inductive Mark (τ : Type) where
  | started (time : τ)
  | begun (time : τ) (behaviour : Behaviour τ)
  | returned (time : τ)
  | failed (time : τ)
  | cancelled (time : τ)
  | stopped (time : τ)
  deriving Repr

def Worker.Ending.mark {τ : Type} (t : τ) : Worker.Ending → Mark τ
  | .returns => .returned t
  | .fails => .failed t
  | .cancels => .cancelled t

/-- A worker under a clock, with a script of how its next calls go; a call
beyond the script returns at once. -/
structure Rehearsal (τ : Type) where
  worker : Worker τ
  now : τ
  script : List (Behaviour τ)
  /-- When the call in flight ends, and how. -/
  ending? : Option (τ × Worker.Ending)

namespace Rehearsal

variable {τ : Type}

structure Outcome (τ : Type) where
  after : Rehearsal τ
  marks : List (Mark τ)
  notices : List Worker.Notice

def Outcome.andThen (o : Outcome τ) (f : Rehearsal τ → Outcome τ) : Outcome τ :=
  let rest := f o.after
  ⟨rest.after, o.marks ++ rest.marks, o.notices ++ rest.notices⟩

variable [Zero τ] [Add τ] [LE τ] [DecidableLE τ]

def nextTime? (r : Rehearsal τ) : Option τ :=
  match r.ending? with
  | some e => some e.1
  | none => r.worker.due?

def nextBehaviour (r : Rehearsal τ) : Behaviour τ := r.script.head?.getD ⟨0, .returns⟩

def finish (r : Rehearsal τ) (e : Worker.Ending) : Outcome τ :=
  ⟨{ r with worker := (r.worker.endCall r.now e).1, ending? := none }, [e.mark r.now],
    (r.worker.endCall r.now e).2⟩

/-- The call that has begun ends at once, unless it pauses. -/
def proceed (b : Behaviour τ) (r : Rehearsal τ) : Outcome τ :=
  if b.pause ≤ 0 then r.finish b.ending
  else ⟨{ r with ending? := some (r.now + b.pause, b.ending) }, [], []⟩

def begin (r : Rehearsal τ) : Outcome τ :=
  let calling : Rehearsal τ := { r with worker := r.worker.call, script := r.script.tail }
  Outcome.andThen ⟨calling, [.begun r.now r.nextBehaviour], []⟩ (proceed r.nextBehaviour)

def fire (r : Rehearsal τ) : Outcome τ :=
  match r.ending? with
  | some e => r.finish e.2
  | none => r.begin

/-- Lets the clock go on to a target through at most so many events. -/
def advance : Nat → Rehearsal τ → τ → Outcome τ
  | 0, r, _ => ⟨r, [], []⟩
  | fuel + 1, r, target =>
    match r.nextTime? with
    | none => ⟨{ r with now := target }, [], []⟩
    | some t =>
      if t ≤ target then (fire { r with now := t }).andThen (fun r => advance fuel r target)
      else ⟨{ r with now := target }, [], []⟩

def start (r : Rehearsal τ) : Outcome τ :=
  ⟨{ r with worker := (r.worker.start r.now).1 },
    if r.worker.running then [] else [.started r.now], [(r.worker.start r.now).2]⟩

/-- A stop drops the call in flight. -/
def stop (r : Rehearsal τ) : Outcome τ :=
  ⟨{ r with worker := r.worker.stop.1, ending? := none },
    if r.worker.phase?.isSome then [.stopped r.now] else [], r.worker.stop.2⟩

inductive Op (τ : Type) where
  | start
  | startDetached
  | stop
  | advance (length : τ)

def refusal? (r : Rehearsal τ) : Op τ → Option Worker.StartError
  | .startDetached => r.worker.detachedRefusal?
  | _ => none

def step (fuel : Nat) (r : Rehearsal τ) : Op τ → Outcome τ
  | .start => r.start
  | .startDetached => if r.worker.detachedRefusal?.isSome then ⟨r, [], []⟩ else r.start
  | .stop => r.stop
  | .advance d => r.advance fuel (r.now + d)

def run (fuel : Nat) : Rehearsal τ → List (Op τ) → Outcome τ
  | r, [] => ⟨r, [], []⟩
  | r, op::ops => (r.step fuel op).andThen (fun r => run fuel r ops)

end Rehearsal

end Household
