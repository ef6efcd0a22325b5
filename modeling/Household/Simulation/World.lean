import Household.Housekeeping
import Household.Realtime.Switchboard
import Household.Reminder.Tick
import Household.Simulation.Script
import Household.Throttle
import Household.Worker

/-!
# A household under simulation

Everything runs on one virtual clock. What is under way is kept as numbered
tasks; a task that can go on waits its turn in a queue, one that waits for a
time has a timer. A session has each of its texts written by a task of its
own, and only the news of its end gives the session another turn. The requests
of plans are answered here, from the script, the ledger and the throttle.
-/

set_option autoImplicit false

namespace Household.Simulation

open Household.Calendar Household.Realtime Household.Reminder

inductive Engine where
  | scheduler
  | janitor
  deriving DecidableEq, Repr

structure Loggers where
  hub : String
  session : String
  scheduler : String
  janitor : String

inductive Value where
  | nothing
  | flag (b : Bool)
  | text (s : String)
  deriving DecidableEq, Repr

inductive Failure where
  | fault (f : Fault)
  | hub (e : HubError)
  | timeout
  deriving DecidableEq, Repr

inductive Outcome where
  | finished (v : Value)
  | failed (f : Failure)
  | cancelled
  deriving DecidableEq, Repr

/-- Where the loop of a worker stands: not yet waiting, waiting for its next
call, or within a call that goes on with a plan. -/
inductive LoopStage where
  | starting
  | sleeping
  | calling (p : Plan Unit)

/-- Whether a session has begun, and the task that writes for it, if one does. -/
inductive ServeStage where
  | fresh
  | served
  | writing (writer : Nat)

inductive Routine where
  | plan (p : Plan Value)
  | loop (e : Engine) (stage : LoopStage)
  | launch (es : List Engine)
  | halt (es : List Engine) (awaiting : Bool) (closeHub : Bool)
  | serve (member : Nat) (stage : ServeStage)
  | write (member : Nat) (begun : Bool)
  | listen (member : Nat)
  | take (member : Nat)

/-- What waits in the queue: the turn of a task, or the news for a task that
what it waits for has ended, which puts its turn at the end of the queue. -/
inductive Queued where
  | turn (task : Nat)
  | news (task : Nat)
  deriving DecidableEq, Repr

structure Task where
  routine : Routine
  cancelling : Bool
  /-- What is queued when this task ends. -/
  onEnd? : Option Queued
  outcome? : Option Outcome

structure Timer where
  time : Number
  task : Nat

structure Member where
  writes : List WriteBehaviour
  runs : List Nat
  /-- The task that reads from the peer. -/
  listener? : Option Nat
  /-- How many texts had been written before the present step. -/
  written : Nat

structure World where
  loggers : Loggers
  now : Number
  /-- What the clock showed at some virtual time. -/
  clockBase : Moment
  clockStart : Number
  script : Script
  /-- Whether calls of the ledger are noted, and fail by the script. -/
  ledgerNoted : Bool
  scheduler : Scheduler
  janitor : Janitor
  groceryLimit : Int
  groceryWindow : Number
  schedulerWorker : Worker Number
  janitorWorker : Worker Number
  schedulerTask? : Option Nat
  janitorTask? : Option Nat
  throttle : Throttle Number
  ledger : Ledger
  board : Switchboard
  members : List Member
  tasks : List Task
  ready : List Queued
  timers : List Timer
  calls : List Request
  logs : List Log.Entry
  realtimeLogs : List Log.Entry

namespace World

def hub (w : World) : Hub := w.board.hub

def session? (w : World) (m : Nat) : Option Session := w.board.session? m

def log (w : World) (es : List Log.Entry) : World := { w with logs := w.logs ++ es }

def logHub (w : World) (ns : List Hub.Notice) : World :=
  { w with realtimeLogs := w.realtimeLogs ++
      ns.map (fun n => ⟨w.loggers.hub, n.level, n.text⟩) }

def logSession (w : World) (ns : List Session.Notice) : World :=
  { w with realtimeLogs := w.realtimeLogs ++
      ns.map (fun n => ⟨w.loggers.session, n.level, n.text⟩) }

def worker (w : World) : Engine → Worker Number
  | .scheduler => w.schedulerWorker
  | .janitor => w.janitorWorker

def setWorker (w : World) (k : Worker Number) : Engine → World
  | .scheduler => { w with schedulerWorker := k }
  | .janitor => { w with janitorWorker := k }

def engineTask? (w : World) : Engine → Option Nat
  | .scheduler => w.schedulerTask?
  | .janitor => w.janitorTask?

def setEngineTask (w : World) (t? : Option Nat) : Engine → World
  | .scheduler => { w with schedulerTask? := t? }
  | .janitor => { w with janitorTask? := t? }

def logWorker (w : World) (e : Engine) (ns : List Worker.Notice) : World :=
  let k := w.worker e
  let logger :=
    match e with
    | .scheduler => w.loggers.scheduler
    | .janitor => w.loggers.janitor
  w.log (ns.map (fun n => ⟨logger, n.level, n.text k.name (k.interval.fixed 0)⟩))

def callback (w : World) : Engine → Plan Unit
  | .scheduler => w.scheduler.tick
  | .janitor => w.janitor.sweep

def clock (w : World) : Except Fault Moment :=
  match Duration.ofSeconds (w.now - w.clockStart) with
  | .error e => .error (.duration e)
  | .ok d =>
    match w.clockBase.add d with
    | .ok m => .ok m
    | .error e => .error (.calendar e)

/-! Answers to requests -/

inductive Answer (ρ : Type) where
  | reply (r : Except Fault ρ)
  | pause (length : Number) (r : Except Fault ρ)

def serviceReply (w : World) : (q : Request) → World × Answer q.Reply
  | .clock => (w, .reply w.clock)
  | .households => (w, .reply (.ok w.script.households))
  | .events _ _ => (w, .reply (.ok w.script.events))
  | .chores h => (w, .reply (.ok (w.script.choresOf h)))
  | .targets h => (w, .reply (.ok (w.script.targetsOf h)))
  | .isEnabled u h k => (w, .reply (.ok (w.script.isEnabled u h k)))
  | .send t _ =>
    let r := w.script.nextSend t.endpoint
    let w := { w with script := r.2 }
    match r.1 with
    | .succeeds => (w, .reply (.ok ()))
    | .fails f => (w, .reply (.error f))
    | .pauses d => (w, .pause d (.ok ()))
  | .removeEndpoint e => ({ w with script := w.script.removeEndpoint e }, .reply (.ok ()))
  | .wasSent k => (w, .reply (.ok (w.ledger.wasSent k)))
  | .recordSent k =>
    match w.clock with
    | .ok now => ({ w with ledger := w.ledger.record now k }, .reply (.ok ()))
    | .error f => (w, .reply (.error f))
  | .sweepLedger cutoff =>
    match w.ledger.sweep cutoff with
    | .ok l =>
      let n := w.ledger.staleCount cutoff
      ({ w with ledger := l }.log (Ledger.sweepLog n cutoff), .reply (.ok n))
    | .error e => (w, .reply (.error (.calendar e)))
  | .allow key =>
    let r := w.throttle.allow w.now key w.groceryLimit w.groceryWindow
    ({ w with throttle := r.2 }, .reply (.ok r.1))
  | .sweepThrottle =>
    ({ w with throttle := w.throttle.sweep w.now }, .reply (.ok (w.throttle.closedCount w.now)))

def isNoted (w : World) (q : Request) : Bool :=
  match serviceOf? q with
  | none => false
  | some v => !v.isLedger || w.ledgerNoted

def answer (w : World) (q : Request) : World × Answer q.Reply :=
  if w.isNoted q then
    let w := { w with calls := w.calls ++ [q] }
    match serviceOf? q with
    | none => w.serviceReply q
    | some v =>
      let f := w.script.nextFailure v
      let w := { w with script := f.2 }
      match f.1 with
      | some reason => (w, .reply (.error (.failure reason)))
      | none => w.serviceReply q
  else w.serviceReply q

inductive Progress (α : Type) where
  | ended (r : Except Fault α)
  | paused (length : Number) (rest : Plan α)

def drive {α : Type} (w : World) : Plan α → World × Progress α
  | .done r => (w, .ended r)
  | .report e rest => drive (w.log [e]) rest
  | .ask q k =>
    match (w.answer q).2 with
    | .reply r => drive (w.answer q).1 (k r)
    | .pause d r => ((w.answer q).1, .paused d (k r))

/-! Tasks -/

def task? (w : World) (t : Nat) : Option Task := w.tasks[t]?

def modifyTask (w : World) (t : Nat) (f : Task → Task) : World :=
  { w with tasks := w.tasks.modify t f }

def modifyMember (w : World) (m : Nat) (f : Member → Member) : World :=
  { w with members := w.members.modify m f }

def spawn (w : World) (r : Routine) : Nat × World :=
  (w.tasks.length,
    { w with
      tasks := w.tasks ++ [⟨r, false, none, none⟩]
      ready := w.ready ++ [.turn w.tasks.length] })

def wake (w : World) (t : Nat) : World :=
  match w.task? t with
  | none => w
  | some task =>
    if task.outcome?.isSome || w.ready.contains (.turn t) then w
    else { w with ready := w.ready ++ [.turn t] }

/-- Keeps timers in the order of their times, and within one time in the
order they were set. A time that is no number never comes. -/
def insertTimer (x : Timer) : List Timer → List Timer
  | [] => [x]
  | y::ys => if x.time < y.time then x :: y :: ys else y :: insertTimer x ys

def setTimer (w : World) (t : Nat) (length : Number) : World :=
  let time := w.now + length
  if time ≤ time then { w with timers := insertTimer ⟨time, t⟩ w.timers } else w

def dropTimers (w : World) (t : Nat) : World :=
  { w with timers := w.timers.filter (fun x => decide (x.task ≠ t)) }

/-- Lets a task pause: a pause without length only gives way to the others. -/
def pause (w : World) (t : Nat) (length : Number) : World :=
  if length ≤ 0 then w.wake t else w.setTimer t length

def endTask (w : World) (t : Nat) (o : Outcome) : World :=
  let w := w.dropTimers t
  match w.task? t with
  | none => w
  | some task =>
    let w := w.modifyTask t (fun k => { k with outcome? := some o })
    match task.onEnd? with
    | none => w
    | some (.turn u) => w.wake u
    | some (.news u) => { w with ready := w.ready ++ [.news u] }

def hasMail (w : World) (task : Task) : Bool :=
  let filled (m : Nat) : Bool := (w.hub.buffer? m).any (fun b => !b.queue.isEmpty)
  match task.routine with
  | .serve m .served => (w.session? m).any (fun s => s.stage == .receiving) && filled m
  | .take m => filled m
  | _ => false

def wakeReceiving (w : World) : World :=
  w.tasks.zipIdx.foldl (fun w task => if w.hasMail task.1 then w.wake task.2 else w) w

def setBoard (w : World) (b : Switchboard) (ns : List Hub.Notice) : World :=
  ({ w with board := b }.logHub ns).wakeReceiving

def setHub (w : World) (h : Hub) (ns : List Hub.Notice) : World :=
  w.setBoard (w.board.withHub h) ns

def apply (w : World) (m : Nat) (e : Session.Effect) : World :=
  (w.logSession e.notices).setBoard (w.board.put m e) e.hubNotices

def move (w : World) (m : Nat) (v : Session.Move) : World :=
  match w.board.move? m v with
  | none => w
  | some e => w.apply m e

/-- Cancels a task, unless the session it serves has nothing left to cancel. -/
def cancel (w : World) (t : Nat) : World :=
  match w.task? t with
  | none => w
  | some task =>
    if task.outcome?.isSome then w
    else
      let cancelled := ((w.modifyTask t (fun k => { k with cancelling := true })).dropTimers t).wake t
      match task.routine with
      | .serve _ .fresh => cancelled
      | .serve m _ =>
        let w := w.move m .cancel
        if (w.session? m).any Session.cancelling then (w.dropTimers t).wake t else w
      | _ => cancelled

def startEngine (w : World) (e : Engine) : World :=
  let k := w.worker e
  let r := k.start w.now
  let w := (w.setWorker r.1 e).logWorker e [r.2]
  if k.running then w
  else
    let s := w.spawn (.loop e .starting)
    s.2.setEngineTask (some s.1) e

end World

end Household.Simulation
