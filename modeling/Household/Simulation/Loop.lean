import Household.Simulation.World

/-!
# The run of a simulation

Settling lets every task go on that can, in the order of the queue, until
none is left. Advancing settles, then goes from timer to timer up to a time;
timers of one time go off in the order they were set.
-/

set_option autoImplicit false

namespace Household.Simulation

open Household.Calendar Household.Realtime Household.Reminder

namespace World

structure Turn where
  world : World
  again : Bool

/-- A session has a text to write. A writer is set up under the deadline; one
without any time is told to end before it begins. -/
def beginWrite (w : World) (t m : Nat) (s : Session) : World :=
  let late := decide (s.writeTimeout ≤ 0)
  let writer := (if late then w else w.setTimer t s.writeTimeout).spawn (.write m false)
  let w := writer.2.modifyTask writer.1 (fun k =>
    { k with onEnd? := some (.news t), cancelling := late })
  let w := w.modifyTask t (fun k => { k with routine := .serve m (.writing writer.1) })
  if late then w.move m .deadline else w

def endWriter (w : World) (t m : Nat) (r : Written) (o : Outcome) : World :=
  (w.move m (.wrote r)).endTask t o

def writeTurn (w : World) (t m : Nat) (task : Task) (begun : Bool) : World :=
  if task.cancelling then w.endTask t .cancelled
  else if begun then w.endWriter t m .sent (.finished .nothing)
  else
    let writes := (w.members[m]?.map Member.writes).getD []
    let w := w.modifyMember m (fun k => { k with writes := writes.tail })
    match writes.head?.getD .succeeds with
    | .succeeds => w.endWriter t m .sent (.finished .nothing)
    | .timesOut => w.endWriter t m .timedOut (.failed .timeout)
    | .fails reason => w.endWriter t m (.failed reason) (.failed (.fault (.failure reason)))
    | .pauses d => (w.modifyTask t (fun k => { k with routine := .write m true })).pause t d

/-- A turn of a session that has a writer: it hears of its end, or else of the
deadline or a cancellation, after which it tells the writer to end. -/
def awaitWriter (w : World) (t m writer : Nat) (s : Session) : Turn :=
  let served := w.modifyTask t (fun k => { k with routine := .serve m .served })
  match s.stage with
  | .wrote _ => ⟨(served.dropTimers t).move m .proceed, true⟩
  | .writing _ => ⟨(w.move m (if s.cancelling then .proceed else .deadline)).cancel writer, false⟩
  | _ => ⟨served.move m (if s.cancelling then .proceed else .dropped), true⟩

def joinReader (w : World) (t m : Nat) (s : Session) (how : Ending) : Turn :=
  if s.reader = .ended then
    let w := (w.move m .proceed).move m .closed
    match how with
    | .returned => ⟨w.endTask t (.finished .nothing), false⟩
    | .cancelled => ⟨w.endTask t .cancelled, false⟩
  else
    match w.members[m]?.bind Member.listener? with
    | none => ⟨w, false⟩
    | some l => ⟨(w.modifyTask l (fun k => { k with onEnd? := some (.turn t) })).wake l, false⟩

def serveTurn (w : World) (t m : Nat) (task : Task) (stage : ServeStage) : Turn :=
  match w.session? m with
  | none => ⟨w, false⟩
  | some s =>
    match stage with
    | .fresh =>
      if task.cancelling then ⟨w.endTask t .cancelled, false⟩
      else
        match Session.start w.hub s with
        | .error e => ⟨w.endTask t (.failed (.hub e)), false⟩
        | .ok e =>
          let l := (w.apply m e).spawn (.listen m)
          let w := l.2.modifyMember m (fun k => { k with listener? := some l.1 })
          ⟨w.modifyTask t (fun k => { k with routine := .serve m .served }), true⟩
    | .writing writer => w.awaitWriter t m writer s
    | .served =>
      match s.stage with
      | .receiving =>
        let w := w.move m .proceed
        match (w.session? m).map Session.stage with
        | some (.writing _) => ⟨w.beginWrite t m s, false⟩
        | some (.joining _) => ⟨w, true⟩
        | _ => ⟨w, false⟩
      | .joining how => w.joinReader t m s how
      | _ => ⟨w, false⟩

def listenTurn (w : World) (t m : Nat) : Turn :=
  let w := w.move m .read
  match w.session? m with
  | none => ⟨w, false⟩
  | some s =>
    if s.reader = .ended then ⟨w.endTask t (.finished .nothing), false⟩
    else ⟨w, !s.inbound.isEmpty⟩

def afterCall (w : World) (t : Nat) (e : Engine) : Progress Unit → World
  | .paused d rest =>
    (w.modifyTask t (fun k => { k with routine := .loop e (.calling rest) })).pause t d
  | .ended r =>
    let w :=
      match r with
      | .ok _ => w
      | .error _ => w.logWorker e [.failed]
    let k := w.worker e
    let w := w.setWorker (k.resume w.now) e
    (w.modifyTask t (fun k => { k with routine := .loop e .sleeping })).setTimer t k.interval

def loopTurn (w : World) (t : Nat) (task : Task) (e : Engine) : LoopStage → Turn
  | .starting =>
    if task.cancelling then ⟨w.endTask t .cancelled, false⟩
    else
      ⟨(w.modifyTask t (fun k => { k with routine := .loop e .sleeping })).setTimer t
        (w.worker e).interval, false⟩
  | .sleeping =>
    if task.cancelling then ⟨w.endTask t .cancelled, false⟩
    else
      let w := w.setWorker (w.worker e).call e
      let r := w.drive (w.callback e)
      ⟨r.1.afterCall t e r.2, false⟩
  | .calling p =>
    if task.cancelling then ⟨w.endTask t .cancelled, false⟩
    else
      let r := w.drive p
      ⟨r.1.afterCall t e r.2, false⟩

/-- A turn of a stop: each worker in turn is cancelled and waited for, and
last the hub is closed if that is asked for. -/
def haltTurn (w : World) (t : Nat) (es : List Engine) (awaiting closeHub : Bool) : Turn :=
  match es with
  | [] =>
    let w := if closeHub then w.setHub w.hub.close.1 w.hub.close.2 else w
    ⟨w.endTask t (.finished .nothing), false⟩
  | e::rest =>
    let next (w : World) : Turn :=
      ⟨w.modifyTask t (fun k => { k with routine := .halt rest false closeHub }), true⟩
    if awaiting then next (w.logWorker e [.stopped])
    else
      match w.engineTask? e with
      | none => next w
      | some l =>
        let w := (w.setWorker (w.worker e).stop.1 e).setEngineTask none e
        if ((w.task? l).bind Task.outcome?).isSome then next (w.logWorker e [.stopped])
        else
        let w := (w.cancel l).modifyTask l (fun k => { k with onEnd? := some (.turn t) })
        ⟨w.modifyTask t (fun k => { k with routine := .halt (e :: rest) true closeHub }), false⟩

def turn (w : World) (t : Nat) : Turn :=
  match w.task? t with
  | none => ⟨w, false⟩
  | some task =>
    match task.routine with
    | .plan p =>
      let r := w.drive p
      match r.2 with
      | .ended (.ok v) => ⟨r.1.endTask t (.finished v), false⟩
      | .ended (.error f) => ⟨r.1.endTask t (.failed (.fault f)), false⟩
      | .paused d rest =>
        ⟨(r.1.modifyTask t (fun k => { k with routine := .plan rest })).pause t d, false⟩
    | .loop e stage => w.loopTurn t task e stage
    | .launch es => ⟨(es.foldl startEngine w).endTask t (.finished .nothing), false⟩
    | .halt es awaiting closeHub => w.haltTurn t es awaiting closeHub
    | .serve m stage => w.serveTurn t m task stage
    | .write m begun => ⟨w.writeTurn t m task begun, false⟩
    | .listen m => w.listenTurn t m
    | .take m =>
      match (w.hub.buffer? m).bind Buffer.read? with
      | none => ⟨w, false⟩
      | some (r, b) =>
        let w := w.endTask t (.finished ((r.map Value.text).getD .nothing))
        ⟨w.setHub (w.hub.setBuffer m b) [], false⟩

def takeTurn (w : World) : Queued → World
  | .news t => w.wake t
  | .turn t =>
    let r := w.turn t
    if r.again then
      { r.world with ready := .turn t :: r.world.ready.filter (fun q => decide (q ≠ .turn t)) }
    else r.world

def settle : Nat → World → World
  | 0, w => w
  | fuel + 1, w =>
    match w.ready with
    | [] => w
    | q::rest => settle fuel (takeTurn { w with ready := rest } q)

def nextTimers (time : Number) (xs : List Timer) : List Timer × List Timer :=
  (xs.takeWhile (fun x => !decide (time < x.time)), xs.dropWhile (fun x => !decide (time < x.time)))

/-- Lets the timers up to `target` go off, for at most `fuel` of their times. -/
def ringUntil (fuel : Nat) (target : Number) : Nat → World → World
  | 0, w => w
  | times + 1, w =>
    match w.timers with
    | [] => { w with now := target }
    | x::_ =>
      if x.time ≤ target then
        let due := nextTimers x.time w.timers
        let w := { w with now := x.time, timers := due.2 }
        ringUntil fuel target times (settle fuel ((due.1.map Timer.task).foldl wake w))
      else { w with now := target }

def advance (fuel : Nat) (w : World) (length : Number) : World :=
  let w := settle fuel w
  ringUntil fuel (w.now + length) fuel w

end World

end Household.Simulation
