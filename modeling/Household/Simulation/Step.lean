import Household.Settings
import Household.Simulation.Loop

/-!
# Steps of a simulation

A simulation is built from a configuration and then taken through steps. A
step may start something and let it run on; its result is what it came to by
the end of the step. What was called and reported is kept for each step.
-/

set_option autoImplicit false

namespace Household.Simulation

open Household.Calendar Household.Realtime Household.Reminder

structure Connection where
  writeTimeout : Number
  bufferSize : Int
  /-- How its next writes go. -/
  writes : List WriteBehaviour
  closeFault? : Option String

structure Revision where
  clock? : Option Moment
  households? : Option (List Int)
  targets? : Option (List (Int × List Target))
  events? : Option (List Event)
  chores? : Option (List (Int × List Chore))
  disabled? : Option (List (Int × Int × String))
  failures? : Option (List (Service × List (Option String)))
  sends? : Option (List (String × List SendBehaviour))

inductive Step where
  | revise (r : Revision)
  | settle
  | advance (length : Number)
  | tick
  | grocery (household : Int) (excluded? : Option Int) (item : String)
  | sweep
  | start (e : Engine)
  | startAll
  | stop (e : Engine)
  | stopAll
  | allow (key : String) (limit : Int) (length : Number)
  | wasSent (key : Ledger.Key)
  | recordSent (key : Ledger.Key)
  | subscribe (size : Int)
  | connect (c : Connection)
  | serve (member : Nat)
  | cancel (member run : Nat)
  | arrive (member : Nat) (m : Inbound)
  | register (member : Nat)
  | unregister (member : Nat)
  | offer (member : Nat) (text : String)
  | closeBuffer (member : Nat)
  | take (member : Nat)
  | broadcast (c : Change) (times : Nat)
  | closeHub

inductive StepFailure where
  | task (f : Failure)
  | bufferSize (size : Int)

inductive Result where
  | nothing
  | flag (b : Bool)
  | delivered (counts : List Nat)
  | pending
  | ended (o : Outcome)
  | failed (f : StepFailure)

namespace World

/-- How a task stands: `none` while it is pending. -/
def outcome? (w : World) (t : Nat) : Option Outcome := (w.task? t).bind Task.outcome?

def startTask (fuel : Nat) (w : World) (r : Routine) : Result × World :=
  let s := w.spawn r
  let w := settle fuel s.2
  match w.outcome? s.1 with
  | some o => (.ended o, w)
  | none => (.pending, w)

def takeNow (fuel : Nat) (w : World) (m : Nat) : Result × World :=
  let s := w.spawn (.take m)
  let w := settle fuel s.2
  match w.outcome? s.1 with
  | some o => (.ended o, w)
  | none => (.pending, w.endTask s.1 .cancelled)

def addMember (w : World) (b : Buffer) (session : Nat → Option Session)
    (writes : List WriteBehaviour) : World :=
  { w with
    board := w.board.join b session
    members := w.members ++ [⟨writes, [], none, 0⟩] }

def serveMember (w : World) (m : Nat) : World :=
  let s := w.spawn (.serve m .fresh)
  s.2.modifyMember m (fun k => { k with runs := k.runs ++ [s.1] })

def arriveAt (w : World) (m : Nat) (i : Inbound) : World :=
  let w := w.move m (.arrive i)
  match w.members[m]?.bind Member.listener? with
  | some l => w.wake l
  | none => w

def broadcastTimes (c : Change) : Nat → World → List Nat × World
  | 0, w => ([], w)
  | n + 1, w =>
    let r := w.hub.broadcast c
    let rest := broadcastTimes c n (w.setHub r.2.1 r.2.2)
    (r.1 :: rest.1, rest.2)

def reviseScript (s : Script) (r : Revision) : Script where
  households := r.households?.getD s.households
  targets := r.targets?.getD s.targets
  events := r.events?.getD s.events
  chores := r.chores?.getD s.chores
  disabled := r.disabled?.getD s.disabled
  failures := r.failures?.getD s.failures
  sends := r.sends?.getD s.sends

def revise (w : World) (r : Revision) : World :=
  let w := { w with script := reviseScript w.script r }
  match r.clock? with
  | some m => { w with clockBase := m, clockStart := w.now }
  | none => w

def beginStep (w : World) : World :=
  { w with
    calls := []
    logs := []
    realtimeLogs := []
    members := w.members.mapIdx (fun m k =>
      { k with written := ((w.session? m).map (fun s => s.sent.length)).getD 0 }) }

def performStep (fuel : Nat) (w : World) : Step → Result × World
  | .revise r => (.nothing, w.revise r)
  | .settle => (.nothing, settle fuel w)
  | .advance d => (.nothing, advance fuel w d)
  | .tick => startTask fuel w (.plan (do w.scheduler.tick; pure .nothing))
  | .grocery h x item => startTask fuel w (.plan (do
      let passed ← w.scheduler.grocery h x item
      pure (.flag passed)))
  | .sweep => startTask fuel w (.plan (do w.janitor.sweep; pure .nothing))
  | .start e => (.nothing, w.startEngine e)
  | .startAll => startTask fuel w (.launch [.scheduler, .janitor])
  | .stop e => startTask fuel w (.halt [e] false false)
  | .stopAll => startTask fuel w (.halt [.scheduler, .janitor] false true)
  | .allow key limit length =>
    let r := w.throttle.allow w.now key limit length
    (.flag r.1, { w with throttle := r.2 })
  | .wasSent k => startTask fuel w (.plan (pure (.flag (w.ledger.wasSent k))))
  | .recordSent k =>
    match w.clock with
    | .ok now => startTask fuel { w with ledger := w.ledger.record now k } (.plan (pure .nothing))
    | .error f => startTask fuel w (.plan (Plan.fail f))
  | .subscribe size =>
    match Buffer.new? size with
    | none => (.failed (.bufferSize size), w)
    | some b => (.nothing, w.addMember b (fun _ => none) [])
  | .connect c =>
    match Buffer.new? c.bufferSize with
    | none => (.failed (.bufferSize c.bufferSize), w)
    | some b =>
      (.nothing, w.addMember b (fun m => some (.new m c.writeTimeout c.closeFault?)) c.writes)
  | .serve m => (.nothing, w.serveMember m)
  | .cancel m run =>
    match (w.members[m]?.map Member.runs).bind (fun rs => rs[run]?) with
    | some t => (.nothing, w.cancel t)
    | none => (.nothing, w)
  | .arrive m i => (.nothing, w.arriveAt m i)
  | .register m =>
    match w.hub.register m with
    | .ok r => (.nothing, w.setHub r.1 r.2)
    | .error e => (.failed (.task (.hub e)), w)
  | .unregister m => (.nothing, w.setHub (w.hub.unregister m).1 (w.hub.unregister m).2)
  | .offer m text =>
    match w.hub.buffer? m with
    | none => (.nothing, w)
    | some b => (.flag (b.offer text).1, w.setHub (w.hub.setBuffer m (b.offer text).2) [])
  | .closeBuffer m =>
    match w.hub.buffer? m with
    | none => (.nothing, w)
    | some b => (.flag b.close.1, w.setHub (w.hub.setBuffer m b.close.2) [])
  | .take m => takeNow fuel w m
  | .broadcast c n =>
    let r := broadcastTimes c n w
    (.delivered r.1, r.2)
  | .closeHub => (.nothing, w.setHub w.hub.close.1 w.hub.close.2)

def step (fuel : Nat) (w : World) (s : Step) : Result × World := performStep fuel w.beginStep s

def sortedRealtimeLogs (w : World) : List Log.Entry :=
  w.realtimeLogs.mergeSort (fun a b =>
    if a.logger ≠ b.logger then decide (a.logger < b.logger)
    else if a.level ≠ b.level then decide (a.level.name < b.level.name)
    else !decide (b.text < a.text))

end World

/-! Building a household -/

structure Configuration where
  schedulerInterval : Number
  janitorInterval : Number
  retentionDays : Int
  groceryLimit : Int
  groceryWindow : Number
  /-- Whether grocery notices are throttled at all. -/
  throttled : Bool
  loggers : Loggers
  clock : Moment
  script : Script
  ledgerNoted : Bool

inductive BuildError where
  | interval (x : Number)
  | retention (e : DurationError)

def BuildError.message : BuildError → String
  | interval x => Worker.refusal x.text
  | retention e => e.message

def build (c : Configuration) : Except BuildError World :=
  match Worker.new? "reminder-scheduler" c.schedulerInterval with
  | none => .error (.interval c.schedulerInterval)
  | some scheduler =>
    match Duration.ofDays c.retentionDays with
    | .error e => .error (.retention e)
    | .ok retention =>
      match Worker.new? "janitor" c.janitorInterval with
      | none => .error (.interval c.janitorInterval)
      | some janitor => .ok {
          loggers := c.loggers
          now := 0
          clockBase := c.clock
          clockStart := 0
          script := c.script
          ledgerNoted := c.ledgerNoted
          scheduler := ⟨c.loggers.scheduler, Duration.ofSeconds c.schedulerInterval, c.throttled⟩
          janitor := ⟨c.loggers.janitor, retention⟩
          groceryLimit := c.groceryLimit
          groceryWindow := c.groceryWindow
          schedulerWorker := scheduler
          janitorWorker := janitor
          schedulerTask? := none
          janitorTask? := none
          throttle := Table.empty
          ledger := Table.empty
          board := .empty
          members := []
          tasks := []
          ready := []
          timers := []
          calls := []
          logs := []
          realtimeLogs := [] }

def moduleLoggers : Loggers where
  hub := "hearth.core.hub"
  session := "hearth.core.session"
  scheduler := "hearth.core.reminder_scheduler"
  janitor := "hearth.core.janitor"

def coreLoggers : Loggers where
  hub := "hearth.hub"
  session := "hearth.session"
  scheduler := "hearth.push"
  janitor := "hearth.janitor"

def Configuration.ofParts (clock : Moment) (script : Script) : Configuration where
  schedulerInterval := .real (.ofInt 60)
  janitorInterval := .real (.ofInt 3600)
  retentionDays := Settings.defaults.retentionDays
  groceryLimit := Settings.defaults.groceryLimit
  groceryWindow := .real (.ofInt 60)
  throttled := true
  loggers := moduleLoggers
  clock := clock
  script := script
  ledgerNoted := true

def Configuration.ofSettings (s : Settings) (clock : Moment) (script : Script)
    (ledgerNoted : Bool) : Configuration where
  schedulerInterval := s.schedulerInterval
  janitorInterval := s.janitorInterval
  retentionDays := s.retentionDays
  groceryLimit := s.groceryLimit
  groceryWindow := s.groceryWindow
  throttled := true
  loggers := coreLoggers
  clock := clock
  script := script
  ledgerNoted := ledgerNoted

end Household.Simulation
