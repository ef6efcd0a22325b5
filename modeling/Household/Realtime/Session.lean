import Household.Number.Basic
import Household.Realtime.Hub

/-!
# Sessions

A session serves one connection. It registers its subscriber, writes every
text that it reads from the buffer under a deadline, and meanwhile reads what
the peer sends, only to notice when it is gone. However the writing ends, the
subscriber is unregistered, the reader is ended and the connection is closed,
in this order.

A writer of its own writes each text. Once it has ended, the serving goes on
with what came of it, and drops a cancellation that it has not noticed by
then. When the deadline or a cancellation comes first, the writer is told to
end, writes no more and is waited for.

Each move below is one step that nothing can interrupt; any moves of other
sessions and of the hub may lie in between.
-/

set_option autoImplicit false

namespace Household.Realtime

inductive Ending where
  | returned
  | cancelled
  deriving DecidableEq, Repr

/-- How a writer ends that is not told to. -/
inductive Written where
  | sent
  | failed (reason : String)
  | timedOut
  deriving DecidableEq, Repr

def Written.texts (text : String) : Written → List String
  | sent => [text]
  | failed _ => []
  | timedOut => []

inductive Stage where
  | idle
  | receiving
  | writing (text : String)
  | wrote (r : Written)
  | dropping (how : Ending)
  | joining (how : Ending)
  | closing (how : Ending)
  | over (how : Ending)
  deriving DecidableEq, Repr

inductive Reader where
  | absent
  | listening
  | ended
  deriving DecidableEq, Repr

inductive Inbound where
  | text (s : String)
  | gone (reason : String)
  deriving DecidableEq, Repr

structure Session where
  subscriber : Nat
  writeTimeout : Number
  /-- Why closing the connection fails, if it does. -/
  closeFault? : Option String
  stage : Stage
  cancelling : Bool
  reader : Reader
  readerCancelling : Bool
  inbound : List Inbound
  sent : List String
  closes : Nat
  deriving DecidableEq, Repr

namespace Session

inductive Notice where
  | timedOut (limit : Number)
  | writeFailed (reason : String)
  | peerGone (reason : String)
  | discarded (length : Nat)
  | closeFailed (reason : String)
  deriving DecidableEq, Repr

namespace Notice

def level : Notice → Log.Level
  | timedOut _ => .warning
  | writeFailed _ => .warning
  | peerGone _ => .debug
  | discarded _ => .debug
  | closeFailed _ => .debug

def text : Notice → String
  | timedOut limit => s!"Write to Subscriber timed out after {limit.fixed 1}s"
  | writeFailed reason => s!"Write to Subscriber failed: {reason}"
  | peerGone reason => s!"Connection for Subscriber closed: {reason}"
  | discarded length => s!"Discarding {length}-char inbound message from Subscriber"
  | closeFailed reason => s!"Closing connection for Subscriber failed: {reason}"

end Notice

def defaultTimeout : Number := .real (.ofInt 5)

def new (subscriber : Nat) (writeTimeout : Number) (closeFault? : Option String) : Session where
  subscriber := subscriber
  writeTimeout := writeTimeout
  closeFault? := closeFault?
  stage := .idle
  cancelling := false
  reader := .absent
  readerCancelling := false
  inbound := []
  sent := []
  closes := 0

structure Effect where
  hub : Hub
  session : Session
  hubNotices : List Hub.Notice
  notices : List Notice

def start (h : Hub) (s : Session) : Except HubError Effect :=
  match h.register s.subscriber with
  | .error e => .error e
  | .ok (h', ns) => .ok ⟨h', { s with stage := .receiving, reader := .listening }, ns, []⟩

def leave (h : Hub) (s : Session) (how : Ending) (notices : List Notice) : Effect :=
  ⟨(h.unregister s.subscriber).1,
    { s with stage := .joining how, cancelling := false, readerCancelling := true },
    (h.unregister s.subscriber).2, notices⟩

def quiet (h : Hub) (s : Session) : Effect := ⟨h, s, [], []⟩

def receive (h : Hub) (s : Session) : Effect :=
  match h.buffer? s.subscriber with
  | none => quiet h s
  | some b =>
    match b.read? with
    | none => quiet h s
    | some (none, b') => leave (h.setBuffer s.subscriber b') s .returned []
    | some (some text, b') => quiet (h.setBuffer s.subscriber b') { s with stage := .writing text }

def hangUp (h : Hub) (s : Session) (how : Ending) : Effect :=
  quiet h { s with stage := .closing how, closes := s.closes + 1 }

/-- The closing has come to its end; a failure of it is only reported. -/
def endClose (h : Hub) (s : Session) : Effect :=
  match s.stage with
  | .closing how =>
    ⟨h, { s with stage := .over how }, [], s.closeFault?.toList.map .closeFailed⟩
  | _ => quiet h s

inductive Move where
  | proceed
  | wrote (r : Written)
  | deadline
  | dropped
  | closed
  | read
  | arrive (m : Inbound)
  | cancel
  deriving DecidableEq, Repr

def drop (s : Session) (how : Ending) : Session :=
  { s with stage := .dropping how, cancelling := false }

def afterWrite (h : Hub) (s : Session) : Written → Effect
  | .sent => quiet h { s with stage := .receiving }
  | .failed reason => leave h s .returned [.writeFailed reason]
  | .timedOut => leave h s .returned [.timedOut s.writeTimeout]

/-- The serving goes on where it can; a cancellation comes first. -/
def proceed (h : Hub) (s : Session) : Effect :=
  match s.stage with
  | .receiving => if s.cancelling then leave h s .cancelled [] else receive h s
  | .writing _ => if s.cancelling then quiet h (s.drop .cancelled) else quiet h s
  | .wrote r => afterWrite h s r
  | .dropping _ => if s.cancelling then leave h s .cancelled [] else quiet h s
  | .joining how => if s.reader = .ended then hangUp h s how else quiet h s
  | .closing _ => if s.cancelling then quiet h { s with stage := .over .cancelled } else quiet h s
  | _ => quiet h s

def read (h : Hub) (s : Session) : Effect :=
  if s.reader ≠ .listening then quiet h s
  else if s.readerCancelling then quiet h { s with reader := .ended }
  else
    match s.inbound with
    | [] => quiet h s
    | .text t::rest => ⟨h, { s with inbound := rest }, [], [.discarded t.length]⟩
    | .gone reason::rest =>
      ⟨(h.unregister s.subscriber).1, { s with inbound := rest, reader := .ended },
        (h.unregister s.subscriber).2, [.peerGone reason]⟩

/-- The writer has ended; a cancellation that waits for the serving is dropped. -/
def endWrite (h : Hub) (s : Session) (r : Written) : Effect :=
  match s.stage with
  | .writing text =>
    quiet h { s with stage := .wrote r, cancelling := false, sent := s.sent ++ r.texts text }
  | _ => quiet h s

def deadline (h : Hub) (s : Session) : Effect :=
  match s.stage with
  | .writing _ => quiet h (s.drop (if s.cancelling then .cancelled else .returned))
  | _ => quiet h s

def endDrop (h : Hub) (s : Session) : Effect :=
  match s.stage with
  | .dropping how =>
    if s.cancelling then quiet h s
    else leave h s how (if how = .returned then [.timedOut s.writeTimeout] else [])
  | _ => quiet h s

/-- A cancellation strikes while the serving receives, waits for a writer or
closes the connection; one that comes after a write or while it waits for its
reader changes nothing. -/
def cancel (s : Session) : Session :=
  match s.stage with
  | .receiving => { s with cancelling := true }
  | .writing _ => { s with cancelling := true }
  | .dropping _ => { s with cancelling := true }
  | .closing _ => { s with cancelling := true }
  | _ => s

def move (h : Hub) (s : Session) : Move → Effect
  | .proceed => proceed h s
  | .wrote r => endWrite h s r
  | .deadline => deadline h s
  | .dropped => endDrop h s
  | .closed => endClose h s
  | .read => read h s
  | .arrive m => quiet h { s with inbound := s.inbound ++ [m] }
  | .cancel => quiet h (cancel s)

end Session

end Household.Realtime
