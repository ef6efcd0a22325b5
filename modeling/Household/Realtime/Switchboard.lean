import Household.Realtime.Session

/-!
# Switchboards

A switchboard is a hub with the sessions of its subscribers. Everything that
happens on it is a sequence of events: a subscriber joins, with a connection
or without, someone uses the hub from outside, a session begins to serve or
makes its next move. The events of different sessions come in any order.
-/

set_option autoImplicit false

namespace Household.Realtime

structure Switchboard where
  hub : Hub
  /-- For each subscriber the session of its connection, if it has one. -/
  sessions : List (Option Session)
  deriving DecidableEq, Repr

namespace Switchboard

def empty : Switchboard := ⟨.empty, []⟩

def session? (b : Switchboard) (s : Nat) : Option Session := b.sessions[s]?.join

def withHub (b : Switchboard) (h : Hub) : Switchboard := { b with hub := h }

/-- A new subscriber with its buffer, and with a session made for its number
if it has a connection. -/
def join (b : Switchboard) (buffer : Buffer) (session? : Nat → Option Session) : Switchboard :=
  ⟨(b.hub.subscribe buffer).2, b.sessions ++ [session? (b.hub.subscribe buffer).1]⟩

def put (b : Switchboard) (s : Nat) (e : Session.Effect) : Switchboard :=
  ⟨e.hub, b.sessions.set s (some e.session)⟩

def move? (b : Switchboard) (s : Nat) (m : Session.Move) : Option Session.Effect :=
  (b.session? s).map (fun k => Session.move b.hub k m)

inductive Event where
  | subscribe (size : Int)
  | connect (size : Int) (writeTimeout : Number) (closeFault? : Option String)
  | hub (op : Hub.Op)
  | serve (s : Nat)
  | move (s : Nat) (m : Session.Move)

/-- The switchboard after an event; one that is refused changes nothing. -/
def step (b : Switchboard) : Event → Switchboard
  | .subscribe size =>
    match Buffer.new? size with
    | some buffer => b.join buffer (fun _ => none)
    | none => b
  | .connect size writeTimeout closeFault? =>
    match Buffer.new? size with
    | some buffer => b.join buffer (fun s => some (.new s writeTimeout closeFault?))
    | none => b
  | .hub op => b.withHub (b.hub.step op)
  | .serve s =>
    match (b.session? s).map (Session.start b.hub) with
    | some (.ok e) => b.put s e
    | _ => b
  | .move s m =>
    match b.move? s m with
    | some e => b.put s e
    | none => b

def run (b : Switchboard) : List Event → Switchboard
  | [] => b
  | e::es => run (b.step e) es

theorem run_append (b : Switchboard) (es rest : List Event) :
    b.run (es ++ rest) = (b.run es).run rest := by
  induction es generalizing b with
  | nil => rfl
  | cons e es ih => exact ih _

theorem run_concat (b : Switchboard) (pre : List Event) (e : Event) :
    b.run (pre ++ [e]) = (b.run pre).step e :=
  run_append b pre [e]

end Switchboard

end Household.Realtime
