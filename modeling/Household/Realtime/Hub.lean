import Household.Change
import Household.Log
import Household.Realtime.Buffer

/-!
# The hub

Subscribers are numbered and each owns a buffer. The live ones receive every
broadcast; a full buffer misses the message and holds up nobody. A subscriber
is registered at most once: leaving the hub closes its buffer for good.
-/

set_option autoImplicit false

namespace Household.Realtime

structure Hub where
  buffers : List Buffer
  live : List Nat
  deriving DecidableEq, Repr

inductive HubError where
  | alreadyRegistered
  | alreadyUnregistered
  deriving DecidableEq, Repr

def HubError.message : HubError → String
  | alreadyRegistered => "Subscriber is already registered"
  | alreadyUnregistered => "Subscriber was already unregistered"

namespace Hub

inductive Notice where
  | registered (live : Nat)
  | unregistered (live : Nat)
  | dropped (kind : String)
  | unwritable (kind : String)
  deriving DecidableEq, Repr

namespace Notice

def level : Notice → Log.Level
  | registered _ => .debug
  | unregistered _ => .debug
  | dropped _ => .debug
  | unwritable _ => .error

def text : Notice → String
  | registered live => s!"Registered Subscriber ({live} live)"
  | unregistered live => s!"Unregistered Subscriber ({live} live)"
  | dropped kind => s!"Dropped {kind} for Subscriber: buffer full"
  | unwritable kind => s!"Failed to serialize {kind} broadcast: {Change.unwritable}"

end Notice

def empty : Hub := ⟨[], []⟩

def buffer? (h : Hub) (s : Nat) : Option Buffer := h.buffers[s]?

def setBuffer (h : Hub) (s : Nat) (b : Buffer) : Hub := { h with buffers := h.buffers.set s b }

def subscribe (h : Hub) (b : Buffer) : Nat × Hub :=
  (h.buffers.length, { h with buffers := h.buffers ++ [b] })

def register (h : Hub) (s : Nat) : Except HubError (Hub × List Notice) :=
  if s ∈ h.live then .error .alreadyRegistered
  else
    match h.buffer? s with
    | none => .error .alreadyUnregistered
    | some b =>
      if b.closed then .error .alreadyUnregistered
      else .ok ({ h with live := h.live ++ [s] }, [.registered (h.live.length + 1)])

def closeBuffer (h : Hub) (s : Nat) : Hub :=
  match h.buffer? s with
  | none => h
  | some b => h.setBuffer s b.close.2

/-- Nothing happens to a subscriber that is not live. -/
def unregister (h : Hub) (s : Nat) : Hub × List Notice :=
  if s ∈ h.live then
    let live := h.live.filter (fun t => decide (t ≠ s))
    ({ h.closeBuffer s with live := live }, [.unregistered live.length])
  else (h, [])

/-- What a broadcast leaves: the hub, the number of buffers that accepted the
message, and the number that did not. -/
structure Spread where
  hub : Hub
  delivered : Nat
  dropped : Nat

def offerAll (h : Hub) (text : String) : List Nat → Spread
  | [] => ⟨h, 0, 0⟩
  | s::ss =>
    match h.buffer? s with
    | none => offerAll h text ss
    | some b =>
      let rest := offerAll (h.setBuffer s (b.offer text).2) text ss
      if (b.offer text).1 then { rest with delivered := rest.delivered + 1 }
      else { rest with dropped := rest.dropped + 1 }

/-- Offers a message to every live subscriber; one without a wire text
reaches nobody. -/
def broadcast (h : Hub) (c : Change) : Nat × Hub × List Notice :=
  match c.wireText? with
  | none => (0, h, [.unwritable c.kind])
  | some text =>
    let spread := h.offerAll text h.live
    (spread.delivered, spread.hub, List.replicate spread.dropped (.dropped c.kind))

def unregisterAll (h : Hub) : List Nat → Hub × List Notice
  | [] => (h, [])
  | s::ss =>
    let rest := (h.unregister s).1.unregisterAll ss
    (rest.1, (h.unregister s).2 ++ rest.2)

def close (h : Hub) : Hub × List Notice := h.unregisterAll h.live

inductive Op where
  | register (s : Nat)
  | unregister (s : Nat)
  | broadcast (c : Change)
  | close
  | read (s : Nat)

/-- The hub after an operation; a rejected one changes nothing. -/
def step (h : Hub) : Op → Hub
  | .register s =>
    match h.register s with
    | .ok r => r.1
    | .error _ => h
  | .unregister s => (h.unregister s).1
  | .broadcast c => (h.broadcast c).2.1
  | .close => h.close.1
  | .read s =>
    match h.buffer? s with
    | none => h
    | some b => h.setBuffer s (b.step .read)

def run (h : Hub) : List Op → Hub
  | [] => h
  | op::ops => run (h.step op) ops

theorem run_append (h : Hub) (ops rest : List Op) :
    h.run (ops ++ rest) = (h.run ops).run rest := by
  induction ops generalizing h with
  | nil => rfl
  | cons op ops ih => exact ih _

end Hub

end Household.Realtime
