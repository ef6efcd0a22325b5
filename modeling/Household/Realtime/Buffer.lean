/-!
# Send buffers

A buffer holds the texts for one connection, at most as many as its size, in
the order they were offered. Closing it leaves a marker behind what is queued;
whoever reads gets the queued texts first and then, at every further read,
the end.
-/

set_option autoImplicit false

namespace Household.Realtime

inductive Item where
  | text (s : String)
  | marker
  deriving DecidableEq, Repr

structure Buffer where
  size : Nat
  queue : List Item
  pending : Nat
  closed : Bool
  deriving DecidableEq, Repr

namespace Buffer

def defaultSize : Int := 16

/-- An empty buffer; its size has to be at least one. -/
def new? (size : Int) : Option Buffer :=
  if size < 1 then none else some ⟨size.toNat, [], 0, false⟩

def refusal (size : Int) : String := s!"maxsize must be >= 1, got {size}"

def offer (b : Buffer) (s : String) : Bool × Buffer :=
  if b.closed || b.size ≤ b.pending then (false, b)
  else (true, { b with queue := b.queue ++ [.text s], pending := b.pending + 1 })

def close (b : Buffer) : Bool × Buffer :=
  if b.closed then (false, b)
  else (true, { b with queue := b.queue ++ [.marker], closed := true })

/-- What a read obtains: a text, or `none` at the end. There is nothing to
read while the queue is empty. The marker stays for later reads. -/
def read? (b : Buffer) : Option (Option String × Buffer) :=
  match b.queue with
  | [] => none
  | .text s::items => some (some s, { b with queue := items, pending := b.pending - 1 })
  | .marker::items => some (none, { b with queue := items ++ [.marker] })

inductive Op where
  | offer (s : String)
  | close
  | read

/-- The buffer after an operation; a read waits while there is nothing. -/
def step (b : Buffer) : Op → Buffer
  | .offer s => (b.offer s).2
  | .close => b.close.2
  | .read =>
    match b.read? with
    | some r => r.2
    | none => b

def run (b : Buffer) : List Op → Buffer
  | [] => b
  | op::ops => run (b.step op) ops

end Buffer

end Household.Realtime
