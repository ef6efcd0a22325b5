import Household.Table

/-!
# Throttle

Calls are counted per key in fixed windows. The first call opens a window and
passes; later ones pass while the count is within their limit. A call after
the window has closed opens the next one. Times are any values that can be
added and compared.
-/

set_option autoImplicit false

namespace Household

/-- The calls counted so far and the last time that belongs to the window. -/
structure Window (τ : Type) where
  calls : Nat
  closes : τ
  deriving Repr

abbrev Throttle (τ : Type) := Table String (Window τ)

namespace Throttle

variable {τ : Type} [Add τ] [LT τ] [DecidableLT τ]

def open? (t : Throttle τ) (now : τ) (key : String) : Option (Window τ) :=
  match t.get? key with
  | none => none
  | some w => if w.closes < now then none else some w

/-- Counts one call; the result tells whether it passes. -/
def allow (t : Throttle τ) (now : τ) (key : String) (limit : Int) (length : τ) :
    Bool × Throttle τ :=
  match t.open? now key with
  | none => (true, t.put key ⟨1, now + length⟩)
  | some w => (decide ((w.calls + 1 : Nat) ≤ limit), t.put key ⟨w.calls + 1, w.closes⟩)

def closedCount (t : Throttle τ) (now : τ) : Nat := t.count (fun _ w => decide (w.closes < now))

def sweep (t : Throttle τ) (now : τ) : Throttle τ := t.filter (fun _ w => !decide (w.closes < now))

inductive Op (τ : Type) where
  | allow (key : String) (limit : Int) (length : τ)
  | sweep

def step (t : Throttle τ) (now : τ) : Op τ → (Bool ⊕ Nat) × Throttle τ
  | .allow key limit length =>
    (.inl (t.allow now key limit length).1, (t.allow now key limit length).2)
  | .sweep => (.inr (t.closedCount now), t.sweep now)

def answers : Throttle τ → List (τ × Op τ) → List (Bool ⊕ Nat)
  | _, [] => []
  | t, (now, op)::ops => (t.step now op).1 :: answers (t.step now op).2 ops

end Throttle

end Household
