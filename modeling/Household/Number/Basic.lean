import Household.Decimal.Layout

/-!
# Numbers

A number is whole or a double. Whole numbers are added exactly; where a
double takes part the sum is a double. Comparisons are exact in any case.
-/

set_option autoImplicit false

namespace Household

open Household.Decimal Household.Text

inductive Number where
  | whole (n : Int)
  | real (x : Double)
  deriving DecidableEq, Repr

namespace Number

def toDouble : Number → Double
  | whole n => .ofInt n
  | real x => x

def exact : Number → Double
  | whole n => .finite (.ofInt n)
  | real x => x

def add : Number → Number → Number
  | whole a, whole b => whole (a + b)
  | a, b => real (a.toDouble.add b.toDouble)

def less (a b : Number) : Bool := a.exact.less b.exact

instance : Zero Number := ⟨whole 0⟩
instance : Add Number := ⟨add⟩
instance : LT Number := ⟨fun a b => a.less b = true⟩
instance (a b : Number) : Decidable (a < b) := inferInstanceAs (Decidable (a.less b = true))

def atMost (a b : Number) : Bool :=
  !b.less a && a.exact != .notANumber && b.exact != .notANumber

instance : LE Number := ⟨fun a b => a.atMost b = true⟩
instance (a b : Number) : Decidable (a ≤ b) := inferInstanceAs (Decidable (a.atMost b = true))

/-- The difference, as a sum with the opposite. -/
def opposite : Number → Number
  | whole n => whole (-n)
  | real (.finite b) => real (.finite { b with negative := !b.negative })
  | real (.infinite s) => real (.infinite (!s))
  | real .notANumber => real .notANumber

instance : Sub Number := ⟨fun a b => a.add b.opposite⟩

def thousandths (x : Number) : Int :=
  match x with
  | whole n => 1000 * n
  | real (.finite b) =>
    match Double.scale b 1000 with
    | .finite p => p.signed (roundDiv p.ratio.1 p.ratio.2)
    | _ => 0
  | real _ => 0

def text : Number → String
  | whole n => String.ofList (signedDigits n)
  | real x => String.ofList (shown.double x)

def fixed (places : Nat) (x : Number) : String := String.ofList (x.toDouble.fixed places)

end Number

end Household
