import Household.Decimal.Shortest

/-!
# Layout of decimals

A layout says between which positions of the point a decimal is written out
in full and how an exponent is written otherwise. Fixed places are rounded
from the exact value, a half to the even neighbour.
-/

set_option autoImplicit false

namespace Household.Decimal

open Household.Text

structure Layout where
  /-- The point stands at most this many places before the first digit. -/
  least : Int
  /-- The point stands at most this many places after the first digit. -/
  greatest : Int
  /-- Whether an exponent that is not negative has a sign. -/
  plus : Bool
  /-- Digits of an exponent at the least. -/
  width : Nat

/-- Numbers shown to people: `1e-05`, `0.0001`, `1e+16`. -/
def shown : Layout := ⟨-3, 16, true, 2⟩

/-- Numbers on the wire: `1e-6`, `0.00001`, `1e16`. -/
def wire : Layout := ⟨-4, 16, false, 1⟩

namespace Layout

def exponentText (l : Layout) (e : Int) : List Char :=
  (if e < 0 then ['-'] else if l.plus then ['+'] else []) ++ padded l.width e.natAbs

/-- The text of a decimal; the point is never left out of a full form. -/
def text (l : Layout) (d : Scientific) : List Char :=
  let ds := digits d.digits
  let point : Int := if d.digits = 0 then 1 else ds.length + d.exponent
  if point < l.least ∨ l.greatest < point then
    (match ds with
      | [] => []
      | [c] => [c]
      | c::cs => c :: '.' :: cs) ++ 'e' :: l.exponentText (point - 1)
  else if point ≤ 0 then '0' :: '.' :: (List.replicate (-point).toNat '0' ++ ds)
  else if point.toNat < ds.length then ds.take point.toNat ++ '.' :: ds.drop point.toNat
  else ds ++ List.replicate (point.toNat - ds.length) '0' ++ ['.', '0']

def double (l : Layout) : Double → List Char
  | .finite b => (if b.negative then ['-'] else []) ++ l.text b.shortest
  | .infinite negative => (if negative then ['-'] else []) ++ ['i', 'n', 'f']
  | .notANumber => ['n', 'a', 'n']

end Layout

def Binary.fixed (b : Binary) (places : Nat) : List Char :=
  let n := roundDiv (b.ratio.1 * Nat.pow 10 places) b.ratio.2
  digits (n / Nat.pow 10 places) ++
    if places = 0 then [] else '.' :: padded places (n % Nat.pow 10 places)

def Double.fixed (places : Nat) : Double → List Char
  | .finite b => (if b.negative then ['-'] else []) ++ b.fixed places
  | .infinite negative => (if negative then ['-'] else []) ++ ['i', 'n', 'f']
  | .notANumber => ['n', 'a', 'n']

end Household.Decimal
