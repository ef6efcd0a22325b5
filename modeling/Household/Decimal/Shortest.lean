import Household.Decimal.Binary
import Household.Text.Numeral

/-!
# Shortest decimals

The shortest decimal of a double has the fewest digits that read back as it,
and is the nearest to it among those. For each number of digits the two
neighbours of the value on the decimal grid are tried, in whole numbers.
-/

set_option autoImplicit false

namespace Household.Decimal

open Household.Text

/-- The decimal `digits * 10 ^ exponent`. -/
structure Scientific where
  digits : Nat
  exponent : Int
  deriving DecidableEq, Repr

/-- The reals that round to a double, in quarters of its last place: the
value itself, both ends, and whether the ends belong to them. -/
structure Span where
  value : Nat
  low : Nat
  high : Nat
  closed : Bool
  /-- The exponent of two of a quarter. -/
  exponent : Int

def Binary.span (b : Binary) : Span where
  value := 4 * b.mantissa
  low := if b.mantissa = Nat.pow 2 52 ∧ -1074 < b.exponent then 4 * b.mantissa - 1
    else 4 * b.mantissa - 2
  high := 4 * b.mantissa + 2
  closed := b.mantissa % 2 == 0
  exponent := b.exponent - 2

def Span.contains (s : Span) (num unit : Nat) : Bool :=
  if s.closed then s.low * unit ≤ num && num ≤ s.high * unit
  else s.low * unit < num && num < s.high * unit

/-- The grid of whole multiples of a power of ten: a quarter of the last
place is `unit / step` of a grid point. -/
def Span.unit (s : Span) (power : Int) : Nat :=
  Nat.pow 2 s.exponent.toNat * Nat.pow 10 (-power).toNat

def Span.step (s : Span) (power : Int) : Nat :=
  Nat.pow 2 (-s.exponent).toNat * Nat.pow 10 power.toNat

/-- A neighbour of the value on the grid that reads back, the nearer of two;
of two equally near ones the even one. -/
def Span.onGrid? (s : Span) (power : Int) : Option Scientific :=
  let unit := s.unit power
  let step := s.step power
  let below := s.value * unit / step
  let above := below + 1
  let hasBelow := s.contains (below * step) unit
  let hasAbove := s.contains (above * step) unit
  let down := s.value * unit - below * step
  let up := above * step - s.value * unit
  if hasBelow && hasAbove then
    some ⟨if down < up || (down == up && below % 2 == 0) then below else above, power⟩
  else if hasBelow then some ⟨below, power⟩
  else if hasAbove then some ⟨above, power⟩
  else none

def leadingPower (num den : Nat) : Int :=
  if den ≤ num then (digits (num / den)).length - 1
  else
    let guess := (digits (den / num)).length
    if num * Nat.pow 10 (guess - 1) < den then -(guess : Int) else -((guess : Int) - 1)

def Span.firstOnGrid? (s : Span) (lead : Int) : List Nat → Option Scientific
  | [] => none
  | n::ns =>
    match s.onGrid? (lead - n) with
    | some d => some d
    | none => s.firstOnGrid? lead ns

def Scientific.trimmed : Nat → Scientific → Scientific
  | 0, d => d
  | fuel + 1, d =>
    if d.digits ≠ 0 ∧ d.digits % 10 = 0 then trimmed fuel ⟨d.digits / 10, d.exponent + 1⟩ else d

def Binary.shortest (b : Binary) : Scientific :=
  if b.mantissa = 0 then ⟨0, 0⟩
  else
    let lead := leadingPower b.ratio.1 b.ratio.2
    ((b.span.firstOnGrid? lead (List.range 17)).getD ⟨b.ratio.1, 0⟩).trimmed 20

end Household.Decimal
