/-!
# Doubles

A double is kept as a sign, a whole mantissa below 2^53 and an exponent of
two, so that sums, products, comparisons and roundings are worked out exactly
in whole numbers and rounded once, to the nearest double, a half to the even
mantissa.
-/

set_option autoImplicit false

namespace Household.Decimal

/-- The value `mantissa * 2 ^ exponent`, negated when `negative` is set. -/
structure Binary where
  negative : Bool
  mantissa : Nat
  exponent : Int
  deriving DecidableEq, Repr

inductive Double where
  | finite (b : Binary)
  | infinite (negative : Bool)
  | notANumber
  deriving DecidableEq, Repr

/-- The whole number nearest to `num / den`; of two the even one. -/
def roundDiv (num den : Nat) : Nat :=
  let q := num / den
  let r := num % den
  if 2 * r < den then q
  else if den < 2 * r then q + 1
  else if q % 2 = 0 then q else q + 1

def leadingBit (num den : Nat) : Int :=
  let e : Int := (num.log2 : Int) - den.log2
  if den * Nat.pow 2 e.toNat ≤ num * Nat.pow 2 (-e).toNat then e else e - 1

namespace Binary

def ratio (b : Binary) : Nat × Nat :=
  (b.mantissa * Nat.pow 2 b.exponent.toNat, Nat.pow 2 (-b.exponent).toNat)

def signed (b : Binary) (n : Nat) : Int := if b.negative then -(n : Int) else n

/-- Numerator of the value over the denominator of `ratio`. -/
def numerator (b : Binary) : Int := b.signed b.ratio.1

def denominator (b : Binary) : Nat := b.ratio.2

def ofInt (n : Int) : Binary := ⟨decide (n < 0), n.natAbs, 0⟩

def toInt? (b : Binary) : Option Int :=
  if b.ratio.1 % b.ratio.2 = 0 then some (b.signed (b.ratio.1 / b.ratio.2)) else none

def whole (b : Binary) : Int := b.signed (b.ratio.1 / b.ratio.2)

def less (a b : Binary) : Bool :=
  a.numerator * b.denominator < b.numerator * a.denominator

end Binary

namespace Double

def round (negative : Bool) (num den : Nat) : Double :=
  if num = 0 then finite ⟨negative, 0, -1074⟩
  else
    let q := max (leadingBit num den - 52) (-1074)
    let m := roundDiv (num * Nat.pow 2 (-q).toNat) (den * Nat.pow 2 q.toNat)
    let b : Binary := if m = Nat.pow 2 53 then ⟨negative, Nat.pow 2 52, q + 1⟩ else ⟨negative, m, q⟩
    if 971 < b.exponent then infinite negative else finite b

def ofInt (n : Int) : Double := round (decide (n < 0)) n.natAbs 1

/-- The double nearest to `digits * 10 ^ exponent` under a sign. -/
def ofDecimal (negative : Bool) (digits : Nat) (exponent : Int) : Double :=
  let size : Int := digits.log2 / 3 + exponent
  if digits = 0 ∨ size < -400 then finite ⟨negative, 0, -1074⟩
  else if 400 < exponent then infinite negative
  else round negative (digits * Nat.pow 10 exponent.toNat) (Nat.pow 10 (-exponent).toNat)

def zero : Double := finite ⟨false, 0, -1074⟩

/-- Two zeros of one sign keep it; other sums that vanish are positive. -/
def add : Double → Double → Double
  | finite a, finite b =>
    let num := a.numerator * b.denominator + b.numerator * a.denominator
    round (decide (num < 0) || (num == 0 && a.negative && b.negative)) num.natAbs
      (a.denominator * b.denominator)
  | notANumber, _ => notANumber
  | _, notANumber => notANumber
  | infinite s, infinite t => if s = t then infinite s else notANumber
  | infinite s, finite _ => infinite s
  | finite _, infinite t => infinite t

def scale (b : Binary) (n : Nat) : Double := round b.negative (b.ratio.1 * n) b.ratio.2

/-- Not a number is neither less nor greater than anything. -/
def less : Double → Double → Bool
  | finite a, finite b => a.less b
  | infinite s, infinite t => s && !t
  | infinite s, finite _ => s
  | finite _, infinite t => !t
  | _, _ => false

end Double

end Household.Decimal
