import Household.Number.Basic
import Household.Text.Blank
import Household.Text.Split

/-!
# Reading numbers

Settings and identifiers may be given as text: white space around it is
dropped, then come a sign and digits, in which single underscores may part
one digit from the next. A whole number may end in a point and zeros; a real
one is a decimal with an exponent, or a name of infinity or of no number.
-/

set_option autoImplicit false

namespace Household.Number

open Household.Decimal Household.Text

/-- The digits of a run of groups parted by underscores. -/
def groupedDigits? (cs : List Char) : Option (List Char) :=
  let groups := split '_' cs
  if groups.all (fun g => !g.isEmpty && g.all isAsciiDigit) then some groups.flatten else none

def readSign : List Char → Bool × List Char
  | '-'::cs => (true, cs)
  | '+'::cs => (false, cs)
  | cs => (false, cs)

def readInteger? (cs : List Char) : Option Int :=
  let signed := readSign (trim isWhiteSpace cs)
  let whole? :=
    match splitFirst? '.' signed.2 with
    | none => groupedDigits? signed.2
    | some (front, zeros) =>
      if !zeros.isEmpty && zeros.all (· == '0') then groupedDigits? front else none
  whole?.map (fun ds =>
    if signed.1 then -(digitsValue ds : Int) else digitsValue ds)

def optionalDigits? (cs : List Char) : Option (List Char) :=
  if cs.isEmpty then some [] else groupedDigits? cs

/-- Digits before and after a point, not both left out. -/
def readMantissa? (cs : List Char) : Option (List Char × List Char) :=
  match splitFirst? '.' cs with
  | none => (groupedDigits? cs).map (·, [])
  | some (front, back) =>
    match optionalDigits? front, optionalDigits? back with
    | some [], some [] => none
    | some a, some b => some (a, b)
    | _, _ => none

def readExponent? (cs : List Char) : Option Int :=
  (groupedDigits? (readSign cs).2).map (fun ds =>
    if (readSign cs).1 then -(digitsValue ds : Int) else digitsValue ds)

def asciiLower (c : Char) : Char :=
  if 'A' ≤ c ∧ c ≤ 'Z' then Char.ofNat (c.toNat + 32) else c

def readUnsigned? (negative : Bool) (cs : List Char) : Option Double :=
  let lower := cs.map asciiLower
  if lower = ['i', 'n', 'f'] ∨ lower = ['i', 'n', 'f', 'i', 'n', 'i', 't', 'y'] then
    some (.infinite negative)
  else if lower = ['n', 'a', 'n'] then some .notANumber
  else
    let exponent? : Option Int :=
      match splitFirst? 'e' lower with
      | none => some 0
      | some (_, back) => readExponent? back
    let front :=
      match splitFirst? 'e' lower with
      | none => lower
      | some (front, _) => front
    match readMantissa? front, exponent? with
    | some (a, b), some e => some (.ofDecimal negative (digitsValue (a ++ b)) (e - b.length))
    | _, _ => none

def readReal? (cs : List Char) : Option Double :=
  let signed := readSign (trim isWhiteSpace cs)
  readUnsigned? signed.1 signed.2

end Household.Number
