import Household.Json.Value
import Household.Number.Reader

/-!
# Reading JSON

White space may stand between the tokens. A number without point and exponent
is whole, any other is the nearest double. A text nests no deeper than it is
long, which bounds the reading.
-/

set_option autoImplicit false

namespace Household.Json

open Household.Text Household.Decimal

def isSpace (c : Char) : Bool := c == ' ' || c == '\n' || c == '\t' || c == '\r'

def skipSpace (cs : List Char) : List Char := cs.dropWhile isSpace

def hexDigit? (c : Char) : Option Nat :=
  if '0' ≤ c ∧ c ≤ '9' then some (c.toNat - 48)
  else if 'a' ≤ c ∧ c ≤ 'f' then some (c.toNat - 87)
  else if 'A' ≤ c ∧ c ≤ 'F' then some (c.toNat - 55)
  else none

def unit? (a b c d : Char) : Option Nat := do
  let a ← hexDigit? a
  let b ← hexDigit? b
  let c ← hexDigit? c
  let d ← hexDigit? d
  some (((a * 16 + b) * 16 + c) * 16 + d)

def isHigh (n : Nat) : Bool := 0xD800 ≤ n && n < 0xDC00
def isLow (n : Nat) : Bool := 0xDC00 ≤ n && n < 0xE000

/-- The units up to the closing quote, and the rest after it. A character
that stands for itself is one unit; an escaped pair is two. -/
def readUnits : List Char → Option (List Nat × List Char)
  | [] => none
  | '"'::cs => some ([], cs)
  | '\\':: 'u'::a::b::c::d::cs =>
    match unit? a b c d with
    | some n => (readUnits cs).map (fun r => (n :: r.1, r.2))
    | none => none
  | '\\'::c::cs =>
    let plain : Option Char :=
      match c with
      | '"' => some '"'
      | '\\' => some '\\'
      | '/' => some '/'
      | 'b' => some '\x08'
      | 'f' => some '\x0c'
      | 'n' => some '\n'
      | 'r' => some '\r'
      | 't' => some '\t'
      | _ => none
    match plain with
    | some p => (readUnits cs).map (fun r => (p.toNat :: r.1, r.2))
    | none => none
  | c::cs => if c.toNat < 32 then none else (readUnits cs).map (fun r => (c.toNat :: r.1, r.2))

/-- The character of a unit that stands alone; half of a pair has none. -/
def unitChar (n : Nat) : Char :=
  if isHigh n || isLow n then '\uFFFD' else Char.ofNat n

def joinPairs : List Nat → List Char
  | [] => []
  | [n] => [unitChar n]
  | m::n::ns =>
    if isHigh m && isLow n then
      Char.ofNat (0x10000 + (m - 0xD800) * 0x400 + (n - 0xDC00)) :: joinPairs ns
    else unitChar m :: joinPairs (n :: ns)

def readChars (cs : List Char) : Option (List Char × List Char) :=
  (readUnits cs).map (fun r => (joinPairs r.1, r.2))

def readRun (cs : List Char) : List Char × List Char :=
  (cs.takeWhile isAsciiDigit, cs.dropWhile isAsciiDigit)

def readFraction? : List Char → Option (Option (List Char) × List Char)
  | '.'::cs => if (readRun cs).1.isEmpty then none else some (some (readRun cs).1, (readRun cs).2)
  | cs => some (none, cs)

def readPower? : List Char → Option (Option Int × List Char)
  | c::cs =>
    if c = 'e' ∨ c = 'E' then
      let signed := Number.readSign cs
      let run := readRun signed.2
      if run.1.isEmpty then none
      else
        let n : Int := digitsValue run.1
        some (some (if signed.1 then -n else n), run.2)
    else some (none, c :: cs)
  | [] => some (none, [])

def numberOf (negative : Bool) (whole : List Char) (fraction : Option (List Char))
    (power : Option Int) : Number :=
  match fraction, power with
  | none, none =>
    .whole (if negative then -(digitsValue whole : Int) else digitsValue whole)
  | _, _ =>
    let places := fraction.getD []
    .real (.ofDecimal negative (digitsValue (whole ++ places))
      (power.getD 0 - places.length))

def readNumber? (cs : List Char) : Option (Number × List Char) :=
  let negative := cs.head? == some '-'
  let run := readRun (if negative then cs.drop 1 else cs)
  if run.1.isEmpty then none
  else
    match readFraction? run.2 with
    | none => none
    | some (fraction, rest) =>
      (readPower? rest).map (fun p => (numberOf negative run.1 fraction p.1, p.2))

mutual

def readValue : Nat → List Char → Option (Json × List Char)
  | 0, _ => none
  | fuel + 1, cs =>
    match skipSpace cs with
    | 'n':: 'u':: 'l':: 'l'::rest => some (null, rest)
    | 't':: 'r':: 'u':: 'e'::rest => some (bool true, rest)
    | 'f':: 'a':: 'l':: 's':: 'e'::rest => some (bool false, rest)
    | '"'::rest => (readChars rest).map (fun r => (string (String.ofList r.1), r.2))
    | '['::rest =>
      match skipSpace rest with
      | ']'::rest => some (array [], rest)
      | rest => (readItems fuel rest).map (fun r => (array r.1, r.2))
    | '\x7b'::rest =>
      match skipSpace rest with
      | '\x7d'::rest => some (object [], rest)
      | rest => (readMembers fuel rest).map (fun r => (object r.1, r.2))
    | rest => (readNumber? rest).map (fun r => (number r.1, r.2))

def readItems : Nat → List Char → Option (List Json × List Char)
  | 0, _ => none
  | fuel + 1, cs =>
    match readValue fuel cs with
    | none => none
    | some (v, rest) =>
      match skipSpace rest with
      | ','::rest => (readItems fuel rest).map (fun r => (v :: r.1, r.2))
      | ']'::rest => some ([v], rest)
      | _ => none

def readMembers : Nat → List Char → Option (List (String × Json) × List Char)
  | 0, _ => none
  | fuel + 1, cs =>
    match skipSpace cs with
    | '"'::rest =>
      match readChars rest with
      | none => none
      | some (k, rest) =>
        match skipSpace rest with
        | ':'::rest =>
          match readValue fuel rest with
          | none => none
          | some (v, rest) =>
            match skipSpace rest with
            | ','::rest =>
              (readMembers fuel rest).map (fun r => ((String.ofList k, v) :: r.1, r.2))
            | '\x7d'::rest => some ([(String.ofList k, v)], rest)
            | _ => none
        | _ => none
    | _ => none

end

def ofChars? (cs : List Char) : Option Json :=
  match readValue (cs.length + 1) cs with
  | some (v, rest) => if (skipSpace rest).isEmpty then some v else none
  | none => none

def ofText? (s : String) : Option Json := ofChars? s.toList

end Household.Json
