import Household.Calendar.Moment
import Household.Text.Numeral

/-!
# Dates and moments as text

Dates are written `YYYY-MM-DD`, moments with the time of day after a
separator, six digits of a fraction when there is one, and the offset of
their zone, with seconds and a fraction when it has them. The full form also
names a region and a set fold. When a moment is read, the name of a region
stands in place of the offset, not after it.
-/

set_option autoImplicit false

namespace Household.Calendar

open Household.Text

def Date.text (d : Date) : String :=
  String.ofList (padded 4 d.civil.year ++ '-' :: padded 2 d.civil.month ++
    '-' :: padded 2 d.civil.day)

def WallTime.timeText (w : WallTime) : List Char :=
  padded 2 w.hour ++ ':' :: padded 2 w.minute ++ ':' :: padded 2 w.second ++
    if w.subsecond = 0 then [] else '.' :: padded 6 w.subsecond

def offsetText (offset : Int) : List Char :=
  let seconds := offset.natAbs / 1000000
  let fraction := offset.natAbs % 1000000
  (if offset < 0 then '-' else '+') ::
    (padded 2 (seconds / 3600) ++ ':' :: padded 2 (seconds / 60 % 60) ++
      (if seconds % 60 = 0 ∧ fraction = 0 then [] else ':' :: padded 2 (seconds % 60)) ++
      (if fraction = 0 then [] else '.' :: padded 6 fraction))

namespace Moment

def zoneLabel (m : Moment) : List Char :=
  match m.zone with
  | .region r => '[' :: (r.name.toList ++ (if m.fold then ";fold=1" else "").toList ++ [']'])
  | _ => []

def plainText (m : Moment) (separator : Char) : List Char :=
  m.date.text.toList ++ separator :: m.wall.timeText ++
    (m.offset?.map offsetText).getD []

def spacedText (m : Moment) : String := String.ofList (m.plainText ' ')

def text (m : Moment) : String := String.ofList (m.plainText 'T' ++ m.zoneLabel)

/-- Exactly `n` digits at the front of a text. -/
private def takeNumber? (n : Nat) (cs : List Char) : Option (Nat × List Char) :=
  if (cs.take n).length = n then (readDigits? (cs.take n)).map (·, cs.drop n) else none

private def skip? (c : Char) : List Char → Option (List Char)
  | [] => none
  | d::ds => if c = d then some ds else none

private def readFraction? : List Char → Option (Nat × List Char)
  | '.'::cs =>
    let ds := cs.takeWhile isAsciiDigit
    if ds.isEmpty || 6 < ds.length then none
    else some (digitsValue ds * Nat.pow 10 (6 - ds.length), cs.dropWhile isAsciiDigit)
  | cs => some (0, cs)

private def readOffset? (cs : List Char) : Option Int := do
  let (h, cs) ← takeNumber? 2 cs
  let cs ← skip? ':' cs
  let (m, cs) ← takeNumber? 2 cs
  let whole : Int := h * microsPerHour + m * microsPerMinute
  if cs.isEmpty then return whole
  let cs ← skip? ':' cs
  let (s, cs) ← takeNumber? 2 cs
  let (fraction, cs) ← readFraction? cs
  if cs.isEmpty then some (whole + (s * 1000000 + fraction : Nat)) else none

private def readZone? : List Char → Option (Zone × Bool)
  | [] => some (.floating, false)
  | ['Z'] => some (.utc, false)
  | '+'::cs => (readOffset? cs).map (fun o => (.fixed o, false))
  | '-'::cs => (readOffset? cs).map (fun o => (.fixed (-o), false))
  | '['::cs =>
    let name := cs.takeWhile (fun c => c != ';' && c != ']')
    match Region.ofName? (String.ofList name), String.ofList (cs.drop name.length) with
    | some r, "]" => some (.region r, false)
    | some r, ";fold=0]" => some (.region r, false)
    | some r, ";fold=1]" => some (.region r, true)
    | _, _ => none
  | _ => none

def ofText? (s : String) : Option Moment := do
  let (year, cs) ← takeNumber? 4 s.toList
  let cs ← skip? '-' cs
  let (month, cs) ← takeNumber? 2 cs
  let cs ← skip? '-' cs
  let (day, cs) ← takeNumber? 2 cs
  let d ← Date.ofCivil? ⟨year, month, day⟩
  let cs ← skip? 'T' cs
  let (hour, cs) ← takeNumber? 2 cs
  let cs ← skip? ':' cs
  let (minute, cs) ← takeNumber? 2 cs
  let cs ← skip? ':' cs
  let (second, cs) ← takeNumber? 2 cs
  let (fraction, cs) ← readFraction? cs
  let (zone, fold) ← readZone? cs
  if hour < 24 ∧ minute < 60 ∧ second < 60 then
    let w ← (WallTime.midnight d).add?
      (((hour * 60 + minute) * 60 + second : Nat) * 1000000 + fraction)
    some ⟨w, zone, fold⟩
  else none

end Moment

end Household.Calendar
