import Household.Recurrence.Rule
import Household.Text.Blank
import Household.Text.Numeral
import Household.Text.Quoted
import Household.Text.Split

/-!
# Reading rules

The text of a rule is a list of parts `KEY=VALUE` between semicolons, in any
order, each key at most once. Each part is read into an entry, and the
entries together give the fields of the rule, with defaults for what is
absent. A number of too many digits is refused for its length, which is a
failure of another kind than a malformed rule.
-/

set_option autoImplicit false

namespace Household.Recurrence

open Household.Calendar Household.Text

inductive Key where
  | frequency
  | interval
  | byDay
  | byMonthDay
  | count
  | last
  deriving DecidableEq, Repr

namespace Key

def all : List Key := [frequency, interval, byDay, byMonthDay, count, last]

def name : Key → String
  | frequency => "FREQ"
  | interval => "INTERVAL"
  | byDay => "BYDAY"
  | byMonthDay => "BYMONTHDAY"
  | count => "COUNT"
  | last => "UNTIL"

def ofName? (s : String) : Option Key := all.find? (fun k => k.name == s)

theorem ofName?_name (k : Key) : ofName? k.name = some k := by cases k <;> decide

end Key

inductive ReadError where
  | malformed (e : RuleError)
  | numberTooLong (digits : Nat)
  deriving DecidableEq, Repr

def digitLimit : Nat := 4300

inductive Entry where
  | frequency (f : Frequency)
  | interval (n : Nat)
  | byDay (days : List Weekday)
  | byMonthDay (n : Nat)
  | count (n : Nat)
  | last (m : Moment)
  deriving DecidableEq, Repr

def Entry.key : Entry → Key
  | frequency _ => .frequency
  | interval _ => .interval
  | byDay _ => .byDay
  | byMonthDay _ => .byMonthDay
  | count _ => .count
  | last _ => .last

def readPositive (key : Key) (value : List Char) : Except ReadError Nat :=
  match readDigits? value with
  | none => .error (.malformed (.malformedNumber key.name (String.ofList value)))
  | some n =>
    if digitLimit < value.length then .error (.numberTooLong value.length)
    else if n < 1 then .error (.malformed (.malformedNumber key.name (String.ofList value)))
    else .ok n

def readDays : List (List Char) → Except ReadError (List Weekday)
  | [] => .ok []
  | c::cs =>
    let code := String.ofList (trim isBlank c)
    match Weekday.ofCode? code with
    | none => .error (.malformed (.unknownDay code))
    | some d => (readDays cs).map (d :: ·)

/-- `HHMMSS`, as seconds after midnight. -/
def readTime? (cs : List Char) : Option Nat :=
  match readDigits? cs with
  | none => none
  | some n =>
    if cs.length = 6 ∧ n / 10000 < 24 ∧ n / 100 % 100 < 60 ∧ n % 100 < 60 then
      some (n / 10000 * 3600 + n / 100 % 100 * 60 + n % 100)
    else none

def readDate? (cs : List Char) : Option Date :=
  match readDigits? cs with
  | none => none
  | some n =>
    if cs.length = 8 then Date.ofCivil? ⟨n / 10000, n / 100 % 100, n % 100⟩ else none

/-- A date, alone or followed by `T`, a time of day and `Z`, in universal time. -/
def readLast? (cs : List Char) : Option Moment :=
  match cs.drop 8 with
  | [] => (readDate? cs).map (fun d => ⟨.midnight d, .utc, false⟩)
  | t::rest =>
    match rest.drop 6 with
    | ['Z'] =>
      if t = 'T' then
        match readDate? (cs.take 8), readTime? (rest.take 6) with
        | some d, some s =>
          ((WallTime.midnight d).add? (s * 1000000)).map (fun w => ⟨w, .utc, false⟩)
        | _, _ => none
      else none
    | _ => none

def readValue (key : Key) (value : List Char) : Except ReadError Entry :=
  match key with
  | .frequency =>
    match Frequency.ofName? (String.ofList value) with
    | some f => .ok (.frequency f)
    | none => .error (.malformed (.unknownFrequency (String.ofList value)))
  | .interval => (readPositive key value).map .interval
  | .byDay => (readDays (split ',' value)).map .byDay
  | .byMonthDay => do
    let n ← readPositive key value
    if n ≤ 31 then return .byMonthDay n
    else .error (.malformed (.malformedNumber key.name (String.ofList value)))
  | .count => (readPositive key value).map .count
  | .last =>
    match readLast? value with
    | some m => .ok (.last m)
    | none => .error (.malformed (.malformedLast (String.ofList value)))

def readPart (seen : List Entry) (part : List Char) : Except ReadError Entry :=
  match splitFirst? '=' part with
  | none => .error (.malformed (.malformedPart (String.ofList part)))
  | some (name, value) =>
    match Key.ofName? (String.ofList name) with
    | none => .error (.malformed (.unsupportedKey (String.ofList name)))
    | some key =>
      if key ∈ seen.map Entry.key then .error (.malformed (.duplicateKey key.name))
      else readValue key value

def readParts (seen : List Entry) : List (List Char) → Except ReadError (List Entry)
  | [] => .ok seen
  | p::ps => do
    let e ← readPart seen p
    readParts (seen ++ [e]) ps

namespace Entry

def frequency? : Entry → Option Frequency
  | frequency f => some f
  | _ => none

def interval? : Entry → Option Nat
  | interval n => some n
  | _ => none

def byDay? : Entry → Option (List Weekday)
  | byDay ds => some ds
  | _ => none

def byMonthDay? : Entry → Option Nat
  | byMonthDay n => some n
  | _ => none

def count? : Entry → Option Nat
  | count n => some n
  | _ => none

def last? : Entry → Option Moment
  | last m => some m
  | _ => none

end Entry

def Fields.ofEntries (f : Frequency) (es : List Entry) : Fields where
  frequency := f
  interval := (es.findSome? Entry.interval?).getD 1
  byDay := (es.findSome? Entry.byDay?).getD []
  byMonthDay := (es.findSome? Entry.byMonthDay?).getD 0
  count := (es.findSome? Entry.count?).getD 0
  last? := es.findSome? Entry.last?

def ruleOfEntries (es : List Entry) : Except ReadError Rule :=
  match es.findSome? Entry.frequency? with
  | none => .error (.malformed .missingFrequency)
  | some f =>
    match (Fields.ofEntries f es).rule with
    | .ok r => .ok r
    | .error e => .error (.malformed e)

def readRule (cs : List Char) : Except ReadError Rule :=
  if cs.isEmpty then .error (.malformed .empty)
  else do
    let es ← readParts [] (split ';' cs)
    ruleOfEntries es

def Rule.ofText (s : String) : Except ReadError Rule := readRule s.toList

def RuleError.message : RuleError → String
  | intervalBelowOne n => s!"interval must be >= 1, got {n}"
  | negativeCount n => s!"count must be >= 0, got {n}"
  | monthDayOutOfRange n => s!"by_month_day out of range: {n}"
  | countWithLast => "COUNT and UNTIL are mutually exclusive"
  | byDayNotWeekly => "BYDAY is only supported with FREQ=WEEKLY"
  | byMonthDayNotMonthly => "BYMONTHDAY is only supported with FREQ=MONTHLY"
  | empty => "empty rule"
  | malformedPart part => s!"invalid rule part: {quote part}"
  | unsupportedKey key => s!"unsupported rule key: {quote key}"
  | duplicateKey key => s!"duplicate rule key: {quote key}"
  | unknownFrequency name => s!"unknown frequency: {quote name}"
  | malformedNumber key value => s!"invalid {key}: {quote value}"
  | malformedLast value => s!"invalid UNTIL: {quote value}"
  | unknownDay code => s!"unknown day: {quote code}"
  | missingFrequency => "FREQ is required"

def ReadError.message : ReadError → String
  | malformed e => e.message
  | numberTooLong n =>
    s!"Exceeds the limit ({digitLimit} digits) for integer string conversion: value has {n} " ++
      "digits; use sys.set_int_max_str_digits() to increase the limit"

end Household.Recurrence
