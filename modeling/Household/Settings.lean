import Household.Coercion
import Household.Log
import Household.Text.Upper

/-!
# Settings

Eight values steer the household: seven positive numbers and a level of
logging. Each is validated when it is given; one that is not given keeps its
default. Settings from the environment are all given as text, and what is
wrong with them is laid out in a report.
-/

set_option autoImplicit false

namespace Household

open Household.Decimal Household.Text

inductive Setting where
  | schedulerInterval
  | writeTimeout
  | sendBufferSize
  | janitorInterval
  | retentionDays
  | groceryLimit
  | groceryWindow
  | logLevel
  deriving DecidableEq, Repr

namespace Setting

def all : List Setting :=
  [schedulerInterval, writeTimeout, sendBufferSize, janitorInterval, retentionDays,
    groceryLimit, groceryWindow, logLevel]

def name : Setting → String
  | schedulerInterval => "SCHEDULER_INTERVAL_SECONDS"
  | writeTimeout => "WRITE_TIMEOUT_SECONDS"
  | sendBufferSize => "SEND_BUFFER_SIZE"
  | janitorInterval => "JANITOR_INTERVAL_SECONDS"
  | retentionDays => "SENT_RETENTION_DAYS"
  | groceryLimit => "GROCERY_NOTIFY_LIMIT"
  | groceryWindow => "GROCERY_NOTIFY_WINDOW_SECONDS"
  | logLevel => "LOG_LEVEL"

def fallback : Setting → String
  | schedulerInterval => "60"
  | writeTimeout => "5"
  | sendBufferSize => "16"
  | janitorInterval => "3600"
  | retentionDays => "7"
  | groceryLimit => "10"
  | groceryWindow => "60"
  | logLevel => "INFO"

end Setting

structure Settings where
  schedulerInterval : Number
  writeTimeout : Number
  sendBufferSize : Int
  janitorInterval : Number
  retentionDays : Int
  groceryLimit : Int
  groceryWindow : Number
  logLevel : Log.Level
  deriving DecidableEq, Repr

namespace Settings

def defaults : Settings where
  schedulerInterval := .whole 60
  writeTimeout := .whole 5
  sendBufferSize := 16
  janitorInterval := .whole 3600
  retentionDays := 7
  groceryLimit := 10
  groceryWindow := .whole 60
  logLevel := .info

def positiveReal (j : Json) : Except Issue Number := do
  let x ← j.toReal
  if Number.real x ≤ 0 then .error .notPositive else return .real x

def positiveInteger (j : Json) : Except Issue Int := do
  let n ← j.toInteger
  if n ≤ 0 then .error .notPositive else return n

def level (j : Json) : Except Issue Log.Level :=
  match j with
  | .string s =>
    match Log.Level.ofName? (String.ofList (upper (trim isBlank s.toList))) with
    | some l => .ok l
    | none => .error (.unknownLevel j.shown)
  | _ => .error (.unknownLevel j.shown)

def taken {α : Type} (read : Json → Except Issue α) (dflt : α) : Option Json → Except Issue α
  | none => .ok dflt
  | some j => read j

def issueOf {α : Type} (s : Setting) : Except Issue α → List (Setting × Issue)
  | .ok _ => []
  | .error i => [(s, i)]

def ofValues (v : Setting → Option Json) : Except (List (Setting × Issue)) Settings :=
  let interval := taken positiveReal defaults.schedulerInterval (v .schedulerInterval)
  let timeout := taken positiveReal defaults.writeTimeout (v .writeTimeout)
  let size := taken positiveInteger defaults.sendBufferSize (v .sendBufferSize)
  let janitor := taken positiveReal defaults.janitorInterval (v .janitorInterval)
  let days := taken positiveInteger defaults.retentionDays (v .retentionDays)
  let limit := taken positiveInteger defaults.groceryLimit (v .groceryLimit)
  let window := taken positiveReal defaults.groceryWindow (v .groceryWindow)
  let lvl := taken level defaults.logLevel (v .logLevel)
  match interval, timeout, size, janitor, days, limit, window, lvl with
  | .ok a, .ok b, .ok c, .ok d, .ok e, .ok f, .ok g, .ok h => .ok ⟨a, b, c, d, e, f, g, h⟩
  | _, _, _, _, _, _, _, _ =>
    .error (issueOf .schedulerInterval interval ++ issueOf .writeTimeout timeout ++
      issueOf .sendBufferSize size ++ issueOf .janitorInterval janitor ++
      issueOf .retentionDays days ++ issueOf .groceryLimit limit ++
      issueOf .groceryWindow window ++ issueOf .logLevel lvl)

def inEnvironment (env : List (String × String)) (s : Setting) : String :=
  (env.lookup s.name).getD s.fallback

def ofEnvironment (env : List (String × String)) : Except (List (Setting × Issue)) Settings :=
  ofValues (fun s => some (.string (inEnvironment env s)))

def frontBytes : Nat → List Char → List Char
  | _, [] => []
  | n, c::cs => if c.utf8Size ≤ n then c :: frontBytes (n - c.utf8Size) cs else []

def byteCount : List Char → Nat
  | [] => 0
  | c::cs => c.utf8Size + byteCount cs

/-- A text of more than 50 bytes is shown by its first 25 and its last 24. -/
def clip (cs : List Char) : List Char :=
  if byteCount cs ≤ 50 then cs
  else frontBytes 25 cs ++ ['.', '.', '.'] ++ (frontBytes 24 cs.reverse).reverse

def report (env : List (String × String)) (issues : List (Setting × Issue)) : List String :=
  let noun := if issues.length = 1 then "error" else "errors"
  ["ERROR: invalid configuration in environment/.env:",
    s!"{issues.length} validation {noun} for Settings"] ++
  issues.flatMap (fun r =>
    let input := String.ofList (clip (quoteChars (inEnvironment env r.1).toList))
    [r.1.name, s!"  {r.2.message} [type={r.2.code}, input_value={input}, input_type=str]"])

end Settings

def logFormat : String := "%(asctime)s [%(levelname)s] %(name)s: %(message)s"

structure UnknownLevel where
  name : String
  deriving DecidableEq, Repr

def UnknownLevel.message (e : UnknownLevel) : String :=
  s!"module 'logging' has no attribute '{e.name}'"

def logSeverity (name : String) : Except UnknownLevel Nat :=
  let capital := String.ofList (upper name.toList)
  match Log.severityNamed? capital with
  | some n => .ok n
  | none => .error ⟨capital⟩

end Household
