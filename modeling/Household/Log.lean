/-!
# Log entries

What the parts of the household report while they run: a logger's name, a
level and a line of text.
-/

set_option autoImplicit false

namespace Household.Log

inductive Level where
  | debug
  | info
  | warning
  | error
  | critical
  deriving DecidableEq, Repr

namespace Level

def all : List Level := [debug, info, warning, error, critical]

def name : Level → String
  | debug => "DEBUG"
  | info => "INFO"
  | warning => "WARNING"
  | error => "ERROR"
  | critical => "CRITICAL"

def severity : Level → Nat
  | debug => 10
  | info => 20
  | warning => 30
  | error => 40
  | critical => 50

def ofName? (s : String) : Option Level := all.find? (fun l => l.name == s)

end Level

/-- The severity under a name: a level's, one of its other names, or none at
all. -/
def severityNamed? (s : String) : Option Nat :=
  match Level.ofName? s with
  | some l => some l.severity
  | none =>
    [("WARN", Level.warning.severity), ("FATAL", Level.critical.severity), ("NOTSET", 0)].lookup s

structure Entry where
  logger : String
  level : Level
  text : String
  deriving DecidableEq, Repr

end Household.Log
