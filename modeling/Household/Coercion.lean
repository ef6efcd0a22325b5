import Household.Json.Value
import Household.Number.Reader
import Household.Text.Quoted

/-!
# Values of fields

A field is given as a JSON value and wanted as a text, a whole number or a
real one. Truth values count as 0 and 1 and numbers may be given as text;
what does not fit is reported as an issue with a code and a sentence.
-/

set_option autoImplicit false

namespace Household

open Household.Decimal Household.Text

inductive Issue where
  | missing
  | notText
  | notInteger
  | unreadableInteger
  | fractional
  | notNumber
  | unreadableNumber
  | notDictionary
  | notPositive
  | unknownLevel (shown : String)
  deriving DecidableEq, Repr

namespace Issue

def code : Issue → String
  | missing => "missing"
  | notText => "string_type"
  | notInteger => "int_type"
  | unreadableInteger => "int_parsing"
  | fractional => "int_from_float"
  | notNumber => "float_type"
  | unreadableNumber => "float_parsing"
  | notDictionary => "dict_type"
  | notPositive => "value_error"
  | unknownLevel _ => "value_error"

def message : Issue → String
  | missing => "Field required"
  | notText => "Input should be a valid string"
  | notInteger => "Input should be a valid integer"
  | unreadableInteger => "Input should be a valid integer, unable to parse string as an integer"
  | fractional => "Input should be a valid integer, got a number with a fractional part"
  | notNumber => "Input should be a valid number"
  | unreadableNumber => "Input should be a valid number, unable to parse string as a number"
  | notDictionary => "Input should be a valid dictionary"
  | notPositive => "Value error, must be positive"
  | unknownLevel shown => s!"Value error, unknown log level {shown}"

end Issue

namespace Json

def toText : Json → Except Issue String
  | string s => .ok s
  | _ => .error .notText

def toInteger : Json → Except Issue Int
  | bool b => .ok (if b then 1 else 0)
  | number (.whole n) => .ok n
  | number (.real (.finite b)) =>
    match b.toInt? with
    | some n => .ok n
    | none => .error .fractional
  | string s =>
    match Number.readInteger? s.toList with
    | some n => .ok n
    | none => .error .unreadableInteger
  | _ => .error .notInteger

def toReal : Json → Except Issue Double
  | bool b => .ok (.ofInt (if b then 1 else 0))
  | number n => .ok n.toDouble
  | string s =>
    match Number.readReal? s.toList with
    | some x => .ok x
    | none => .error .unreadableNumber
  | _ => .error .notNumber

/-- Whether a value stands for nothing: no value, zero, or something empty. -/
def isVoid : Json → Bool
  | null => true
  | bool b => !b
  | number (.whole n) => n == 0
  | number (.real (.finite b)) => b.mantissa == 0
  | number (.real _) => false
  | string s => s.isEmpty
  | array items => items.isEmpty
  | object members => members.isEmpty

mutual

def shownChars : Json → List Char
  | null => "None".toList
  | bool true => "True".toList
  | bool false => "False".toList
  | number n => n.text.toList
  | string s => quoteChars s.toList
  | array [] => ['[', ']']
  | array (v::vs) => '[' :: (shownChars v ++ shownItems vs)
  | object [] => ['\x7b', '\x7d']
  | object ((k, v)::ms) =>
    '\x7b' :: (quoteChars k.toList ++ ':' :: ' ' :: (shownChars v ++ shownMembers ms))

def shownItems : List Json → List Char
  | [] => [']']
  | v::vs => ',' :: ' ' :: (shownChars v ++ shownItems vs)

def shownMembers : List (String × Json) → List Char
  | [] => ['\x7d']
  | (k, v)::ms =>
    ',' :: ' ' :: (quoteChars k.toList ++ ':' :: ' ' :: (shownChars v ++ shownMembers ms))

end

def shown (j : Json) : String := String.ofList j.shownChars

end Json

end Household
