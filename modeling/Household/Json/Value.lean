import Household.Number.Basic

/-!
# JSON values and their compact text

Members of an object keep their order. The text has no white space; strings
are written with the short escapes and, below U+0020, with `\u00xx`; all
other characters stand for themselves.
-/

set_option autoImplicit false

namespace Household

open Household.Text Household.Decimal

inductive Json where
  | null
  | bool (b : Bool)
  | number (n : Number)
  | string (s : String)
  | array (items : List Json)
  | object (members : List (String × Json))
  deriving Repr

namespace Json

def escape (c : Char) : List Char :=
  if c = '"' then ['\\', '"']
  else if c = '\\' then ['\\', '\\']
  else if c = '\x08' then ['\\', 'b']
  else if c = '\x0c' then ['\\', 'f']
  else if c = '\n' then ['\\', 'n']
  else if c = '\r' then ['\\', 'r']
  else if c = '\t' then ['\\', 't']
  else if c.toNat < 32 then
    ['\\', 'u', '0', '0', (c.toNat / 16).digitChar, (c.toNat % 16).digitChar]
  else [c]

def stringChars (s : String) : List Char := '"' :: (s.toList.flatMap escape ++ ['"'])

/-- Only finite doubles have a form of their own. -/
def numberChars : Number → List Char
  | .whole n => signedDigits n
  | .real (.finite b) => wire.double (.finite b)
  | .real _ => ['n', 'u', 'l', 'l']

mutual

def chars : Json → List Char
  | null => ['n', 'u', 'l', 'l']
  | bool true => ['t', 'r', 'u', 'e']
  | bool false => ['f', 'a', 'l', 's', 'e']
  | number n => numberChars n
  | string s => stringChars s
  | array [] => ['[', ']']
  | array (v::vs) => '[' :: (chars v ++ moreItems vs)
  | object [] => ['\x7b', '\x7d']
  | object ((k, v)::ms) => '\x7b' :: (stringChars k ++ ':' :: (chars v ++ moreMembers ms))

def moreItems : List Json → List Char
  | [] => [']']
  | v::vs => ',' :: (chars v ++ moreItems vs)

def moreMembers : List (String × Json) → List Char
  | [] => ['\x7d']
  | (k, v)::ms => ',' :: (stringChars k ++ ':' :: (chars v ++ moreMembers ms))

end

def text (j : Json) : String := String.ofList j.chars

/-- The value of a member of an object, the last one of that name. -/
def member? (j : Json) (name : String) : Option Json :=
  match j with
  | object ms => (ms.reverse.find? (fun m => m.1 == name)).map Prod.snd
  | _ => none

end Json

end Household
