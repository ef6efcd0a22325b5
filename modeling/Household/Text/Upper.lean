/-!
# Upper case

The upper case of a text for the Latin, Greek, Cyrillic and Armenian letters;
a few letters become two or three. Other characters stay as they are.
-/

set_option autoImplicit false

namespace Household.Text

/-- Letters that have no single capital, or one outside the ranges below. -/
def capitalExceptions : List (Nat × List Nat) :=
  [(0xB5, [0x39C]), (0xDF, [0x53, 0x53]), (0xFF, [0x178]), (0x131, [0x49]),
   (0x149, [0x2BC, 0x4E]), (0x17F, [0x53]), (0x1F0, [0x4A, 0x30C]),
   (0x390, [0x399, 0x308, 0x301]), (0x3AC, [0x386]), (0x3AD, [0x388]), (0x3AE, [0x389]),
   (0x3AF, [0x38A]), (0x3B0, [0x3A5, 0x308, 0x301]), (0x3C2, [0x3A3]), (0x3CC, [0x38C]),
   (0x3CD, [0x38E]), (0x3CE, [0x38F]), (0x587, [0x535, 0x552]),
   (0xFB00, [0x46, 0x46]), (0xFB01, [0x46, 0x49]), (0xFB02, [0x46, 0x4C]),
   (0xFB03, [0x46, 0x46, 0x49]), (0xFB04, [0x46, 0x46, 0x4C]), (0xFB05, [0x53, 0x54]),
   (0xFB06, [0x53, 0x54])]

/-- Ranges of small letters whose capitals lie a fixed distance below. -/
def shiftedSmall : List (Nat × Nat × Nat) :=
  [(0x61, 0x7A, 32), (0xE0, 0xF6, 32), (0xF8, 0xFE, 32), (0x3B1, 0x3CB, 32),
   (0x430, 0x44F, 32), (0x450, 0x45F, 80), (0x561, 0x586, 48), (0xFF41, 0xFF5A, 32),
   (0x10428, 0x1044F, 40)]

/-- Ranges in which capital and small letters alternate, with the parity of
the small ones. -/
def alternating : List (Nat × Nat × Nat) :=
  [(0x100, 0x12F, 1), (0x132, 0x137, 1), (0x139, 0x148, 0), (0x14A, 0x177, 1),
   (0x179, 0x17E, 0), (0x1CD, 0x1DC, 0), (0x1DE, 0x1EF, 1), (0x1F8, 0x21F, 1),
   (0x222, 0x233, 1), (0x460, 0x481, 1), (0x48A, 0x4BF, 1), (0x4D0, 0x52F, 1),
   (0x1E00, 0x1E95, 1), (0x1EA0, 0x1EFF, 1)]

def upperChar (c : Char) : List Char :=
  let n := c.toNat
  match capitalExceptions.lookup n with
  | some ns => ns.map Char.ofNat
  | none =>
    match shiftedSmall.find? (fun r => r.1 ≤ n && n ≤ r.2.1) with
    | some r => [Char.ofNat (n - r.2.2)]
    | none =>
      if alternating.any (fun r => r.1 ≤ n && n ≤ r.2.1 && n % 2 == r.2.2) then
        [Char.ofNat (n - 1)]
      else [c]

def upper (cs : List Char) : List Char := cs.flatMap upperChar

end Household.Text
