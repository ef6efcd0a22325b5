import Household.Json.Reader
import Household.Proofs.Text.Numerals

/-!
# The grammar of JSON

What a text has to be to denote a JSON value, apart from any way of writing or
reading it. Numbers are whole here: the forms with a point or an exponent are
left out. The compact text of a value of whole numbers is one of its texts.
-/

set_option autoImplicit false

namespace Household.Json

open Household.Text

/-! Tokens -/

def Space (cs : List Char) : Prop := ∀ c ∈ cs, isSpace c = true

structure Natural (cs : List Char) (n : Nat) : Prop where
  digits : ∀ c ∈ cs, isAsciiDigit c = true
  nonempty : cs ≠ []
  lean : cs.head? = some '0' → cs = ['0']
  value : digitsValue cs = n

inductive Numeral : List Char → Int → Prop
  | unsigned {cs : List Char} {n : Nat} : Natural cs n → Numeral cs n
  | negative {cs : List Char} {n : Nat} : Natural cs n → Numeral ('-' :: cs) (-n)

def shorthands : List (Char × Char) :=
  [('"', '"'), ('\\', '\\'), ('/', '/'), ('b', '\x08'), ('f', '\x0c'), ('n', '\n'), ('r', '\r'),
    ('t', '\t')]

/-- A text between quotes spells characters: most stand for themselves, all of
them can be escaped, some in two units. -/
inductive Spells : List Char → List Char → Prop
  | nil : Spells [] []
  | plain {c : Char} {cs ds : List Char} : 32 ≤ c.toNat → c ≠ '"' → c ≠ '\\' → Spells cs ds →
      Spells (c :: cs) (c :: ds)
  | short {e c : Char} {cs ds : List Char} : (e, c) ∈ shorthands → Spells cs ds →
      Spells ('\\' :: e :: cs) (c :: ds)
  | unit {a b c d : Char} {n : Nat} {cs ds : List Char} : unit? a b c d = some n →
      isHigh n = false → isLow n = false → Spells cs ds →
      Spells ('\\' :: 'u' :: a :: b :: c :: d :: cs) (Char.ofNat n :: ds)
  | pair {a b c d a' b' c' d' : Char} {m n : Nat} {cs ds : List Char} : unit? a b c d = some m →
      unit? a' b' c' d' = some n → isHigh m = true → isLow n = true → Spells cs ds →
      Spells ('\\' :: 'u' :: a :: b :: c :: d :: '\\' :: 'u' :: a' :: b' :: c' :: d' :: cs)
        (Char.ofNat (0x10000 + (m - 0xD800) * 0x400 + (n - 0xDC00)) :: ds)

/-! Values -/

mutual

/-- A text without white space around it denotes a value. -/
inductive Denotes : List Char → Json → Prop
  | null : Denotes ['n', 'u', 'l', 'l'] .null
  | true : Denotes ['t', 'r', 'u', 'e'] (.bool true)
  | false : Denotes ['f', 'a', 'l', 's', 'e'] (.bool false)
  | number {cs : List Char} {n : Int} : Numeral cs n → Denotes cs (.number (.whole n))
  | string {cs ds : List Char} : Spells cs ds →
      Denotes ('"' :: (cs ++ ['"'])) (.string (String.ofList ds))
  | emptyArray {a : List Char} : Space a → Denotes ('[' :: (a ++ [']'])) (.array [])
  | array {cs : List Char} {vs : List Json} : Items cs vs → Denotes ('[' :: cs) (.array vs)
  | emptyObject {a : List Char} : Space a → Denotes ('\x7b' :: (a ++ ['\x7d'])) (.object [])
  | object {cs : List Char} {ms : List (String × Json)} : Members cs ms →
      Denotes ('\x7b' :: cs) (.object ms)

inductive Items : List Char → List Json → Prop
  | last {a cs b : List Char} {v : Json} : Space a → Denotes cs v → Space b →
      Items (a ++ (cs ++ (b ++ [']']))) [v]
  | more {a cs b ds : List Char} {v : Json} {vs : List Json} : Space a → Denotes cs v → Space b →
      Items ds vs → Items (a ++ (cs ++ (b ++ ',' :: ds))) (v :: vs)

inductive Members : List Char → List (String × Json) → Prop
  | last {a ks k b c cs d : List Char} {v : Json} : Space a → Spells ks k → Space b → Space c →
      Denotes cs v → Space d →
      Members (a ++ '"' :: (ks ++ '"' :: (b ++ ':' :: (c ++ (cs ++ (d ++ ['\x7d']))))))
        [(String.ofList k, v)]
  | more {a ks k b c cs d ds : List Char} {v : Json} {ms : List (String × Json)} : Space a →
      Spells ks k → Space b → Space c → Denotes cs v → Space d → Members ds ms →
      Members (a ++ '"' :: (ks ++ '"' :: (b ++ ':' :: (c ++ (cs ++ (d ++ ',' :: ds))))))
        ((String.ofList k, v) :: ms)

end

/-- A whole text denotes a value, with white space around it or without. -/
inductive TextOf : List Char → Json → Prop
  | intro {a cs b : List Char} {v : Json} : Space a → Denotes cs v → Space b →
      TextOf (a ++ (cs ++ b)) v

/-! The compact text -/

mutual

/-- Only whole numbers occur in the value. -/
def IsPlain : Json → Prop
  | null => True
  | bool _ => True
  | number (.whole _) => True
  | number (.real _) => False
  | string _ => True
  | array vs => ArePlain vs
  | object ms => HavePlain ms

def ArePlain : List Json → Prop
  | [] => True
  | v::vs => IsPlain v ∧ ArePlain vs

def HavePlain : List (String × Json) → Prop
  | [] => True
  | (_, v)::ms => IsPlain v ∧ HavePlain ms

end

theorem space_nil : Space [] := fun _ h => by simp at h

theorem natural_digits (n : Nat) : Natural (digits n) n where
  digits := digits_ascii n
  nonempty := digits_ne_nil n
  lean h := by
    obtain ⟨ds, hds⟩ := List.head?_eq_some_iff.mp h
    have hascii := digits_ascii n
    rw [hds, List.forall_mem_cons] at hascii
    have hvalue := digitsValue_digits n
    rw [hds, digitsValue_cons, show digitsValue ['0'] = 0 from rfl, Nat.zero_mul,
      Nat.zero_add] at hvalue
    have hlt := digitsValue_lt hascii.2
    rw [hvalue] at hlt
    by_cases hnil : ds = []
    · rw [hds, hnil]
    · have hle := (digits_length_le (List.length_pos_iff.mpr hnil)).mpr hlt
      rw [hds, List.length_cons] at hle
      omega
  value := digitsValue_digits n

theorem numeral_signedDigits (n : Int) : Numeral (signedDigits n) n := by
  cases n with
  | ofNat n => exact .unsigned (natural_digits n)
  | negSucc n => exact .negative (natural_digits (n + 1))

theorem unit?_low {n : Nat} (h : n < 32) :
    unit? '0' '0' (n / 16).digitChar (n % 16).digitChar = some n := by
  revert n
  decide

theorem char_alone (c : Char) : isHigh c.toNat = false ∧ isLow c.toNat = false := by
  have hvalid : c.toNat < 0xD800 ∨ 0xDFFF < c.toNat ∧ c.toNat < 0x110000 := c.valid
  simp only [isHigh, isLow, Bool.and_eq_false_iff, decide_eq_false_iff_not]
  omega

theorem Spells.escape {cs ds : List Char} (c : Char) (h : Spells cs ds) :
    Spells (escape c ++ cs) (c :: ds) := by
  unfold Json.escape
  split
  · next hc => subst hc; exact .short (by decide) h
  split
  · next hc => subst hc; exact .short (by decide) h
  split
  · next hc => subst hc; exact .short (by decide) h
  split
  · next hc => subst hc; exact .short (by decide) h
  split
  · next hc => subst hc; exact .short (by decide) h
  split
  · next hc => subst hc; exact .short (by decide) h
  split
  · next hc => subst hc; exact .short (by decide) h
  split
  · next hc =>
    have hunit := Spells.unit (unit?_low hc) (char_alone c).1 (char_alone c).2 h
    rwa [Char.ofNat_toNat] at hunit
  · next hquote hslash _ _ _ _ _ hc => exact .plain (Nat.not_lt.mp hc) hquote hslash h

theorem spells_escaped (cs : List Char) : Spells (cs.flatMap escape) cs := by
  induction cs with
  | nil => exact .nil
  | cons c cs ih => exact ih.escape c

mutual

theorem denotes_chars : (v : Json) → v.IsPlain → Denotes v.chars v
  | null, _ => .null
  | bool Bool.true, _ => .true
  | bool Bool.false, _ => .false
  | number (.whole n), _ => .number (numeral_signedDigits n)
  | number (.real _), h => h.elim
  | string s, _ => by
    have hspells := Denotes.string (spells_escaped s.toList)
    rwa [String.ofList_toList] at hspells
  | array [], _ => .emptyArray space_nil
  | array (v::vs), h => .array (items_more vs h.2 (denotes_chars v h.1))
  | object [], _ => .emptyObject space_nil
  | object ((k, v)::ms), h => .object (members_more ms h.2 k (denotes_chars v h.1))

theorem items_more : (vs : List Json) → ArePlain vs → {v : Json} → {cs : List Char} →
    Denotes cs v → Items (cs ++ moreItems vs) (v :: vs)
  | [], _, _, _, hv => .last space_nil hv space_nil
  | w::vs, h, _, _, hv => .more space_nil hv space_nil (items_more vs h.2 (denotes_chars w h.1))

theorem members_more : (ms : List (String × Json)) → HavePlain ms → (k : String) → {v : Json} →
    {cs : List Char} → Denotes cs v →
    Members (stringChars k ++ ':' :: (cs ++ moreMembers ms)) ((k, v) :: ms)
  | [], _, k, _, _, hv => by
    have hmember := Members.last space_nil (spells_escaped k.toList) space_nil space_nil hv
      space_nil
    simpa [stringChars, moreMembers] using hmember
  | (l, w)::ms, h, k, _, _, hv => by
    have hmember := Members.more space_nil (spells_escaped k.toList) space_nil space_nil hv
      space_nil (members_more ms h.2 l (denotes_chars w h.1))
    simpa [stringChars, moreMembers] using hmember

end

/-- The compact text of a value of whole numbers is a JSON text of it. -/
theorem textOf_chars {v : Json} (h : v.IsPlain) : TextOf v.chars v := by
  have htext := TextOf.intro space_nil (denotes_chars v h) space_nil
  rwa [List.nil_append, List.append_nil] at htext

end Household.Json
