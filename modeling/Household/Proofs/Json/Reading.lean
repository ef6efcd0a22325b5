import Household.Proofs.Json.Grammar
import Mathlib.Data.List.DropRight

/-!
# Reading what the grammar derives

Every JSON text of a value is read as that value, whatever white space and
escapes it uses. So a text denotes one value at most, and a value of whole
numbers is told by its compact text.
-/

set_option autoImplicit false

namespace Household.Json

open Household.Text

/-! White space -/

theorem skipSpace_append {a : List Char} (h : Space a) (cs : List Char) :
    skipSpace (a ++ cs) = skipSpace cs := by
  rw [skipSpace, List.dropWhile_append_of_pos h, skipSpace]

theorem skipSpace_of_head {c : Char} (h : isSpace c = false) (cs : List Char) :
    skipSpace (c :: cs) = c :: cs := List.dropWhile_cons_of_neg (by simp [h])

/-! Strings -/

theorem joinPairs_cons {n : Nat} (h : isHigh n = false) (ns : List Nat) :
    joinPairs (n :: ns) = unitChar n :: joinPairs ns := by
  cases ns with
  | nil => rfl
  | cons m ns => simp [joinPairs, h]

theorem unitChar_toNat (c : Char) : unitChar c.toNat = c := by
  obtain ⟨hhigh, hlow⟩ := char_alone c
  simp [unitChar, hhigh, hlow]

theorem joinPairs_char (c : Char) (ns : List Nat) :
    joinPairs (c.toNat :: ns) = c :: joinPairs ns := by
  rw [joinPairs_cons (char_alone c).1, unitChar_toNat]

theorem readUnits_plain {c : Char} (h : 32 ≤ c.toNat) (hquote : c ≠ '"') (hslash : c ≠ '\\')
    (cs : List Char) :
    readUnits (c :: cs) = (readUnits cs).map (fun r => (c.toNat :: r.1, r.2)) := by
  rw [readUnits]
  case x_1 => exact hquote
  case x_2 => exact fun _ _ _ _ _ e _ => hslash e
  case x_3 => exact fun _ _ e _ => hslash e
  rw [if_neg (Nat.not_lt.mpr h)]

theorem readUnits_unit {a b c d : Char} {n : Nat} (h : unit? a b c d = some n) (cs : List Char) :
    readUnits ('\\' :: 'u' :: a :: b :: c :: d :: cs) =
      (readUnits cs).map (fun r => (n :: r.1, r.2)) := by
  rw [readUnits, h]

theorem readUnits_short {e c : Char} (h : (e, c) ∈ shorthands) (cs : List Char) :
    readUnits ('\\' :: e :: cs) = (readUnits cs).map (fun r => (c.toNat :: r.1, r.2)) := by
  simp only [shorthands, List.mem_cons, Prod.mk.injEq, List.not_mem_nil, or_false] at h
  rcases h with ⟨rfl, rfl⟩ | ⟨rfl, rfl⟩ | ⟨rfl, rfl⟩ | ⟨rfl, rfl⟩ | ⟨rfl, rfl⟩ | ⟨rfl, rfl⟩ |
    ⟨rfl, rfl⟩ | ⟨rfl, rfl⟩ <;> rfl

theorem Spells.readUnits {cs ds : List Char} (h : Spells cs ds) (rest : List Char) :
    ∃ ns, Json.readUnits (cs ++ '"' :: rest) = some (ns, rest) ∧ joinPairs ns = ds := by
  induction h with
  | nil => exact ⟨[], rfl, rfl⟩
  | plain hc hquote hslash _ ih =>
    obtain ⟨ns, hread, hjoin⟩ := ih
    exact ⟨_, by rw [List.cons_append, readUnits_plain hc hquote hslash, hread]; rfl,
      by rw [joinPairs_char, hjoin]⟩
  | short he _ ih =>
    obtain ⟨ns, hread, hjoin⟩ := ih
    exact ⟨_, by rw [List.cons_append, List.cons_append, readUnits_short he, hread]; rfl,
      by rw [joinPairs_char, hjoin]⟩
  | @unit _ _ _ _ n _ _ hunit hhigh hlow _ ih =>
    obtain ⟨ns, hread, hjoin⟩ := ih
    refine ⟨n :: ns, ?_, ?_⟩
    · simp only [List.cons_append, readUnits_unit hunit, hread, Option.map_some]
    · simp [joinPairs_cons hhigh, hjoin, unitChar, hhigh, hlow]
  | @pair _ _ _ _ _ _ _ _ m n _ _ hm hn hhigh hlow _ ih =>
    obtain ⟨ns, hread, hjoin⟩ := ih
    refine ⟨m :: n :: ns, ?_, ?_⟩
    · simp only [List.cons_append, readUnits_unit hm, readUnits_unit hn, hread, Option.map_some]
    · simp [joinPairs, hhigh, hlow, hjoin]

theorem Spells.readChars {cs ds : List Char} (h : Spells cs ds) (rest : List Char) :
    Json.readChars (cs ++ '"' :: rest) = some (ds, rest) := by
  obtain ⟨ns, hread, hjoin⟩ := h.readUnits rest
  rw [Json.readChars, hread, Option.map_some, hjoin]

/-! Numbers -/

def Ends (rest : List Char) : Prop :=
  ∀ c ∈ rest.head?, isAsciiDigit c = false ∧ c ≠ '.' ∧ c ≠ 'e' ∧ c ≠ 'E'

theorem readRun_append {ds rest : List Char} (hds : ∀ c ∈ ds, isAsciiDigit c = true)
    (hrest : Ends rest) : readRun (ds ++ rest) = (ds, rest) := by
  rw [readRun, List.takeWhile_append_of_pos hds, List.dropWhile_append_of_pos hds]
  cases rest with
  | nil => simp
  | cons c cs => simp [(hrest c rfl).1]

theorem readFraction?_of_ends {rest : List Char} (h : Ends rest) :
    readFraction? rest = some (none, rest) := by
  cases rest with
  | nil => rfl
  | cons c cs =>
    rw [readFraction?]
    exact fun _ e => (h c rfl).2.1 (List.head_eq_of_cons_eq e)

theorem readPower?_of_ends {rest : List Char} (h : Ends rest) :
    readPower? rest = some (none, rest) := by
  cases rest with
  | nil => rfl
  | cons c cs =>
    obtain ⟨-, -, he, hE⟩ := h c rfl
    rw [readPower?, if_neg (by simp [he, hE])]

theorem Natural.head {cs : List Char} {n : Nat} (h : Natural cs n) :
    ∃ c tl, cs = c :: tl ∧ isAsciiDigit c = true := by
  obtain ⟨c, tl, rfl⟩ := List.exists_cons_of_ne_nil h.nonempty
  exact ⟨c, tl, rfl, h.digits c List.mem_cons_self⟩

theorem Natural.unsigned {cs : List Char} {n : Nat} (h : Natural cs n) (rest : List Char) :
    ((cs ++ rest).head? == some '-') = false := by
  obtain ⟨c, tl, rfl, hc⟩ := h.head
  rw [List.cons_append, List.head?_cons, beq_eq_false_iff_ne]
  rintro ⟨⟩
  simp [isAsciiDigit] at hc

theorem Numeral.readNumber? {cs rest : List Char} {n : Int} (h : Numeral cs n)
    (hrest : Ends rest) : Json.readNumber? (cs ++ rest) = some (.whole n, rest) := by
  cases h with
  | unsigned hn =>
    simp only [Json.readNumber?, hn.unsigned rest, Bool.false_eq_true, if_false,
      readRun_append hn.digits hrest, List.isEmpty_eq_false_iff.mpr hn.nonempty,
      readFraction?_of_ends hrest, readPower?_of_ends hrest, Option.map_some, numberOf, hn.value]
  | negative hn =>
    simp only [Json.readNumber?, List.cons_append, List.head?_cons, beq_self_eq_true, if_true,
      List.drop_succ_cons, List.drop_zero, readRun_append hn.digits hrest, Bool.false_eq_true,
      if_false, List.isEmpty_eq_false_iff.mpr hn.nonempty, readFraction?_of_ends hrest,
      readPower?_of_ends hrest, Option.map_some, numberOf, hn.value]

/-! Values -/

theorem skipSpace_skipSpace (cs : List Char) : skipSpace (skipSpace cs) = skipSpace cs :=
  List.dropWhile_idempotent isSpace cs

theorem readValue_skipSpace (fuel : Nat) (cs : List Char) :
    readValue fuel (skipSpace cs) = readValue fuel cs := by
  cases fuel with
  | zero => rw [readValue, readValue]
  | succ fuel => rw [readValue, readValue, skipSpace_skipSpace]

theorem readValue_append {a : List Char} (ha : Space a) (fuel : Nat) (cs : List Char) :
    readValue fuel (a ++ cs) = readValue fuel cs := by
  rw [← readValue_skipSpace, skipSpace_append ha, readValue_skipSpace]

theorem readItems_skipSpace (fuel : Nat) (cs : List Char) :
    readItems fuel (skipSpace cs) = readItems fuel cs := by
  cases fuel with
  | zero => rw [readItems, readItems]
  | succ fuel => rw [readItems, readItems, readValue_skipSpace]

theorem readMembers_skipSpace (fuel : Nat) (cs : List Char) :
    readMembers fuel (skipSpace cs) = readMembers fuel cs := by
  cases fuel with
  | zero => rw [readMembers, readMembers]
  | succ fuel => rw [readMembers, readMembers, skipSpace_skipSpace]

theorem readValue_array {cs : List Char} (h : ∀ tl, skipSpace cs ≠ ']' :: tl) (fuel : Nat) :
    readValue (fuel + 1) ('[' :: cs) = (readItems fuel cs).map (fun r => (array r.1, r.2)) := by
  rw [readValue, skipSpace_of_head rfl]
  simp only
  rw [readItems_skipSpace]

theorem readValue_object {cs : List Char} (h : ∀ tl, skipSpace cs ≠ '\x7d' :: tl) (fuel : Nat) :
    readValue (fuel + 1) ('\x7b' :: cs) =
      (readMembers fuel cs).map (fun r => (object r.1, r.2)) := by
  rw [readValue, skipSpace_of_head rfl]
  simp only
  rw [readMembers_skipSpace]

theorem Numeral.head {cs : List Char} {n : Int} (h : Numeral cs n) : ∃ c tl, cs = c :: tl ∧
    isSpace c = false ∧ ∀ d, d ≠ '-' → isAsciiDigit d = false → c ≠ d := by
  obtain ⟨c, tl, rfl, hc⟩ : ∃ c tl, cs = c :: tl ∧ (c = '-' ∨ isAsciiDigit c = true) := by
    cases h with
    | unsigned hn =>
      obtain ⟨c, tl, rfl, hc⟩ := hn.head
      exact ⟨c, tl, rfl, .inr hc⟩
    | negative hn => exact ⟨_, _, rfl, .inl rfl⟩
  have hother (d : Char) (hsign : d ≠ '-') (hdigit : isAsciiDigit d = false) : c ≠ d := by
    rintro rfl
    rcases hc with hc | hc
    · exact hsign hc
    · simp [hc] at hdigit
  refine ⟨c, tl, rfl, ?_, hother⟩
  simp [isSpace, hother ' ' (by decide) rfl, hother '\n' (by decide) rfl,
    hother '\t' (by decide) rfl, hother '\r' (by decide) rfl]

theorem Numeral.readValue {cs rest : List Char} {n : Int} (h : Numeral cs n) (hrest : Ends rest)
    (fuel : Nat) : Json.readValue (fuel + 1) (cs ++ rest) = some (.number (.whole n), rest) := by
  have hread := h.readNumber? hrest
  obtain ⟨c, tl, rfl, hspace, hother⟩ := h.head
  rw [List.cons_append] at hread ⊢
  have hhead {d : Char} {us vs : List Char} (heq : c :: us = d :: vs) (hsign : d ≠ '-')
      (hdigit : isAsciiDigit d = false) : False :=
    hother d hsign hdigit (List.head_eq_of_cons_eq heq)
  rw [Json.readValue, skipSpace_of_head hspace]
  split
  · next heq => exact (hhead heq (by decide) rfl).elim
  · next heq => exact (hhead heq (by decide) rfl).elim
  · next heq => exact (hhead heq (by decide) rfl).elim
  · next heq => exact (hhead heq (by decide) rfl).elim
  · next heq => exact (hhead heq (by decide) rfl).elim
  · next heq => exact (hhead heq (by decide) rfl).elim
  · rw [hread, Option.map_some]

theorem Denotes.head {cs : List Char} {v : Json} (h : Denotes cs v) :
    ∃ c tl, cs = c :: tl ∧ isSpace c = Bool.false ∧ c ≠ ']' := by
  cases h with
  | number hn =>
    obtain ⟨c, tl, rfl, hspace, hother⟩ := hn.head
    exact ⟨c, tl, rfl, hspace, hother ']' (by decide) rfl⟩
  | _ => exact ⟨_, _, rfl, rfl, by decide⟩

theorem Items.skipSpace {cs : List Char} {vs : List Json} (h : Items cs vs) (rest tl : List Char) :
    Json.skipSpace (cs ++ rest) ≠ ']' :: tl := by
  cases h with
  | last ha hv | more ha hv =>
    obtain ⟨c, _, rfl, hspace, hc⟩ := hv.head
    simp only [List.append_assoc, skipSpace_append ha, List.cons_append, skipSpace_of_head hspace]
    exact fun heq => hc (List.head_eq_of_cons_eq heq)

theorem Members.skipSpace {cs : List Char} {ms : List (String × Json)} (h : Members cs ms)
    (rest tl : List Char) : Json.skipSpace (cs ++ rest) ≠ '\x7d' :: tl := by
  cases h with
  | last ha | more ha =>
    simp only [List.append_assoc, skipSpace_append ha, List.cons_append,
      skipSpace_of_head (c := '"') rfl]
    exact fun heq => absurd (List.head_eq_of_cons_eq heq) (by decide)

theorem ends_cons {c : Char} (h : c ∈ [',', ']', '\x7d']) (rest : List Char) :
    Ends (c :: rest) := by
  rintro d ⟨⟩
  simp only [List.mem_cons, List.not_mem_nil, or_false] at h
  rcases h with rfl | rfl | rfl <;> exact ⟨rfl, by decide, by decide, by decide⟩

theorem Space.ends {b rest : List Char} (hb : Space b) (h : Ends rest) : Ends (b ++ rest) := by
  cases b with
  | nil => exact h
  | cons s b =>
    rintro d ⟨⟩
    have hs := hb s List.mem_cons_self
    simp only [isSpace, Bool.or_eq_true, beq_iff_eq] at hs
    rcases hs with ((rfl | rfl) | rfl) | rfl <;> exact ⟨rfl, by decide, by decide, by decide⟩

mutual

theorem Denotes.readValue : {cs : List Char} → {v : Json} → Denotes cs v → (rest : List Char) →
    Ends rest → (fuel : Nat) → cs.length < fuel →
    Json.readValue fuel (cs ++ rest) = some (v, rest)
  | _, _, _, _, _, 0, hfuel => absurd hfuel (Nat.not_lt_zero _)
  | _, _, .null, _, _, _ + 1, _ => rfl
  | _, _, .true, _, _, _ + 1, _ => rfl
  | _, _, .false, _, _, _ + 1, _ => rfl
  | _, _, .number hn, _, hrest, fuel + 1, _ => hn.readValue hrest fuel
  | _, _, .string hs, rest, _, _ + 1, _ => by
    rw [List.cons_append, List.append_assoc, Json.readValue, skipSpace_of_head rfl]
    simp only [List.singleton_append, hs.readChars, Option.map_some]
  | _, _, .emptyArray ha, rest, _, _ + 1, _ => by
    rw [List.cons_append, List.append_assoc, Json.readValue, skipSpace_of_head rfl]
    simp only [skipSpace_append ha, List.singleton_append, skipSpace_of_head (c := ']') rfl]
  | _, _, .array hs, rest, _, fuel + 1, hfuel => by
    rw [List.cons_append, readValue_array (hs.skipSpace rest),
      hs.readItems rest fuel (Nat.lt_of_succ_lt_succ hfuel), Option.map_some]
  | _, _, .emptyObject ha, rest, _, _ + 1, _ => by
    rw [List.cons_append, List.append_assoc, Json.readValue, skipSpace_of_head rfl]
    simp only [skipSpace_append ha, List.singleton_append, skipSpace_of_head (c := '\x7d') rfl]
  | _, _, .object hs, rest, _, fuel + 1, hfuel => by
    rw [List.cons_append, readValue_object (hs.skipSpace rest),
      hs.readMembers rest fuel (Nat.lt_of_succ_lt_succ hfuel), Option.map_some]

theorem Items.readItems : {cs : List Char} → {vs : List Json} → Items cs vs → (rest : List Char) →
    (fuel : Nat) → cs.length < fuel → Json.readItems fuel (cs ++ rest) = some (vs, rest)
  | _, _, _, _, 0, hfuel => absurd hfuel (Nat.not_lt_zero _)
  | _, _, .last ha hv hb, rest, fuel + 1, hfuel => by
    simp only [List.length_append, List.length_singleton] at hfuel
    simp only [List.append_assoc, List.singleton_append]
    rw [Json.readItems, readValue_append ha,
      hv.readValue _ (hb.ends (ends_cons (by decide) rest)) fuel (by omega)]
    simp only [skipSpace_append hb, skipSpace_of_head (c := ']') rfl]
  | _, _, .more ha hv hb hs, rest, fuel + 1, hfuel => by
    simp only [List.length_append, List.length_cons] at hfuel
    simp only [List.append_assoc, List.cons_append]
    rw [Json.readItems, readValue_append ha,
      hv.readValue _ (hb.ends (ends_cons (by decide) _)) fuel (by omega)]
    simp only [skipSpace_append hb, skipSpace_of_head (c := ',') rfl,
      hs.readItems rest fuel (by omega), Option.map_some]

theorem Members.readMembers : {cs : List Char} → {ms : List (String × Json)} → Members cs ms →
    (rest : List Char) → (fuel : Nat) → cs.length < fuel →
    Json.readMembers fuel (cs ++ rest) = some (ms, rest)
  | _, _, _, _, 0, hfuel => absurd hfuel (Nat.not_lt_zero _)
  | _, _, .last ha hk hb hc hv hd, rest, fuel + 1, hfuel => by
    simp only [List.length_append, List.length_cons] at hfuel
    simp only [List.append_assoc, List.cons_append, List.nil_append]
    rw [Json.readMembers, skipSpace_append ha, skipSpace_of_head rfl]
    simp only [hk.readChars, skipSpace_append hb, skipSpace_of_head (c := ':') rfl,
      readValue_append hc]
    rw [hv.readValue _ (hd.ends (ends_cons (by decide) rest)) fuel (by omega)]
    simp only [skipSpace_append hd, skipSpace_of_head (c := '\x7d') rfl]
  | _, _, .more ha hk hb hc hv hd hs, rest, fuel + 1, hfuel => by
    simp only [List.length_append, List.length_cons] at hfuel
    simp only [List.append_assoc, List.cons_append]
    rw [Json.readMembers, skipSpace_append ha, skipSpace_of_head rfl]
    simp only [hk.readChars, skipSpace_append hb, skipSpace_of_head (c := ':') rfl,
      readValue_append hc]
    rw [hv.readValue _ (hd.ends (ends_cons (by decide) _)) fuel (by omega)]
    simp only [skipSpace_append hd, skipSpace_of_head (c := ',') rfl,
      hs.readMembers rest fuel (by omega), Option.map_some]

end

/-- Reading is complete for the grammar. -/
theorem TextOf.ofChars? {cs : List Char} {v : Json} (h : TextOf cs v) :
    Json.ofChars? cs = some v := by
  obtain @⟨a, cs, b, v, ha, hv, hb⟩ := h
  have hends : Ends b := by
    have hnil : Ends [] := fun c hc => by simp at hc
    simpa only [List.append_nil] using hb.ends hnil
  have hskip : Json.skipSpace b = [] := List.dropWhile_eq_nil_iff.mpr hb
  rw [Json.ofChars?, readValue_append ha,
    hv.readValue b hends _ (by simp only [List.length_append]; omega)]
  simp only [hskip, List.isEmpty_nil, if_true]

theorem TextOf.unique {cs : List Char} {v w : Json} (h : TextOf cs v) (h' : TextOf cs w) :
    v = w := Option.some.inj (h.ofChars?.symm.trans h'.ofChars?)

end Household.Json
