import Household.Proofs.Recurrence.Reading

/-!
# Numbers of too many digits

The parts of a rule are read one after the other up to the first that is at
fault. The text fails for the length of a number exactly if that part is a
number of more digits than are read; every other fault makes it malformed.
-/

set_option autoImplicit false

namespace Household.Recurrence

open Household.Calendar Household.Text

def Key.Numeric (key : Key) : Prop := key = .interval ∨ key = .byMonthDay ∨ key = .count

/-- A run of `n` digits where a number is asked for, more than are read as one. -/
structure TooLong (key : Key) (value : List Char) (n : Nat) : Prop where
  numeric : key.Numeric
  ascii : ∀ c ∈ value, isAsciiDigit c = true
  length : value.length = n
  long : digitLimit < n

structure Readable (ps : List (List Char)) : Prop where
  legal : ∀ p ∈ ps, ∃ key value, p = part key value ∧ Legal value key
  distinct : ps.Pairwise (fun p q => ¬SameKey p q)

/-- The first part at fault is a number of `n` digits, more than are read. -/
def Overlong (ps : List (List Char)) (n : Nat) : Prop :=
  ∃ before key value after, ps = before ++ part key value :: after ∧ Readable before ∧
    ¬Has before key ∧ TooLong key value n

/-! Values -/

theorem map_eq_error_iff {ε α β : Type} {x : Except ε α} {f : α → β} {err : ε} :
    x.map f = .error err ↔ x = .error err := by
  cases x <;> simp [Except.map]

theorem bind_eq_error_iff {ε α β : Type} {x : Except ε α} {f : α → Except ε β} {err : ε} :
    x >>= f = .error err ↔ x = .error err ∨ ∃ a, x = .ok a ∧ f a = .error err := by
  cases x <;> simp [bind, Except.bind]

theorem readPositive_tooLong_iff {key : Key} {value : List Char} {n : Nat} :
    readPositive key value = .error (.numberTooLong n) ↔
      (∀ c ∈ value, isAsciiDigit c = true) ∧ value.length = n ∧ digitLimit < n := by
  constructor
  · intro h
    unfold readPositive at h
    split at h
    · simp at h
    · rename_i m hm
      split at h
      · rename_i hlong
        obtain rfl : value.length = n := by simpa using h
        exact ⟨(readDigits?_eq_some hm).2.1, rfl, hlong⟩
      · split at h
        · simp at h
        · simp at h
  · rintro ⟨hascii, rfl, hlong⟩
    have hne : value ≠ [] := List.ne_nil_of_length_pos (Nat.zero_lt_of_lt hlong)
    simp only [readPositive, readDigits?_of_ascii hne hascii, if_pos hlong]

theorem readDays_ne_tooLong (pieces : List (List Char)) (n : Nat) :
    readDays pieces ≠ .error (.numberTooLong n) := by
  induction pieces with
  | nil => simp [readDays]
  | cons piece pieces ih =>
    rw [readDays]
    split
    · simp
    · rwa [Ne, map_eq_error_iff]

theorem readValue_tooLong_iff {key : Key} {value : List Char} {n : Nat} :
    readValue key value = .error (.numberTooLong n) ↔ TooLong key value n := by
  have hnumber (hnumeric : key.Numeric) : TooLong key value n ↔
      (∀ c ∈ value, isAsciiDigit c = true) ∧ value.length = n ∧ digitLimit < n :=
    ⟨fun ⟨_, hascii, hlength, hlong⟩ => ⟨hascii, hlength, hlong⟩,
      fun ⟨hascii, hlength, hlong⟩ => ⟨hnumeric, hascii, hlength, hlong⟩⟩
  have hother (h : ¬key.Numeric) : ¬TooLong key value n := fun htoo => h htoo.numeric
  cases key with
  | frequency =>
    simp only [readValue, hother (by simp [Key.Numeric]), iff_false]
    split <;> simp
  | interval =>
    rw [readValue, map_eq_error_iff, readPositive_tooLong_iff, hnumber (by simp [Key.Numeric])]
  | byDay =>
    simp only [readValue, map_eq_error_iff, hother (by simp [Key.Numeric]), iff_false]
    exact readDays_ne_tooLong _ n
  | byMonthDay =>
    rw [hnumber (by simp [Key.Numeric]), ← readPositive_tooLong_iff, readValue, bind_eq_error_iff,
      or_iff_left]
    rintro ⟨m, -, h⟩
    split at h
    · simp [pure, Except.pure] at h
    · simp at h
  | count =>
    rw [readValue, map_eq_error_iff, readPositive_tooLong_iff, hnumber (by simp [Key.Numeric])]
  | last =>
    simp only [readValue, hother (by simp [Key.Numeric]), iff_false]
    split <;> simp

/-! Parts -/

theorem readPart_tooLong_iff {seen : List Entry} {p : List Char} {n : Nat} :
    readPart seen p = .error (.numberTooLong n) ↔
      ∃ key value, p = part key value ∧ key ∉ seen.map Entry.key ∧ TooLong key value n := by
  constructor
  · intro h
    rcases readPart_cases seen p with ⟨_, herror⟩ | ⟨key, value, hp, hnew, hread⟩
    · simp [herror] at h
    · rw [hread] at h
      exact ⟨key, value, hp, hnew, readValue_tooLong_iff.mp h⟩
  · rintro ⟨key, value, rfl, hnew, htoo⟩
    rw [readPart_part, if_neg hnew]
    exact readValue_tooLong_iff.mpr htoo

theorem readParts_eq_error_iff {seen : List Entry} {ps : List (List Char)} {err : ReadError} :
    readParts seen ps = .error err ↔ ∃ before p after es, ps = before ++ p :: after ∧
      readParts seen before = .ok es ∧ readPart es p = .error err := by
  induction ps generalizing seen with
  | nil => simp [readParts]
  | cons q ps ih =>
    constructor
    · intro h
      rw [readParts] at h
      rcases bind_eq_error_iff.mp h with hq | ⟨e, hq, h⟩
      · exact ⟨[], q, ps, seen, rfl, rfl, hq⟩
      · obtain ⟨before, p, after, es, rfl, hbefore, hp⟩ := ih.mp h
        refine ⟨q :: before, p, after, es, rfl, ?_, hp⟩
        rw [readParts, hq]
        exact hbefore
    · rintro ⟨before, p, after, es, hps, hbefore, hp⟩
      rw [readParts, bind_eq_error_iff]
      cases before with
      | nil =>
        obtain ⟨rfl, rfl⟩ := List.cons.inj hps
        rw [← Except.ok.inj hbefore] at hp
        exact .inl hp
      | cons r before =>
        obtain ⟨rfl, rfl⟩ := List.cons.inj hps
        rw [readParts] at hbefore
        obtain ⟨e, hq, hbefore⟩ := bind_eq_ok hbefore
        exact .inr ⟨e, hq, ih.mpr ⟨before, p, after, es, rfl, hbefore, hp⟩⟩

theorem readable_iff {ps : List (List Char)} : Readable ps ↔
    ∃ es, List.Forall₂ PartOf ps es ∧ (es.map Entry.key).Nodup := by
  constructor
  · intro h
    obtain ⟨es, hes⟩ := exists_entries h.legal
    exact ⟨es, hes, (distinct_iff hes).mp h.distinct⟩
  · rintro ⟨es, hes, hkeys⟩
    exact ⟨legal_of_entries hes, (distinct_iff hes).mpr hkeys⟩

theorem readParts_tooLong_iff {ps : List (List Char)} {n : Nat} :
    readParts [] ps = .error (.numberTooLong n) ↔ Overlong ps n := by
  have hnew {before : List (List Char)} {es : List Entry} (h : List.Forall₂ PartOf before es)
      (key : Key) : key ∉ es.map Entry.key ↔ ¬Has before key := by
    rw [has_iff h, List.mem_map]
  rw [readParts_eq_error_iff]
  constructor
  · rintro ⟨before, p, after, es, rfl, hbefore, hp⟩
    obtain ⟨_, rfl, hes, hkeys, -⟩ := readParts_eq_ok_iff.mp hbefore
    obtain ⟨key, value, rfl, hkey, htoo⟩ := readPart_tooLong_iff.mp hp
    exact ⟨before, key, value, after, rfl, readable_iff.mpr ⟨es, hes, hkeys⟩,
      (hnew hes key).mp hkey, htoo⟩
  · rintro ⟨before, key, value, after, rfl, hbefore, hkey, htoo⟩
    obtain ⟨es, hes, hkeys⟩ := readable_iff.mp hbefore
    exact ⟨before, _, after, es, rfl, readParts_eq_ok_iff.mpr ⟨es, rfl, hes, hkeys, by simp⟩,
      readPart_tooLong_iff.mpr ⟨key, value, rfl, (hnew hes key).mpr hkey, htoo⟩⟩

/-! Texts -/

theorem ruleOfEntries_ne_tooLong (es : List Entry) (n : Nat) :
    ruleOfEntries es ≠ .error (.numberTooLong n) := by
  unfold ruleOfEntries
  split
  · simp
  · split <;> simp

theorem readRule_tooLong_iff {cs : List Char} {n : Nat} :
    readRule cs = .error (.numberTooLong n) ↔ Overlong (split ';' cs) n := by
  rw [← readParts_tooLong_iff, readRule]
  split
  · rename_i hempty
    obtain rfl : cs = [] := by simpa using hempty
    simp [split, readParts, readPart, splitFirst?, bind, Except.bind]
  · rw [bind_eq_error_iff, or_iff_left]
    rintro ⟨es, -, hes⟩
    exact ruleOfEntries_ne_tooLong es n hes

end Household.Recurrence
