import Household.Text.Numeral

/-!
# Runs of digits

A run of `k` digits stands for a number below the `k`-th power of ten, and a
number below it is written in at most `k` digits. What is written is read
back as the same number.
-/

set_option autoImplicit false

namespace Household.Text

theorem isAsciiDigit_iff (c : Char) : isAsciiDigit c = true ↔ c.isDigit = true := by
  simp only [isAsciiDigit, Char.isDigit, Bool.and_eq_true, decide_eq_true_eq]
  exact Iff.rfl

theorem digits_ascii (n : Nat) : ∀ c ∈ digits n, isAsciiDigit c = true := by
  intro c hc
  rw [isAsciiDigit_iff]
  exact Nat.isDigit_of_mem_toDigits (by decide) (by decide) hc

theorem digits_ne_nil (n : Nat) : digits n ≠ [] := Nat.toDigits_ne_nil

theorem digits_length_pos (n : Nat) : 0 < (digits n).length := Nat.length_toDigits_pos

theorem pow_ten_le {j k : Nat} (h : j ≤ k) : Nat.pow 10 j ≤ Nat.pow 10 k :=
  Nat.pow_le_pow_right (by decide) h

theorem digits_length_le {n k : Nat} (hk : 0 < k) : (digits n).length ≤ k ↔ n < Nat.pow 10 k :=
  Nat.length_toDigits_le_iff (by decide) hk

theorem digits_injective {m n : Nat} (h : digits m = digits n) : m = n := by
  rw [← digitsValue_digits m, h, digitsValue_digits]

theorem padded_ascii (width n : Nat) : ∀ c ∈ padded width n, isAsciiDigit c = true := by
  intro c hc
  rcases List.mem_append.mp hc with hc | hc
  · rw [(List.mem_replicate.mp hc).2]
    rfl
  · exact digits_ascii n c hc

theorem padded_length {width n : Nat} (hw : 0 < width) (hn : n < Nat.pow 10 width) :
    (padded width n).length = width := by
  have hle := (digits_length_le hw).mpr hn
  rw [padded, List.length_append, List.length_replicate]
  omega

theorem padded_two_length {n : Nat} (hn : n < 100) : (padded 2 n).length = 2 :=
  padded_length (by decide) hn

theorem digit_value_lt {c : Char} (hc : isAsciiDigit c = true) : c.toNat - '0'.toNat < 10 := by
  rw [isAsciiDigit_iff] at hc
  simp only [Char.isDigit, Bool.and_eq_true, decide_eq_true_eq] at hc
  have hle : c.val.toNat ≤ 57 := UInt32.le_iff_toNat_le.mp hc.2
  show c.val.toNat - 48 < 10
  omega

theorem ofDigitChars_lt {cs : List Char} (hcs : ∀ c ∈ cs, isAsciiDigit c = true) (a : Nat) :
    Nat.ofDigitChars 10 cs a < (a + 1) * Nat.pow 10 cs.length := by
  induction cs generalizing a with
  | nil => simp
  | cons c cs ih =>
    rw [List.forall_mem_cons] at hcs
    have hc := digit_value_lt hcs.1
    have hrest := ih hcs.2 (10 * a + (c.toNat - '0'.toNat))
    have hpow : Nat.pow 10 (c :: cs).length = 10 * Nat.pow 10 cs.length := Nat.mul_comm _ _
    have hstep : (10 * a + (c.toNat - '0'.toNat) + 1) * Nat.pow 10 cs.length ≤
        (a + 1) * Nat.pow 10 (c :: cs).length := by
      rw [hpow, ← Nat.mul_assoc]
      exact Nat.mul_le_mul_right _ (by omega)
    rw [Nat.ofDigitChars_cons]
    exact Nat.lt_of_lt_of_le hrest hstep

theorem digitsValue_lt {cs : List Char} (hcs : ∀ c ∈ cs, isAsciiDigit c = true) :
    digitsValue cs < Nat.pow 10 cs.length := by
  have h := ofDigitChars_lt hcs 0
  simpa [digitsValue] using h

theorem digitsValue_append (cs ds : List Char) :
    digitsValue (cs ++ ds) = digitsValue cs * Nat.pow 10 ds.length + digitsValue ds := by
  simp only [digitsValue]
  rw [Nat.ofDigitChars_append, Nat.ofDigitChars_eq_ofDigitChars_zero, Nat.mul_comm]
  rfl

theorem digitsValue_append_two {ds : List Char} (cs : List Char) (hds : ds.length = 2) :
    digitsValue (cs ++ ds) = digitsValue cs * 100 + digitsValue ds := by
  have happend := digitsValue_append cs ds
  rw [hds] at happend
  exact happend

theorem digitsValue_cons (c : Char) (cs : List Char) :
    digitsValue (c :: cs) = digitsValue [c] * Nat.pow 10 cs.length + digitsValue cs :=
  digitsValue_append [c] cs

theorem digit_injective {c d : Char} (hc : isAsciiDigit c = true) (hd : isAsciiDigit d = true)
    (h : digitsValue [c] = digitsValue [d]) : c = d := by
  have low {e : Char} (he : isAsciiDigit e = true) : '0'.toNat ≤ e.toNat := by
    rw [isAsciiDigit_iff] at he
    simp only [Char.isDigit, Bool.and_eq_true, decide_eq_true_eq] at he
    exact UInt32.le_iff_toNat_le.mp he.1
  have hc' := low hc
  have hd' := low hd
  simp only [digitsValue, Nat.ofDigitChars_cons, Nat.ofDigitChars_nil, Nat.mul_zero,
    Nat.zero_add] at h
  apply Char.toNat_inj.mp
  omega

theorem eq_of_digitsValue_eq {cs ds : List Char} (hcs : ∀ c ∈ cs, isAsciiDigit c = true)
    (hds : ∀ d ∈ ds, isAsciiDigit d = true) (hlength : cs.length = ds.length)
    (h : digitsValue cs = digitsValue ds) : cs = ds := by
  induction cs generalizing ds with
  | nil => exact (List.length_eq_zero_iff.mp hlength.symm).symm
  | cons c cs ih =>
    cases ds with
    | nil => simp at hlength
    | cons d ds =>
      rw [List.forall_mem_cons] at hcs hds
      rw [List.length_cons, List.length_cons, Nat.add_right_cancel_iff] at hlength
      have hc := digitsValue_lt hcs.2
      have hd := digitsValue_lt hds.2
      rw [digitsValue_cons c, digitsValue_cons d, ← hlength] at h
      rw [← hlength] at hd
      have hpos : 0 < Nat.pow 10 cs.length := Nat.lt_of_le_of_lt (Nat.zero_le _) hc
      have hhead := congrArg (· / Nat.pow 10 cs.length) h
      have hrest := congrArg (· % Nat.pow 10 cs.length) h
      simp only [Nat.mul_comm _ (Nat.pow 10 cs.length), Nat.mul_add_div hpos,
        Nat.div_eq_of_lt hc, Nat.div_eq_of_lt hd, Nat.add_zero] at hhead
      simp only [Nat.mul_comm _ (Nat.pow 10 cs.length), Nat.mul_add_mod,
        Nat.mod_eq_of_lt hc, Nat.mod_eq_of_lt hd] at hrest
      rw [digit_injective hcs.1 hds.1 hhead, ih hcs.2 hds.2 hlength hrest]

theorem readDigits?_eq_some {cs : List Char} {n : Nat} (h : readDigits? cs = some n) :
    cs ≠ [] ∧ (∀ c ∈ cs, isAsciiDigit c = true) ∧ n = digitsValue cs := by
  unfold readDigits? at h
  split at h
  · rename_i hcs
    simp only [Bool.and_eq_true, Bool.not_eq_true', List.isEmpty_eq_false_iff,
      List.all_eq_true] at hcs
    rw [Option.some.injEq] at h
    exact ⟨hcs.1, hcs.2, h.symm⟩
  · simp at h

theorem readDigits?_of_ascii {cs : List Char} (hne : cs ≠ [])
    (hcs : ∀ c ∈ cs, isAsciiDigit c = true) : readDigits? cs = some (digitsValue cs) := by
  have hall : cs.all isAsciiDigit = true := List.all_eq_true.mpr hcs
  have hempty : cs.isEmpty = false := List.isEmpty_eq_false_iff.mpr hne
  simp [readDigits?, hall, hempty]

theorem readDigits?_digits (n : Nat) : readDigits? (digits n) = some n := by
  rw [readDigits?_of_ascii (digits_ne_nil n) (digits_ascii n), digitsValue_digits]

end Household.Text
