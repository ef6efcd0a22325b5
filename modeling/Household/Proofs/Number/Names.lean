import Household.Number.Reader

/-!
# Texts that name no number

Among the texts that are read as real numbers are the names of no number at
all. Rounding never gives that value, so these names are the only texts with
it, and none of them is read as a whole number.
-/

set_option autoImplicit false

namespace Household.Decimal.Double

theorem round_ne_notANumber (negative : Bool) (num den : Nat) :
    round negative num den ≠ .notANumber := by
  unfold round
  split
  · exact Double.noConfusion
  · dsimp only
    split <;> split <;> exact Double.noConfusion

theorem ofInt_ne_notANumber (n : Int) : ofInt n ≠ .notANumber := round_ne_notANumber _ _ _

theorem ofDecimal_ne_notANumber (negative : Bool) (digits : Nat) (exponent : Int) :
    ofDecimal negative digits exponent ≠ .notANumber := by
  unfold ofDecimal
  dsimp only
  split
  · exact Double.noConfusion
  · split
    · exact Double.noConfusion
    · exact round_ne_notANumber _ _ _

end Household.Decimal.Double

namespace Household.Number

open Household.Decimal Household.Text

/-- Without the white space around it the text is `nan` in any case, behind a
sign that may be left out. -/
def SpellsNotANumber (cs : List Char) : Prop :=
  ∃ sign name, trim isWhiteSpace cs = sign ++ name ∧ sign ∈ [[], ['+'], ['-']] ∧
    name.map asciiLower = ['n', 'a', 'n']

theorem eq_or_capital {c d capital : Char} (h : asciiLower c = d)
    (hcapital : capital.toNat + 32 = d.toNat) : c = d ∨ c = capital := by
  unfold asciiLower at h
  split at h
  · next hc =>
    have hle : c.toNat ≤ 90 := hc.2
    have hvalid : (c.toNat + 32).isValidChar := .inl (by omega)
    rw [Char.ofNat, dif_pos hvalid] at h
    have hnat : c.toNat + 32 = d.toNat := h ▸ rfl
    exact .inr (Char.toNat_inj.mp (by omega))
  · exact .inl h

theorem spelling {name : List Char} (h : name.map asciiLower = ['n', 'a', 'n']) :
    ∃ x y z, name = [x, y, z] ∧ (x = 'n' ∨ x = 'N') ∧ (y = 'a' ∨ y = 'A') ∧
      (z = 'n' ∨ z = 'N') := by
  obtain ⟨x, name, rfl, hx, h⟩ := List.map_eq_cons_iff.mp h
  obtain ⟨y, name, rfl, hy, h⟩ := List.map_eq_cons_iff.mp h
  obtain ⟨z, name, rfl, hz, h⟩ := List.map_eq_cons_iff.mp h
  obtain rfl := List.map_eq_nil_iff.mp h
  exact ⟨x, y, z, rfl, eq_or_capital hx rfl, eq_or_capital hy rfl, eq_or_capital hz rfl⟩

theorem readSign_spec (cs : List Char) :
    ∃ sign, cs = sign ++ (readSign cs).2 ∧ sign ∈ [[], ['+'], ['-']] := by
  unfold readSign
  split
  · exact ⟨['-'], rfl, by simp⟩
  · exact ⟨['+'], rfl, by simp⟩
  · exact ⟨[], rfl, by simp⟩

theorem SpellsNotANumber.unsigned {cs : List Char} (h : SpellsNotANumber cs) :
    (readSign (trim isWhiteSpace cs)).2.map asciiLower = ['n', 'a', 'n'] := by
  obtain ⟨sign, name, htrim, hsign, hname⟩ := h
  obtain ⟨x, y, z, rfl, hx, -, -⟩ := spelling hname
  rw [htrim]
  simp only [List.mem_cons, List.not_mem_nil, or_false] at hsign
  rcases hsign with rfl | rfl | rfl
  · rcases hx with rfl | rfl <;> exact hname
  · exact hname
  · exact hname

theorem readUnsigned?_eq_notANumber_iff (negative : Bool) (cs : List Char) :
    readUnsigned? negative cs = some .notANumber ↔ cs.map asciiLower = ['n', 'a', 'n'] := by
  constructor
  · intro h
    refine Decidable.byContradiction fun hname => ?_
    unfold readUnsigned? at h
    dsimp only at h
    rw [if_neg hname] at h
    split at h
    · exact Double.noConfusion (Option.some.inj h)
    · split at h
      · exact Double.ofDecimal_ne_notANumber _ _ _ (Option.some.inj h)
      · simp at h
  · intro h
    unfold readUnsigned?
    rw [h]
    rfl

theorem readReal?_eq_notANumber_iff (cs : List Char) :
    readReal? cs = some .notANumber ↔ SpellsNotANumber cs := by
  unfold readReal?
  dsimp only
  rw [readUnsigned?_eq_notANumber_iff]
  constructor
  · intro h
    obtain ⟨sign, hsplit, hsign⟩ := readSign_spec (trim isWhiteSpace cs)
    exact ⟨sign, _, hsplit, hsign, h⟩
  · exact SpellsNotANumber.unsigned

theorem readInteger?_of_spellsNotANumber {cs : List Char} (h : SpellsNotANumber cs) :
    readInteger? cs = none := by
  obtain ⟨x, y, z, hname, hx, hy, hz⟩ := spelling h.unsigned
  unfold readInteger?
  dsimp only
  rw [hname]
  rcases hx with rfl | rfl <;> rcases hy with rfl | rfl <;> rcases hz with rfl | rfl <;> rfl

end Household.Number
