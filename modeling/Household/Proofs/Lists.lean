import Mathlib.Data.List.Basic

/-!
# Lists cut in two

How a list that ends in one more element can be cut, and where a property of
its elements cuts it.
-/

set_option autoImplicit false

namespace Household

theorem concat_eq_append_cons {α : Type} {xs mid last : List α} {e x : α} :
    xs ++ [e] = mid ++ x :: last ↔
      (xs = mid ∧ e = x ∧ last = []) ∨ ∃ rest, last = rest ++ [e] ∧ xs = mid ++ x :: rest := by
  constructor
  · intro h
    rcases List.eq_nil_or_concat last with rfl | ⟨rest, y, rfl⟩
    · obtain ⟨hxs, he⟩ := List.append_inj' h rfl
      exact .inl ⟨hxs, List.head_eq_of_cons_eq he, rfl⟩
    · rw [List.concat_eq_append, ← List.cons_append, ← List.append_assoc] at h
      obtain ⟨hxs, he⟩ := List.append_inj' h rfl
      obtain rfl := List.head_eq_of_cons_eq he
      exact .inr ⟨rest, List.concat_eq_append, hxs⟩
  · rintro (⟨rfl, rfl, rfl⟩ | ⟨rest, rfl, rfl⟩)
    · rfl
    · simp

theorem getElem?_concat_of_ne {α : Type} {l : List α} (a : α) {i : Nat} (hi : i ≠ l.length) :
    (l ++ [a])[i]? = l[i]? := by
  rcases Nat.lt_or_gt_of_ne hi with hlt | hgt
  · exact List.getElem?_append_left hlt
  · have hlength : (l ++ [a]).length ≤ i := by
      rw [List.length_append, List.length_singleton]
      exact hgt
    rw [List.getElem?_eq_none hlength, List.getElem?_eq_none (Nat.le_of_lt hgt)]

/-- A list whose first elements are those with a property is cut in two by it. -/
theorem filter_append_filter_not {α : Type} {p : α → Bool} {l : List α}
    (h : l.Pairwise (fun x y => p y = true → p x = true)) :
    l.filter p ++ l.filter (fun x => !p x) = l := by
  induction l with
  | nil => rfl
  | cons x l ih =>
    obtain ⟨hx, hl⟩ := List.pairwise_cons.mp h
    cases hp : p x with
    | true => simp [hp, ih hl]
    | false =>
      have hlate : ∀ y ∈ l, ¬p y = true := by
        intro y hy hpy
        rw [hx y hy hpy] at hp
        simp at hp
      have hfirst : l.filter p = [] := List.filter_eq_nil_iff.mpr hlate
      have hlast : l.filter (fun x => !p x) = l :=
        List.filter_eq_self.mpr fun y hy => by simp [hlate y hy]
      rw [List.filter_cons_of_neg (by simp [hp]), List.filter_cons_of_pos (by simp [hp]), hfirst,
        hlast, List.nil_append]

end Household
