/-!
# Splitting and joining

A text is cut at every occurrence of a separator, or at the first one only;
texts are joined with a separator between them.
-/

set_option autoImplicit false

namespace Household.Text

/-- The pieces between the separators; there is always at least one. -/
def split (sep : Char) : List Char → List (List Char)
  | [] => [[]]
  | c::cs =>
    if c = sep then [] :: split sep cs
    else
      match split sep cs with
      | [] => [[c]]
      | p::ps => (c :: p) :: ps

def splitFirst? (sep : Char) : List Char → Option (List Char × List Char)
  | [] => none
  | c::cs => if c = sep then some ([], cs) else (splitFirst? sep cs).map (fun r => (c :: r.1, r.2))

def join (sep : List Char) : List (List Char) → List Char
  | [] => []
  | [p] => p
  | p::q::ps => p ++ sep ++ join sep (q :: ps)

theorem split_ne_nil (sep : Char) (cs : List Char) : split sep cs ≠ [] := by
  cases cs with
  | nil => simp [split]
  | cons c cs =>
    simp only [split]
    split <;> (try split) <;> simp

theorem splitFirst?_eq_some {sep : Char} {cs a b : List Char}
    (h : splitFirst? sep cs = some (a, b)) : cs = a ++ sep :: b := by
  induction cs generalizing a b with
  | nil => simp [splitFirst?] at h
  | cons c cs ih =>
    by_cases hc : c = sep
    · simp only [splitFirst?, hc, if_true, Option.some.injEq, Prod.mk.injEq] at h
      simp [← h.1, ← h.2, hc]
    · simp only [splitFirst?, hc, if_false, Option.map_eq_some_iff] at h
      obtain ⟨r, hr, heq⟩ := h
      obtain ⟨rfl, rfl⟩ := Prod.mk.inj heq
      simp [ih hr]

end Household.Text
