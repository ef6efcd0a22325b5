/-!
# Tables

A table holds at most one value under each key. Its entries are a list in
which no key occurs twice; `get?` is the view by which the operations are
described.
-/

set_option autoImplicit false

namespace Household

structure Table (κ α : Type) where
  entries : List (κ × α)
  nodup : (entries.map Prod.fst).Nodup

namespace Table

variable {κ α : Type} [DecidableEq κ]

def empty : Table κ α := ⟨[], by simp⟩

def size (t : Table κ α) : Nat := t.entries.length

def get? (t : Table κ α) (k : κ) : Option α :=
  (t.entries.find? (fun e => decide (e.1 = k))).map Prod.snd

def contains (t : Table κ α) (k : κ) : Bool := (t.get? k).isSome

def put (t : Table κ α) (k : κ) (a : α) : Table κ α :=
  ⟨(k, a) :: t.entries.filter (fun e => decide (e.1 ≠ k)), by
    rw [List.map_cons, List.nodup_cons]
    refine ⟨?_, (t.nodup.sublist (List.filter_sublist.map Prod.fst))⟩
    simp only [List.mem_map, List.mem_filter, decide_eq_true_eq]
    rintro ⟨e, he, rfl⟩
    exact he.2 rfl⟩

def filter (t : Table κ α) (p : κ → α → Bool) : Table κ α :=
  ⟨t.entries.filter (fun e => p e.1 e.2),
    t.nodup.sublist (List.filter_sublist.map Prod.fst)⟩

def count (t : Table κ α) (p : κ → α → Bool) : Nat := t.entries.countP (fun e => p e.1 e.2)

@[simp] theorem get?_empty (k : κ) : (empty : Table κ α).get? k = none := rfl

@[simp] theorem get?_put_self (t : Table κ α) (k : κ) (a : α) : (t.put k a).get? k = some a := by
  simp [get?, put]

theorem get?_put_of_ne (t : Table κ α) {k l : κ} (a : α) (h : l ≠ k) :
    (t.put k a).get? l = t.get? l := by
  have hkl : ¬ k = l := fun e => h e.symm
  simp only [get?, put, List.find?_cons, hkl, decide_false, List.find?_filter]
  congr 2
  funext e
  by_cases he : e.1 = l
  · simp [he, h]
  · simp [he]

theorem find?_eq_some_iff (t : Table κ α) (k : κ) (a : α) :
    t.get? k = some a ↔ (k, a) ∈ t.entries := by
  obtain ⟨es, hn⟩ := t
  induction es with
  | nil => simp [get?]
  | cons e es ih =>
    rw [List.map_cons, List.nodup_cons] at hn
    have ih' := ih hn.2
    obtain ⟨l, b⟩ := e
    simp only [get?] at ih' ⊢
    by_cases h : l = k
    · subst h
      simp only [List.find?_cons, decide_true, Option.map_some, Option.some.injEq,
        List.mem_cons, Prod.mk.injEq, true_and]
      constructor
      · intro h; exact .inl h.symm
      · rintro (h | h)
        · exact h.symm
        · exact absurd (List.mem_map_of_mem (f := Prod.fst) h) hn.1
    · have hkl : ¬ k = l := fun e => h e.symm
      simp only [List.find?_cons, h, decide_false, List.mem_cons, Prod.mk.injEq, hkl,
        false_and, false_or]
      exact ih'

theorem get?_filter (t : Table κ α) (p : κ → α → Bool) (k : κ) :
    (t.filter p).get? k = (t.get? k).filter (p k) := by
  apply Option.ext
  intro a
  rw [find?_eq_some_iff, Option.filter_eq_some_iff, find?_eq_some_iff]
  simp [filter]

omit [DecidableEq κ] in
theorem size_filter_not (t : Table κ α) (p : κ → α → Bool) :
    (t.filter (fun k a => !p k a)).size + t.count p = t.size := by
  have hsplit := t.entries.length_eq_countP_add_countP (fun e => p e.1 e.2)
  rw [Nat.add_comm] at hsplit
  simpa [size, count, filter, List.countP_eq_length_filter] using hsplit.symm

end Table

end Household
