import Household.Proofs.Recurrence.Entries

/-!
# Parts of a text

An entry is told from every other one by its part, and the parts of a rule
hold no semicolon, so that its text gives back its entries.
-/

set_option autoImplicit false

namespace Household.Recurrence

open Household.Calendar Household.Text

theorem Frequency.name_injective {f g : Frequency} (h : f.name = g.name) : f = g := by
  have hback := Frequency.ofName?_name f
  rw [h, Frequency.ofName?_name, Option.some.injEq] at hback
  exact hback.symm

theorem Key.name_injective {k l : Key} (h : k.name = l.name) : k = l := by
  have hback := Key.ofName?_name k
  rw [h, Key.ofName?_name, Option.some.injEq] at hback
  exact hback.symm

theorem Weekday.code_injective {d e : Weekday} (h : d.code = e.code) : d = e := by
  have hback := Weekday.ofCode?_code d
  rw [h, Weekday.ofCode?_code, Option.some.injEq] at hback
  exact hback.symm

theorem not_mem_of_ascii {c : Char} (hc : isAsciiDigit c = false) {cs : List Char}
    (hcs : ∀ d ∈ cs, isAsciiDigit d = true) : c ∉ cs := by
  intro h
  rw [hcs c h] at hc
  simp at hc

theorem semicolon_not_mem_stampText (w : WallTime) : ';' ∉ stampText w := by
  have hdate : ';' ∉ dateDigits w.date := not_mem_of_ascii rfl (dateDigits_ascii w.date)
  have htime : ';' ∉ timeDigits w := not_mem_of_ascii rfl (timeDigits_ascii w)
  simp [stampText_eq, hdate, htime]

theorem comma_not_mem_code (d : Weekday) : ',' ∉ d.code.toList := by
  cases d <;> decide

theorem semicolon_not_mem_value (e : Entry) : ';' ∉ e.value := by
  have hdigits (n : Nat) : ';' ∉ digits n := not_mem_of_ascii rfl (digits_ascii n)
  cases e with
  | frequency f => cases f <;> decide
  | interval n => exact hdigits n
  | byMonthDay n => exact hdigits n
  | count n => exact hdigits n
  | last m => exact semicolon_not_mem_stampText m.wall
  | byDay days =>
    intro h
    rcases mem_join h with h | ⟨p, hp, hc⟩
    · simp at h
    · obtain ⟨d, -, rfl⟩ := List.mem_map.mp hp
      cases d <;> simp [Weekday.code] at hc

theorem semicolon_not_mem_part (e : Entry) : ';' ∉ e.part := by
  have hname : ';' ∉ e.key.name.toList := by cases e.key <;> decide
  have hvalue := semicolon_not_mem_value e
  simp [Entry.part, part, hname, hvalue]

theorem splitFirst?_part (key : Key) (value : List Char) :
    splitFirst? '=' (part key value) = some (key.name.toList, value) :=
  splitFirst?_append (by cases key <;> decide) value

theorem part_injective_iff {k l : Key} {v w : List Char} : part k v = part l w ↔ k = l ∧ v = w := by
  constructor
  · intro h
    have hsplit := splitFirst?_part k v
    rw [h, splitFirst?_part l w, Option.some.injEq, Prod.mk.injEq] at hsplit
    exact ⟨Key.name_injective (String.toList_inj.mp hsplit.1.symm), hsplit.2.symm⟩
  · rintro ⟨rfl, rfl⟩
    rfl

theorem split_codes {days : List Weekday} (hne : days ≠ []) :
    split ',' (Entry.value (.byDay days)) = days.map (fun d => d.code.toList) := by
  apply split_join
  · simpa using hne
  · intro p hp
    obtain ⟨d, -, rfl⟩ := List.mem_map.mp hp
    exact comma_not_mem_code d

theorem value_injective {e f : Entry} (he : e.Sound) (hf : f.Sound) (hkey : e.key = f.key)
    (hvalue : e.value = f.value) : e = f := by
  cases e with
  | frequency a =>
    cases f with
    | frequency b => rw [Frequency.name_injective (String.toList_inj.mp hvalue)]
    | _ => simp [Entry.key] at hkey
  | interval m =>
    cases f with
    | interval n => rw [digits_injective hvalue]
    | _ => simp [Entry.key] at hkey
  | byMonthDay m =>
    cases f with
    | byMonthDay n => rw [digits_injective hvalue]
    | _ => simp [Entry.key] at hkey
  | count m =>
    cases f with
    | count n => rw [digits_injective hvalue]
    | _ => simp [Entry.key] at hkey
  | last m =>
    cases f with
    | last n => rw [stampText_injective he hf hvalue]
    | _ => simp [Entry.key] at hkey
  | byDay ds =>
    cases f with
    | byDay es =>
      have hmap := split_codes he
      rw [hvalue, split_codes hf] at hmap
      have hdays : es = ds := by
        apply List.map_inj_right _ |>.mp hmap
        intro d e hde
        exact Weekday.code_injective (String.toList_inj.mp hde)
      rw [hdays]
    | _ => simp [Entry.key] at hkey

theorem part_injective {e f : Entry} (he : e.Sound) (hf : f.Sound) (h : e.part = f.part) :
    e = f := by
  obtain ⟨hkey, hvalue⟩ := part_injective_iff.mp h
  exact value_injective he hf hkey hvalue

theorem parts_injective {es fs : List Entry} (he : ∀ e ∈ es, e.Sound) (hf : ∀ f ∈ fs, f.Sound)
    (h : es.map Entry.part = fs.map Entry.part) : es = fs := by
  induction es generalizing fs with
  | nil => exact (List.map_eq_nil_iff.mp h.symm).symm
  | cons e es ih =>
    cases fs with
    | nil => simp at h
    | cons f fs =>
      rw [List.forall_mem_cons] at he hf
      rw [List.map_cons, List.map_cons, List.cons.injEq] at h
      rw [part_injective he.1 hf.1 h.1, ih he.2 hf.2 h.2]

end Household.Recurrence
