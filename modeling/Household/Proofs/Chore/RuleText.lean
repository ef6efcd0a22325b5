import Household.Proofs.Chore.DueToday
import Household.Proofs.Chore.Standing
import Household.Proofs.Recurrence.Overlong

/-!
# The rule text of a chore

A chore is evaluated whatever the text of its rule, unless that holds a number
of more digits than are read. A text that does not read leaves the chore to be
done once, and due on no day.
-/

set_option autoImplicit false

namespace Household.Chore

open Household.Calendar Household.Recurrence Household.Expansion

/-- Reading the rule text comes to a number of `n` digits, more than are read. -/
def OverlongText (c : Chore) (n : Nat) : Prop := Overlong (Text.split ';' c.ruleText.toList) n

/-- What the evaluations of a chore on a day come to, by the text of its rule. -/
structure Evaluates (c : Chore) (completion? : Option Moment) (day : Moment) : Prop where
  returns : (∀ n, ¬c.OverlongText n) →
    (∃ st due, c.status completion? day = .ok (st, due)) ∧ ∃ due, c.isDue day = .ok due
  unread : (∀ n, ¬c.OverlongText n) → (∀ r, Rule.ofText c.ruleText ≠ .ok r) →
    c.status completion? day = .ok (if completion?.isSome then .completed else .pending, none) ∧
      c.isDue day = .ok c.ruleText.isEmpty
  fails : ∀ n, c.OverlongText n →
    c.status completion? day = .error (.numberTooLong n) ∧ c.isDue day = .error (.numberTooLong n)

/-! Schedules -/

theorem overlongText_iff {c : Chore} {n : Nat} :
    c.OverlongText n ↔ Rule.ofText c.ruleText = .error (.numberTooLong n) :=
  readRule_tooLong_iff.symm

theorem ofText_of_isEmpty {s : String} (h : s.isEmpty = true) :
    Rule.ofText s = .error (.malformed .empty) := by
  rw [String.isEmpty_iff.mp h]
  rfl

theorem schedule_cases (c : Chore) :
    (c.schedule = .ok .once ∧ c.ruleText.isEmpty = true) ∨
    (∃ r, c.schedule = .ok (.repeating r) ∧ Rule.ofText c.ruleText = .ok r) ∨
    (∃ e, c.schedule = .ok (.malformed e) ∧ c.ruleText.isEmpty = false ∧
      Rule.ofText c.ruleText = .error (.malformed e)) ∨
    ∃ n, c.schedule = .error (.numberTooLong n) ∧ c.OverlongText n := by
  unfold schedule
  cases hempty : c.ruleText.isEmpty with
  | true => exact .inl ⟨rfl, rfl⟩
  | false =>
    refine .inr ?_
    simp only [Bool.false_eq_true, if_false, overlongText_iff]
    cases hread : Rule.ofText c.ruleText with
    | ok r => exact .inl ⟨r, rfl, rfl⟩
    | error err =>
      cases err with
      | malformed e => exact .inr (.inl ⟨e, rfl, trivial, rfl⟩)
      | numberTooLong n => exact .inr (.inr ⟨n, rfl, rfl⟩)

section

variable {c : Chore} {completion? : Option Moment} {day : Moment}

theorem evaluations_of_once (h : c.schedule = .ok .once) :
    c.status completion? day = .ok (onceStatus completion?, none) ∧ c.isDue day = .ok true := by
  simp only [status, isDue, h, ok_bind]
  exact ⟨rfl, rfl⟩

theorem evaluations_of_malformed {e : RuleError} (h : c.schedule = .ok (.malformed e)) :
    c.status completion? day = .ok (onceStatus completion?, none) ∧ c.isDue day = .ok false := by
  simp only [status, isDue, h, ok_bind]
  exact ⟨rfl, rfl⟩

theorem evaluations_of_error {err : ChoreError} (h : c.schedule = .error err)
    (completion? : Option Moment) (day : Moment) :
    c.status completion? day = .error err ∧ c.isDue day = .error err := by
  simp only [status, isDue, h]
  exact ⟨rfl, rfl⟩

theorem schedule_of_overlongText {n : Nat} (h : c.OverlongText n) :
    c.schedule = .error (.numberTooLong n) := by
  rw [overlongText_iff] at h
  have hne : ¬c.ruleText.isEmpty = true := by
    intro hempty
    rw [ofText_of_isEmpty hempty] at h
    simp at h
  simp only [schedule, if_neg hne, h]

/-- Unless a number in the text of its rule is too long, a chore is evaluated;
a text that does not read leaves it to be done once. -/
theorem evaluated_by_text (h : c.Within day) (completion? : Option Moment) :
    Evaluates c completion? day where
  returns hshort := by
    rcases c.schedule_cases with ⟨hs, -⟩ | ⟨r, hs, -⟩ | ⟨e, hs, -, -⟩ | ⟨n, -, hlong⟩
    · obtain ⟨hstatus, hdue⟩ := evaluations_of_once hs
      exact ⟨⟨_, _, hstatus⟩, _, hdue⟩
    · obtain ⟨due, hdue, -⟩ := isDue_spec hs h
      exact ⟨exists_status hs h completion?, due, hdue⟩
    · obtain ⟨hstatus, hdue⟩ := evaluations_of_malformed hs
      exact ⟨⟨_, _, hstatus⟩, _, hdue⟩
    · exact absurd hlong (hshort n)
  unread hshort hnone := by
    rcases c.schedule_cases with ⟨hs, hempty⟩ | ⟨r, -, hr⟩ | ⟨e, hs, hempty, -⟩ | ⟨n, -, hlong⟩
    · rw [hempty]
      exact evaluations_of_once hs
    · exact absurd hr (hnone r)
    · rw [hempty]
      exact evaluations_of_malformed hs
    · exact absurd hlong (hshort n)
  fails n hlong := evaluations_of_error (schedule_of_overlongText hlong) completion? day

end

/-- A misspelt frequency: the chore counts as one to be done once, and as done. -/
theorem misspelt_chore_evaluated :
    let created : Moment := ⟨⟨63908416800000000, by decide, by decide⟩, .utc, false⟩
    let day : Moment := ⟨⟨63909072000000000, by decide, by decide⟩, .utc, false⟩
    let done : Moment := ⟨⟨63909032400000000, by decide, by decide⟩, .utc, false⟩
    let c : Chore := ⟨42, "Bins", created, "FREQ=FORTNIGHTLY", none⟩
    c.Within day ∧ c.status (some done) day = .ok (.completed, none) ∧
      c.status none day = .ok (.pending, none) ∧ c.isDue day = .ok false ∧
      Evaluates c (some done) day := by
  refine ⟨⟨rfl, ⟨_, rfl⟩, ⟨_, rfl⟩⟩, rfl, rfl, rfl, ?_⟩
  apply evaluated_by_text
  exact ⟨rfl, ⟨_, rfl⟩, ⟨_, rfl⟩⟩

theorem overlongText_of_interval {c : Chore} {n : Nat} (hn : digitLimit < n)
    (htext : c.ruleText = "FREQ=DAILY;INTERVAL=" ++ String.ofList (List.replicate n '1')) :
    c.OverlongText n := by
  have hfirst : ';' ∉ part .frequency Frequency.daily.name.toList := by decide
  have hsecond : ';' ∉ part .interval (List.replicate n '1') := by
    simp [part, Key.name]
  have hcs : c.ruleText.toList = part .frequency Frequency.daily.name.toList ++
      ';' :: part .interval (List.replicate n '1') := by
    have hones : (String.ofList (List.replicate n '1')).toList = List.replicate n '1' :=
      String.toList_ofList
    rw [htext, String.toList_append, hones]
    rfl
  refine ⟨[part .frequency Frequency.daily.name.toList], .interval, List.replicate n '1', [],
    ?parts, ⟨?legal, List.pairwise_singleton _ _⟩, ?new, ⟨.inl rfl, ?ascii, List.length_replicate,
      hn⟩⟩
  case parts =>
    rw [hcs, Text.split_append_sep hfirst, Text.split_of_not_mem hsecond]
    rfl
  case legal =>
    intro p hp
    exact ⟨.frequency, _, List.mem_singleton.mp hp, .daily, rfl⟩
  case new =>
    rintro ⟨value, hvalue⟩
    have hkey := (part_injective_iff.mp (List.mem_singleton.mp hvalue)).1
    simp at hkey
  case ascii =>
    intro d hd
    rw [List.eq_of_mem_replicate hd]
    rfl

theorem not_evaluated_of_overlongText {c : Chore} {n : Nat} (h : c.OverlongText n)
    (completion? : Option Moment) (day : Moment) : (∀ r, Rule.ofText c.ruleText ≠ .ok r) ∧
      (¬∃ st due, c.status completion? day = .ok (st, due)) ∧ ¬∃ due, c.isDue day = .ok due := by
  have hread := overlongText_iff.mp h
  obtain ⟨hstatus, hdue⟩ := evaluations_of_error (schedule_of_overlongText h) completion? day
  exact ⟨by simp [hread], by simp [hstatus], by simp [hdue]⟩

/-- An interval of one digit too many: neither evaluation returns. -/
theorem long_interval_fails :
    let created : Moment := ⟨⟨63908416800000000, by decide, by decide⟩, .utc, false⟩
    let day : Moment := ⟨⟨63909072000000000, by decide, by decide⟩, .utc, false⟩
    let ones := String.ofList (List.replicate 4301 '1')
    let c : Chore := ⟨42, "Bins", created, "FREQ=DAILY;INTERVAL=" ++ ones, none⟩
    c.Within day ∧ (∀ r, Rule.ofText c.ruleText ≠ .ok r) ∧
      (¬∃ st due, c.status none day = .ok (st, due)) ∧ ¬∃ due, c.isDue day = .ok due := by
  refine ⟨⟨rfl, ⟨_, rfl⟩, ⟨_, rfl⟩⟩, ?_⟩
  apply not_evaluated_of_overlongText
  exact overlongText_of_interval (by decide) rfl

end Household.Chore
