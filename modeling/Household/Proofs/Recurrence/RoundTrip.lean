import Household.Proofs.Recurrence.Parts

/-!
# Round trips

The text of a rule that was read determines it, and is read as the same rule
again unless its last moment lies before the year 1000.
-/

set_option autoImplicit false

namespace Household.Recurrence

open Household.Calendar Household.Text

/-! What was read -/

theorem readPositive_bounds {key : Key} {value : List Char} {n : Nat}
    (h : readPositive key value = .ok n) : 0 < n ∧ n < Nat.pow 10 digitLimit := by
  unfold readPositive at h
  split at h
  · simp at h
  · rename_i m hm
    obtain ⟨-, hascii, rfl⟩ := readDigits?_eq_some hm
    split at h
    · simp at h
    · rename_i hlength
      split at h
      · simp at h
      · rename_i hpos
        rw [Except.ok.injEq] at h
        rw [← h]
        have hlt := digitsValue_lt hascii
        have hpow := pow_ten_le (Nat.le_of_not_lt hlength)
        exact ⟨by omega, Nat.lt_of_lt_of_le hlt hpow⟩

theorem readDays_ne_nil {cs : List (List Char)} {days : List Weekday} (hcs : cs ≠ [])
    (h : readDays cs = .ok days) : days ≠ [] := by
  cases cs with
  | nil => exact absurd rfl hcs
  | cons c cs =>
    simp only [readDays] at h
    split at h
    · simp at h
    · obtain ⟨rest, -, rfl⟩ := map_eq_ok h
      simp

theorem readValue_sound {key : Key} {value : List Char} {e : Entry}
    (h : readValue key value = .ok e) : e.Sound := by
  cases key with
  | frequency =>
    simp only [readValue] at h
    split at h
    · rw [← Except.ok.inj h]
      trivial
    · simp at h
  | interval =>
    obtain ⟨n, hn, rfl⟩ := map_eq_ok h
    exact readPositive_bounds hn
  | byDay =>
    obtain ⟨days, hdays, rfl⟩ := map_eq_ok h
    exact readDays_ne_nil (split_ne_nil ',' value) hdays
  | byMonthDay =>
    obtain ⟨n, hn, h⟩ := bind_eq_ok h
    split at h
    · rename_i hle
      rw [← Except.ok.inj h]
      exact ⟨(readPositive_bounds hn).1, hle⟩
    · simp at h
  | count =>
    obtain ⟨n, hn, rfl⟩ := map_eq_ok h
    exact readPositive_bounds hn
  | last =>
    simp only [readValue] at h
    split at h
    · rename_i m hm
      rw [← Except.ok.inj h]
      exact readLast?_plain hm
    · simp at h

theorem readPart_sound {seen : List Entry} {cs : List Char} {e : Entry}
    (h : readPart seen cs = .ok e) : e.Sound := by
  unfold readPart at h
  split at h
  · simp at h
  · split at h
    · simp at h
    · split at h
      · simp at h
      · exact readValue_sound h

theorem readParts_sound {seen es : List Entry} {ps : List (List Char)}
    (hseen : ∀ e ∈ seen, e.Sound) (h : readParts seen ps = .ok es) : ∀ e ∈ es, e.Sound := by
  induction ps generalizing seen with
  | nil =>
    rw [← Except.ok.inj h]
    exact hseen
  | cons p ps ih =>
    obtain ⟨e, he, h⟩ := bind_eq_ok h
    apply ih _ h
    rw [List.forall_mem_append]
    exact ⟨hseen, List.forall_mem_singleton.mpr (readPart_sound he)⟩

theorem eq_of_interval? {e : Entry} {n : Nat} (h : e.interval? = some n) : e = .interval n := by
  cases e with
  | interval m => rw [Option.some.inj h]
  | _ => simp [Entry.interval?] at h

theorem eq_of_count? {e : Entry} {n : Nat} (h : e.count? = some n) : e = .count n := by
  cases e with
  | count m => rw [Option.some.inj h]
  | _ => simp [Entry.count?] at h

theorem eq_of_last? {e : Entry} {m : Moment} (h : e.last? = some m) : e = .last m := by
  cases e with
  | last m => rw [Option.some.inj h]
  | _ => simp [Entry.last?] at h

/-- A field that differs from its default was read from an entry. -/
theorem findSome?_of_getD {es : List Entry} {g : Entry → Option Nat} {n d : Nat}
    (h : (n : Int) = ((es.findSome? g).getD d : Nat)) (hd : n ≠ d) : es.findSome? g = some n := by
  cases hg : es.findSome? g with
  | none =>
    rw [hg, Option.getD_none] at h
    exact absurd (Int.ofNat.inj h) hd
  | some m =>
    rw [hg, Option.getD_some] at h
    rw [Int.ofNat.inj h]

theorem Rule.sound {r : Rule} (hinterval : r.interval < Nat.pow 10 digitLimit)
    (hcount : r.count < Nat.pow 10 digitLimit) (hlast : ∀ m, r.last? = some m → Plain m) :
    ∀ e ∈ r.entries, e.Sound := by
  intro e he
  obtain ⟨k, -, hk⟩ := List.mem_filterMap.mp he
  cases k with
  | frequency =>
    rw [← Option.some.inj hk]
    trivial
  | interval =>
    obtain ⟨-, hk⟩ := Option.ite_none_right_eq_some.mp hk
    rw [← Option.some.inj hk]
    exact ⟨r.interval_pos, hinterval⟩
  | byDay =>
    obtain ⟨hne, hk⟩ := Option.ite_none_left_eq_some.mp hk
    rw [← Option.some.inj hk]
    exact hne
  | byMonthDay =>
    obtain ⟨hpos, hk⟩ := Option.ite_none_right_eq_some.mp hk
    rw [← Option.some.inj hk]
    exact ⟨hpos, r.byMonthDay_le⟩
  | count =>
    obtain ⟨hpos, hk⟩ := Option.ite_none_right_eq_some.mp hk
    rw [← Option.some.inj hk]
    exact ⟨hpos, hcount⟩
  | last =>
    obtain ⟨m, hm, rfl⟩ := Option.map_eq_some_iff.mp hk
    exact hlast m hm

theorem entries_sound {es : List Entry} {r : Rule} (hes : ∀ e ∈ es, e.Sound)
    (h : ruleOfEntries es = .ok r) : ∀ e ∈ r.entries, e.Sound := by
  obtain ⟨f, hfields⟩ := Rule.fields_of_entries h
  rw [Rule.fields, Fields.ofEntries, Fields.mk.injEq] at hfields
  obtain ⟨-, hinterval, -, -, hcount, hlast⟩ := hfields
  have found {α : Type} {g : Entry → Option α} {a : α} (hg : es.findSome? g = some a) :
      ∃ e, e.Sound ∧ g e = some a := by
    obtain ⟨e, he, hge⟩ := List.exists_of_findSome?_eq_some hg
    exact ⟨e, hes e he, hge⟩
  have one_lt : 1 < Nat.pow 10 digitLimit := by
    have hone : 1 ≤ digitLimit := by decide
    exact Nat.lt_of_lt_of_le (by decide) (pow_ten_le hone)
  apply Rule.sound
  · by_cases hone : r.interval = 1
    · rw [hone]
      exact one_lt
    · obtain ⟨e, hsound, hn⟩ := found (findSome?_of_getD hinterval hone)
      rw [eq_of_interval? hn] at hsound
      exact hsound.2
  · by_cases hzero : r.count = 0
    · rw [hzero]
      exact Nat.zero_lt_of_lt one_lt
    · obtain ⟨e, hsound, hn⟩ := found (findSome?_of_getD hcount hzero)
      rw [eq_of_count? hn] at hsound
      exact hsound.2
  · intro m hm
    obtain ⟨e, hsound, hm'⟩ := found (hlast.symm.trans hm)
    rw [eq_of_last? hm'] at hsound
    exact hsound

theorem sound_of_readRule {cs : List Char} {r : Rule} (h : readRule cs = .ok r) :
    ∀ e ∈ r.entries, e.Sound := by
  unfold readRule at h
  split at h
  · simp at h
  · obtain ⟨es, hes, h⟩ := bind_eq_ok h
    exact entries_sound (readParts_sound (by simp) hes) h

/-! Reading what was written -/

theorem readPositive_digits (key : Key) {n : Nat} (hpos : 0 < n) (hlt : n < Nat.pow 10 digitLimit) :
    readPositive key (digits n) = .ok n := by
  have hlength : ¬digitLimit < (digits n).length := by
    rw [Nat.not_lt, digits_length_le (by decide)]
    exact hlt
  unfold readPositive
  simp only [readDigits?_digits, if_neg hlength]
  rw [if_neg (by omega)]

theorem readDays_codes (days : List Weekday) :
    readDays (days.map (fun d => d.code.toList)) = .ok days := by
  induction days with
  | nil => rfl
  | cons d days ih =>
    have hcode : String.ofList (trim isBlank d.code.toList) = d.code := by cases d <;> decide
    simp only [List.map_cons, readDays, hcode, Weekday.ofCode?_code, ih]
    rfl

theorem readValue_value {e : Entry} (he : e.Sound)
    (hlast : ∀ m, e = .last m → 1000 ≤ m.wall.date.civil.year) :
    readValue e.key e.value = .ok e := by
  cases e with
  | frequency f =>
    simp only [readValue, Entry.key, Entry.value, String.ofList_toList, Frequency.ofName?_name]
  | interval n =>
    simp only [readValue, Entry.key, Entry.value, readPositive_digits _ he.1 he.2]
    rfl
  | byDay days =>
    have hsplit : split ',' (Entry.value (.byDay days)) = days.map (fun d => d.code.toList) :=
      split_codes he
    simp only [readValue, Entry.key, hsplit, readDays_codes]
    rfl
  | byMonthDay n =>
    have hlt : n < Nat.pow 10 digitLimit := by
      have htwo : 2 ≤ digitLimit := by decide
      have hshort : n < Nat.pow 10 2 := Nat.lt_of_le_of_lt he.2 (by decide)
      exact Nat.lt_of_lt_of_le hshort (pow_ten_le htwo)
    simp only [readValue, Entry.key, Entry.value, readPositive_digits _ he.1 hlt]
    simp [bind, Except.bind, pure, Except.pure, he.2]
  | count n =>
    simp only [readValue, Entry.key, Entry.value, readPositive_digits _ he.1 he.2]
    rfl
  | last m =>
    simp only [readValue, Entry.key, Entry.value, readLast?_stampText he (hlast m rfl)]

theorem readPart_part (seen : List Entry) (key : Key) (value : List Char) :
    readPart seen (part key value) =
      if key ∈ seen.map Entry.key then .error (.malformed (.duplicateKey key.name))
      else readValue key value := by
  unfold readPart
  simp only [splitFirst?_part, String.ofList_toList, Key.ofName?_name]

theorem readParts_map (seen : List Entry) {es : List Entry} (ps : List (List Char))
    (hkeys : ((seen ++ es).map Entry.key).Nodup)
    (hes : ∀ e ∈ es, readValue e.key e.value = .ok e) :
    readParts seen (es.map Entry.part ++ ps) = readParts (seen ++ es) ps := by
  induction es generalizing seen with
  | nil => simp
  | cons e es ih =>
    rw [List.forall_mem_cons] at hes
    have hnew : e.key ∉ seen.map Entry.key := by
      rw [List.map_append, List.nodup_append] at hkeys
      intro hmem
      exact hkeys.2.2 _ hmem _ (by simp) rfl
    have hrest := ih (seen ++ [e]) (by simpa using hkeys) hes.2
    rw [List.map_cons, List.cons_append, readParts, Entry.part, readPart_part, if_neg hnew, hes.1]
    simpa [bind, Except.bind] using hrest

namespace Rule

theorem entries_keys_nodup (r : Rule) : (r.entries.map Entry.key).Nodup := by
  have sub (ks : List Key) : ((ks.filterMap r.entryAt?).map Entry.key).Sublist ks := by
    induction ks with
    | nil => exact .slnil
    | cons k ks ih =>
      cases he : r.entryAt? k with
      | none =>
        rw [List.filterMap_cons_none he]
        exact ih.cons k
      | some e =>
        rw [List.filterMap_cons_some he, List.map_cons, key_of_entryAt? he]
        exact ih.cons_cons k
  exact (sub Key.all).nodup (by decide)

theorem entries_eq_append {r : Rule} {m : Moment} (h : r.last? = some m) :
    ∃ es, r.entries = es ++ [.last m] ∧ ∀ e ∈ es, e.key ≠ .last := by
  refine ⟨[Key.frequency, .interval, .byDay, .byMonthDay, .count].filterMap r.entryAt?, ?_, ?_⟩
  · have hall : Key.all = [.frequency, .interval, .byDay, .byMonthDay, .count] ++ [.last] := rfl
    have hlast : [Key.last].filterMap r.entryAt? = [.last m] := by simp [entryAt?, h]
    rw [entries, hall, List.filterMap_append, hlast]
  · intro e he
    obtain ⟨k, hk, hkey⟩ := List.mem_filterMap.mp he
    rw [key_of_entryAt? hkey]
    rintro rfl
    simp at hk

theorem last_mem_entries {r : Rule} {m : Moment} (h : .last m ∈ r.entries) : r.last? = some m := by
  obtain ⟨k, -, hk⟩ := List.mem_filterMap.mp h
  have hkey := key_of_entryAt? hk
  rw [← hkey] at hk
  obtain ⟨m', hm', heq⟩ := Option.map_eq_some_iff.mp hk
  rw [hm', Entry.last.inj heq]

end Rule

theorem plain_of_sound {r : Rule} (h : ∀ e ∈ r.entries, e.Sound) {m : Moment}
    (hm : r.last? = some m) : Plain m := by
  obtain ⟨es, hes, -⟩ := Rule.entries_eq_append hm
  exact h (.last m) (by rw [hes]; simp)

theorem text_eq {r : Rule} (h : ∀ e ∈ r.entries, e.Sound) :
    ∃ t, r.text = .ok t ∧ t ≠ [] ∧ split ';' t = r.entries.map Entry.part := by
  have hhead := Rule.entries_map r Entry.part
  refine ⟨join [';'] (r.entries.map Entry.part), ?_, ?_, ?_⟩
  · rw [Rule.text, Rule.parts_eq fun _ => plain_of_sound h]
    rfl
  · rw [hhead]
    apply join_cons_ne_nil
    simp [Entry.part, part]
  · apply split_join
    · simp [hhead]
    · intro p hp
      obtain ⟨e, -, rfl⟩ := List.mem_map.mp hp
      exact semicolon_not_mem_part e

theorem readRule_of_split {t : List Char} {ps : List (List Char)} (ht : t ≠ [])
    (hps : split ';' t = ps) : readRule t = readParts [] ps >>= ruleOfEntries := by
  unfold readRule
  rw [if_neg (by simpa using ht), hps]

theorem readRule_text {r : Rule} (h : ∀ e ∈ r.entries, e.Sound) {t : List Char} (ht : t ≠ [])
    (hsplit : split ';' t = r.entries.map Entry.part)
    (hyears : ∀ m, r.last? = some m → 1000 ≤ m.wall.date.civil.year) : readRule t = .ok r := by
  have hvalues : ∀ e ∈ r.entries, readValue e.key e.value = .ok e := by
    intro e he
    apply readValue_value (h e he)
    rintro m rfl
    exact hyears m (Rule.last_mem_entries he)
  have hparts : readParts [] (r.entries.map Entry.part ++ []) = readParts ([] ++ r.entries) [] :=
    readParts_map [] [] r.entries_keys_nodup hvalues
  rw [List.append_nil, List.nil_append] at hparts
  rw [readRule_of_split ht hsplit, hparts]
  exact r.ruleOfEntries_entries

theorem readRule_text_error {r : Rule} (h : ∀ e ∈ r.entries, e.Sound) {t : List Char} (ht : t ≠ [])
    (hsplit : split ';' t = r.entries.map Entry.part) {m : Moment} (hm : r.last? = some m)
    (hyear : m.wall.date.civil.year < 1000) : ∃ e, readRule t = .error (.malformed e) := by
  obtain ⟨es, hes, hother⟩ := Rule.entries_eq_append hm
  have hkeys := r.entries_keys_nodup
  rw [hes] at h hsplit hkeys
  have hvalues : ∀ e ∈ es, readValue e.key e.value = .ok e := by
    intro e he
    apply readValue_value (h e (List.mem_append_left _ he))
    rintro m rfl
    exact absurd rfl (hother _ he)
  rw [List.map_append, List.nodup_append] at hkeys
  have hparts := readParts_map [] [Entry.part (.last m)] hkeys.1 hvalues
  have hnew : Entry.key (.last m) ∉ es.map Entry.key := by
    intro hmem
    exact hkeys.2.2 _ hmem _ (by simp) rfl
  have hstamp : readValue .last (stampText m.wall) =
      .error (.malformed (.malformedLast (String.ofList (stampText m.wall)))) := by
    simp only [readValue, readLast?_short_year hyear]
  refine ⟨.malformedLast (String.ofList (stampText m.wall)), ?_⟩
  rw [List.map_append, List.map_singleton] at hsplit
  rw [readRule_of_split ht hsplit, hparts, List.nil_append, readParts, Entry.part, readPart_part,
    if_neg hnew]
  simp only [Entry.key, Entry.value, hstamp]
  rfl

/-- The text of a rule that was read is the text of no other one, and it is
read as the same rule again exactly if a last moment does not lie before the
year 1000. -/
theorem text_round_trip {cs : List Char} {r : Rule} (hr : readRule cs = .ok r) :
    ∃ t, r.text = .ok t ∧
      (∀ cs' r', readRule cs' = .ok r' → r'.text = .ok t → r' = r) ∧
      (readRule t = .ok r ↔ ∀ m, r.last? = some m → 1000 ≤ m.date.civil.year) ∧
      ((∃ m, r.last? = some m ∧ m.date.civil.year < 1000) →
        ∃ e, readRule t = .error (.malformed e)) := by
  have hsound := sound_of_readRule hr
  obtain ⟨t, ht, hne, hsplit⟩ := text_eq hsound
  have short {m : Moment} (hm : r.last? = some m) (hyear : m.date.civil.year < 1000) :
      ∃ e, readRule t = .error (.malformed e) := readRule_text_error hsound hne hsplit hm hyear
  refine ⟨t, ht, ?_, ⟨?_, ?_⟩, ?_⟩
  · intro cs' r' hr' ht'
    have hsound' := sound_of_readRule hr'
    obtain ⟨t', ht'', -, hsplit'⟩ := text_eq hsound'
    have htt : t' = t := Except.ok.inj (ht''.symm.trans ht')
    have hentries : r'.entries = r.entries := by
      apply parts_injective hsound' hsound
      rw [← hsplit, ← hsplit', htt]
    have hback := Rule.ruleOfEntries_entries r'
    rw [hentries, Rule.ruleOfEntries_entries, Except.ok.injEq] at hback
    exact hback.symm
  · intro hback m hm
    apply Nat.le_of_not_lt
    intro hyear
    obtain ⟨e, he⟩ := short hm hyear
    rw [hback] at he
    simp at he
  · intro hyears
    exact readRule_text hsound hne hsplit hyears
  · rintro ⟨m, hm, hyear⟩
    exact short hm hyear

/-- Every other day through 31 December 999. -/
theorem short_year_not_read_back :
    let r : Rule := ⟨.daily, 2, by decide, .through ⟨.midnight ⟨364876, by decide⟩, .utc, false⟩⟩
    readRule "INTERVAL=02;FREQ=DAILY;UNTIL=09991231".toList = .ok r ∧
      ∃ t e, r.text = .ok t ∧ readRule t = .error (.malformed e) := by
  intro r
  have hr : readRule "INTERVAL=02;FREQ=DAILY;UNTIL=09991231".toList = .ok r := rfl
  obtain ⟨t, ht, -, -, hshort⟩ := text_round_trip hr
  obtain ⟨e, he⟩ := hshort ⟨_, rfl, by decide⟩
  exact ⟨hr, t, e, ht, he⟩

end Household.Recurrence
