import Household.Proofs.Recurrence.Stamp
import Household.Proofs.Text.Pieces

/-!
# The entries of a rule

A rule gives back the entries that it was read from, in a fixed order and
without the defaults. The text of a rule is made of their parts, and the
entries together determine the rule.
-/

set_option autoImplicit false

namespace Household.Recurrence

open Household.Calendar Household.Text

theorem map_eq_ok {ε α β : Type} {x : Except ε α} {f : α → β} {b : β} (h : x.map f = .ok b) :
    ∃ a, x = .ok a ∧ f a = b := by
  cases x with
  | error e => simp [Except.map] at h
  | ok a => exact ⟨a, rfl, Except.ok.inj h⟩

theorem bind_eq_ok {ε α β : Type} {x : Except ε α} {f : α → Except ε β} {b : β}
    (h : x >>= f = .ok b) : ∃ a, x = .ok a ∧ f a = .ok b := by
  cases x with
  | error e => simp [bind, Except.bind] at h
  | ok a => exact ⟨a, rfl, h⟩

def Entry.value : Entry → List Char
  | frequency f => f.name.toList
  | interval n => digits n
  | byDay days => join [','] (days.map (fun d => d.code.toList))
  | byMonthDay n => digits n
  | count n => digits n
  | last m => stampText m.wall

def Entry.part (e : Entry) : List Char := Recurrence.part e.key e.value

def Entry.Sound : Entry → Prop
  | frequency _ => True
  | interval n => 0 < n ∧ n < Nat.pow 10 digitLimit
  | byDay days => days ≠ []
  | byMonthDay n => 0 < n ∧ n ≤ 31
  | count n => 0 < n ∧ n < Nat.pow 10 digitLimit
  | last m => Plain m

namespace Rule

def entryAt? (r : Rule) : Key → Option Entry
  | .frequency => some (.frequency r.frequency)
  | .interval => if 1 < r.interval then some (.interval r.interval) else none
  | .byDay => if r.byDay = [] then none else some (.byDay r.byDay)
  | .byMonthDay => if 0 < r.byMonthDay then some (.byMonthDay r.byMonthDay) else none
  | .count => if 0 < r.count then some (.count r.count) else none
  | .last => r.last?.map .last

def entries (r : Rule) : List Entry := Key.all.filterMap r.entryAt?

def fields (r : Rule) : Fields :=
  ⟨r.frequency, r.interval, r.byDay, r.byMonthDay, r.count, r.last?⟩

theorem key_of_entryAt? {r : Rule} {k : Key} {e : Entry} (h : r.entryAt? k = some e) : e.key = k := by
  cases k with
  | frequency =>
    rw [← Option.some.inj h]
    rfl
  | last =>
    obtain ⟨m, -, rfl⟩ := Option.map_eq_some_iff.mp h
    rfl
  | byDay =>
    obtain ⟨-, h⟩ := Option.ite_none_left_eq_some.mp h
    rw [← Option.some.inj h]
    rfl
  | interval | byMonthDay | count =>
    obtain ⟨-, h⟩ := Option.ite_none_right_eq_some.mp h
    rw [← Option.some.inj h]
    rfl

theorem findSome?_entries {α : Type} (r : Rule) (k : Key) {g : Entry → Option α}
    (hg : ∀ e, e.key ≠ k → g e = none) : r.entries.findSome? g = (r.entryAt? k).bind g := by
  have found (ks : List Key) :
      (ks.filterMap r.entryAt?).findSome? g = if k ∈ ks then (r.entryAt? k).bind g else none := by
    induction ks with
    | nil => rfl
    | cons j ks ih =>
      cases he : r.entryAt? j with
      | none =>
        rw [List.filterMap_cons_none he, ih]
        by_cases hj : j = k
        · subst hj
          simp [he]
        · simp [Ne.symm hj]
      | some e =>
        have hkey := key_of_entryAt? he
        rw [List.filterMap_cons_some he, List.findSome?_cons, ih]
        by_cases hj : j = k
        · subst hj
          cases hge : g e <;> simp [he, hge]
        · rw [hg e (by rw [hkey]; exact hj)]
          simp [Ne.symm hj]
  rw [entries, found, if_pos (by cases k <;> decide)]

theorem ofEntries_entries (r : Rule) : Fields.ofEntries r.frequency r.entries = r.fields := by
  have hinterval := r.findSome?_entries .interval (g := Entry.interval?)
    fun e h => by cases e <;> first | rfl | exact absurd rfl h
  have hbyDay := r.findSome?_entries .byDay (g := Entry.byDay?)
    fun e h => by cases e <;> first | rfl | exact absurd rfl h
  have hbyMonthDay := r.findSome?_entries .byMonthDay (g := Entry.byMonthDay?)
    fun e h => by cases e <;> first | rfl | exact absurd rfl h
  have hcount := r.findSome?_entries .count (g := Entry.count?)
    fun e h => by cases e <;> first | rfl | exact absurd rfl h
  have hlast := r.findSome?_entries .last (g := Entry.last?)
    fun e h => by cases e <;> first | rfl | exact absurd rfl h
  have hpos := r.interval_pos
  rw [Fields.ofEntries, hinterval, hbyDay, hbyMonthDay, hcount, hlast]
  unfold fields
  rw [Fields.mk.injEq]
  refine ⟨rfl, ?_, ?_, ?_, ?_, ?_⟩
  · by_cases h : 1 < r.interval
    · simp [entryAt?, h, Entry.interval?]
    · simp [entryAt?, h]
      omega
  · by_cases h : r.byDay = []
    · simp [entryAt?, h]
    · simp [entryAt?, h, Entry.byDay?]
  · by_cases h : 0 < r.byMonthDay
    · simp [entryAt?, h, Entry.byMonthDay?]
    · simp [entryAt?, h]
      omega
  · by_cases h : 0 < r.count
    · simp [entryAt?, h, Entry.count?]
    · simp [entryAt?, h]
      omega
  · cases h : r.last? with
    | none => simp [entryAt?, h]
    | some m => simp [entryAt?, h, Entry.last?]

theorem byMonthDay_le (r : Rule) : r.byMonthDay ≤ 31 := by
  unfold byMonthDay
  split
  · omega
  · exact Nat.zero_le _

theorem limit_fields (r : Rule) : r.fields.limit = .ok r.limit := by
  cases h : r.limit with
  | unbounded => simp [Fields.limit, fields, count, last?, h]
  | times n pos => simp [Fields.limit, fields, count, last?, h, pos]
  | through m => simp [Fields.limit, fields, count, last?, h]

theorem pattern_fields (r : Rule) (day : Fin 32) (hday : day.val = r.byMonthDay) :
    r.fields.pattern day = .ok r.pattern := by
  cases h : r.pattern with
  | monthly d =>
    have hd : day = d := Fin.ext (by rw [hday, byMonthDay, h])
    simp [Fields.pattern, fields, byDay, frequency, h, hd]
  | daily | weekly | yearly =>
    have hzero : day = 0 := Fin.ext (by rw [hday, byMonthDay, h]; rfl)
    simp [Fields.pattern, fields, byDay, frequency, h, hzero]

theorem rule_fields (r : Rule) : r.fields.rule = .ok r := by
  have hinterval : ¬r.fields.interval < 1 := by
    have hpos := r.interval_pos
    show ¬(r.interval : Int) < 1
    omega
  have hcount : ¬r.fields.count < 0 := by
    show ¬(r.count : Int) < 0
    omega
  have hday : 0 ≤ r.fields.byMonthDay ∧ r.fields.byMonthDay ≤ 31 := by
    have hle := r.byMonthDay_le
    show 0 ≤ (r.byMonthDay : Int) ∧ (r.byMonthDay : Int) ≤ 31
    omega
  unfold Fields.rule
  rw [dif_neg hinterval, if_neg hcount, dif_pos hday, limit_fields]
  have hpattern := r.pattern_fields ⟨r.fields.byMonthDay.toNat, by omega⟩ rfl
  simp only [hpattern, bind, Except.bind, pure, Except.pure]
  rfl

theorem limit_eq_ok {f : Fields} {r : Rule} (hcount : 0 ≤ f.count) (h : f.limit = .ok r.limit) :
    (r.count : Int) = f.count ∧ r.last? = f.last? := by
  unfold Fields.limit at h
  split at h
  · rename_i m hm
    split at h
    · simp at h
    · have hr := (Except.ok.inj h).symm
      have hzero : f.count = 0 := by omega
      simp [count, last?, hr, hm, hzero]
  · rename_i hm
    split at h
    · have hr := (Except.ok.inj h).symm
      simp only [count, last?, hr, hm, and_true]
      omega
    · have hr := (Except.ok.inj h).symm
      simp only [count, last?, hr, hm, and_true]
      omega

theorem pattern_eq_ok {f : Fields} {r : Rule} {day : Fin 32}
    (h : f.pattern day = .ok r.pattern) :
    r.frequency = f.frequency ∧ r.byDay = f.byDay ∧ r.byMonthDay = day.val := by
  unfold Fields.pattern at h
  split at h
  · simp at h
  · rename_i hdays
    split at h
    · simp at h
    · rename_i hday
      rw [Decidable.not_and_iff_or_not, Decidable.not_not, Decidable.not_not] at hdays hday
      split at h
      all_goals
        rename_i hf
        have hr := (Except.ok.inj h).symm
        simp [hf] at hdays hday
        simp [frequency, byDay, byMonthDay, hr, hf, hdays, hday]

theorem fields_of_rule {f : Fields} {r : Rule} (h : f.rule = .ok r) : r.fields = f := by
  unfold Fields.rule at h
  split at h
  · simp at h
  · rename_i hinterval
    split at h
    · simp at h
    · rename_i hcount
      split at h
      · rename_i hday
        obtain ⟨limit, hlimit, h⟩ := bind_eq_ok h
        obtain ⟨pattern, hpattern, h⟩ := bind_eq_ok h
        have hr := Except.ok.inj h
        rw [show limit = r.limit by rw [← hr]] at hlimit
        rw [show pattern = r.pattern by rw [← hr]] at hpattern
        have hinterval' : (r.interval : Int) = f.interval := by
          rw [← hr]
          exact Int.toNat_of_nonneg (by omega)
        obtain ⟨hcount', hlast⟩ := limit_eq_ok (by omega) hlimit
        obtain ⟨hfrequency, hdays, hmonthDay⟩ := pattern_eq_ok hpattern
        have hmonthDay' : (r.byMonthDay : Int) = f.byMonthDay := by
          rw [hmonthDay]
          exact Int.toNat_of_nonneg hday.1
        rw [fields, hfrequency, hinterval', hdays, hmonthDay', hcount', hlast]
      · simp at h

theorem fields_of_entries {es : List Entry} {r : Rule} (h : ruleOfEntries es = .ok r) :
    ∃ f, r.fields = Fields.ofEntries f es := by
  unfold ruleOfEntries at h
  split at h
  · simp at h
  · rename_i f hf
    split at h
    · rename_i r' hr
      rw [← Except.ok.inj h]
      exact ⟨f, fields_of_rule hr⟩
    · simp at h

theorem ruleOfEntries_entries (r : Rule) : ruleOfEntries r.entries = .ok r := by
  have hfrequency : r.entries.findSome? Entry.frequency? = some r.frequency :=
    r.findSome?_entries .frequency fun e h => by cases e <;> first | rfl | exact absurd rfl h
  unfold ruleOfEntries
  simp only [hfrequency, ofEntries_entries, rule_fields]

/-! Texts -/

theorem toUtc_of_plain {m : Moment} (hm : Plain m) : m.toUtc = .ok m := by
  obtain ⟨wall, zone, fold⟩ := m
  obtain ⟨rfl, rfl, -⟩ := hm
  have hinstant : Moment.instant? ⟨wall, .utc, false⟩ = some wall.micros := by
    simp [Moment.instant?, Moment.offset?, Zone.offset?]
  have hwall : WallTime.ofMicros? wall.micros = some wall :=
    dif_pos ⟨wall.nonneg, wall.lt_limit⟩
  unfold Moment.toUtc
  simp only [hinstant, hwall]

theorem entries_map {α : Type} (r : Rule) (f : Entry → α) :
    r.entries.map f = f (.frequency r.frequency) ::
      ((if 1 < r.interval then [f (.interval r.interval)] else []) ++
        (if r.byDay = [] then [] else [f (.byDay r.byDay)]) ++
        (if 0 < r.byMonthDay then [f (.byMonthDay r.byMonthDay)] else []) ++
        ((if 0 < r.count then [f (.count r.count)] else []) ++
          (r.last?.map (fun m => f (.last m))).toList)) := by
  have hinterval : (r.entryAt? .interval).toList.map f =
      if 1 < r.interval then [f (.interval r.interval)] else [] := by
    simp only [entryAt?]
    split <;> rfl
  have hbyDay : (r.entryAt? .byDay).toList.map f =
      if r.byDay = [] then [] else [f (.byDay r.byDay)] := by
    simp only [entryAt?]
    split <;> rfl
  have hbyMonthDay : (r.entryAt? .byMonthDay).toList.map f =
      if 0 < r.byMonthDay then [f (.byMonthDay r.byMonthDay)] else [] := by
    simp only [entryAt?]
    split <;> rfl
  have hcount : (r.entryAt? .count).toList.map f =
      if 0 < r.count then [f (.count r.count)] else [] := by
    simp only [entryAt?]
    split <;> rfl
  have hlast : (r.entryAt? .last).toList.map f = (r.last?.map (fun m => f (.last m))).toList := by
    simp only [entryAt?]
    cases r.last? <;> rfl
  have cons (k : Key) (ks : List Key) : ((k :: ks).filterMap r.entryAt?).map f =
      (r.entryAt? k).toList.map f ++ (ks.filterMap r.entryAt?).map f := by
    cases he : r.entryAt? k with
    | none => rw [List.filterMap_cons_none he]; rfl
    | some e => rw [List.filterMap_cons_some he]; rfl
  simp only [entries, Key.all, cons, hinterval, hbyDay, hbyMonthDay, hcount, hlast,
    List.filterMap_nil, List.map_nil, List.append_nil, List.append_assoc]
  rfl

theorem parts_eq {r : Rule} (h : ∀ m, r.last? = some m → Plain m) :
    r.parts = .ok (r.entries.map Entry.part) := by
  have hlimit : r.limitParts = .ok ((if 0 < r.count then [Entry.part (.count r.count)] else []) ++
      (r.last?.map (fun m => Entry.part (.last m))).toList) := by
    cases hr : r.limit with
    | unbounded => simp [limitParts, count, last?, hr]
    | times n pos => simp [limitParts, count, last?, hr, pos, Entry.part, Entry.key, Entry.value]
    | through m =>
      have hm := toUtc_of_plain (h m (by simp [last?, hr]))
      simp [limitParts, count, last?, hr, hm, Entry.part, Entry.key, Entry.value, Except.map]
  rw [entries_map]
  unfold parts
  rw [hlimit]
  rfl

end Rule

end Household.Recurrence
