import Household.Proofs.Recurrence.Grammar
import Mathlib.Data.List.Nodup
import Mathlib.Data.List.Pairwise

/-!
# The grammar of rules

A text is read as a rule exactly if its parts are grammatical, and as the rule
whose fields the parts stand for. Neither depends on the order of the parts.
-/

set_option autoImplicit false

namespace Household.Recurrence

open Household.Calendar Household.Text

def Has (ps : List (List Char)) (key : Key) : Prop := ∃ value, part key value ∈ ps

def SameKey (p q : List Char) : Prop := ∃ key value value', p = part key value ∧ q = part key value'

structure Grammatical (ps : List (List Char)) : Prop where
  legal : ∀ p ∈ ps, ∃ key value, p = part key value ∧ Legal value key
  distinct : ps.Pairwise (fun p q => ¬SameKey p q)
  frequency : Has ps .frequency
  limit : ¬(Has ps .count ∧ Has ps .last)
  weekly : Has ps .byDay → part .frequency Frequency.weekly.name.toList ∈ ps
  monthly : Has ps .byMonthDay → part .frequency Frequency.monthly.name.toList ∈ ps

/-- Either a part of this key gives what is asked of its value, or there is no
such part and the default holds. -/
def Supplies (ps : List (List Char)) (key : Key) (given : List Char → Prop) (default : Prop) : Prop :=
  (∃ value, part key value ∈ ps ∧ given value) ∨ ¬Has ps key ∧ default

structure Means (ps : List (List Char)) (r : Rule) : Prop where
  frequency : part .frequency r.frequency.name.toList ∈ ps
  interval : Supplies ps .interval (Counts · r.interval) (r.interval = 1)
  byDay : Supplies ps .byDay (Codes · r.byDay) (r.byDay = [])
  byMonthDay : Supplies ps .byMonthDay (Counts · r.byMonthDay) (r.byMonthDay = 0)
  count : Supplies ps .count (Counts · r.count) (r.count = 0)
  last : Supplies ps .last (fun value => ∃ m, r.last? = some m ∧ Names value m) (r.last? = none)

theorem SameKey.symm {p q : List Char} (h : SameKey p q) : SameKey q p := by
  obtain ⟨key, v, w, hp, hq⟩ := h
  exact ⟨key, w, v, hq, hp⟩

/-! Parts -/

def PartOf (p : List Char) (e : Entry) : Prop := ∃ value, p = part e.key value ∧ Denotes value e

theorem denotes_unique {value : List Char} {e f : Entry} (hkey : e.key = f.key)
    (he : Denotes value e) (hf : Denotes value f) : e = f := by
  have hread := readValue_eq_ok_iff.mpr ⟨hkey, he⟩
  rw [readValue_eq_ok_iff.mpr ⟨rfl, hf⟩] at hread
  exact (Except.ok.inj hread).symm

theorem legal_iff {value : List Char} {key : Key} :
    Legal value key ↔ ∃ e : Entry, e.key = key ∧ Denotes value e := by
  constructor
  · intro h
    cases key with
    | frequency =>
      obtain ⟨f, hf⟩ := h
      exact ⟨.frequency f, rfl, hf⟩
    | interval =>
      obtain ⟨n, hn⟩ := h
      exact ⟨.interval n, rfl, hn⟩
    | byDay =>
      obtain ⟨days, hdays⟩ := h
      exact ⟨.byDay days, rfl, hdays⟩
    | byMonthDay =>
      obtain ⟨n, hn⟩ := h
      exact ⟨.byMonthDay n, rfl, hn⟩
    | count =>
      obtain ⟨n, hn⟩ := h
      exact ⟨.count n, rfl, hn⟩
    | last =>
      obtain ⟨c, hour, minute, second, hvalue⟩ := h
      obtain ⟨m, hm⟩ := hvalue.exists_shows
      exact ⟨.last m, rfl, c, hour, minute, second, hvalue, hm⟩
  · rintro ⟨e, rfl, h⟩
    cases e with
    | last m =>
      obtain ⟨c, hour, minute, second, hvalue, -⟩ := h
      exact ⟨c, hour, minute, second, hvalue⟩
    | _ => exact ⟨_, h⟩

theorem readPart_cases (seen : List Entry) (p : List Char) :
    (∃ e, readPart seen p = .error (.malformed e)) ∨ ∃ key value, p = part key value ∧
      key ∉ seen.map Entry.key ∧ readPart seen p = readValue key value := by
  unfold readPart
  split
  · exact .inl ⟨_, rfl⟩
  · rename_i name value hp
    split
    · exact .inl ⟨_, rfl⟩
    · rename_i key hkey
      split
      · exact .inl ⟨_, rfl⟩
      · rename_i hnew
        refine .inr ⟨key, value, ?_, hnew, rfl⟩
        rw [splitFirst?_eq_some hp, Key.ofName?_eq_some_iff.mp hkey]
        rfl

theorem readPart_eq_ok_iff {seen : List Entry} {p : List Char} {e : Entry} :
    readPart seen p = .ok e ↔ PartOf p e ∧ e.key ∉ seen.map Entry.key := by
  constructor
  · intro h
    rcases readPart_cases seen p with ⟨_, herror⟩ | ⟨key, value, rfl, hnew, hread⟩
    · simp [herror] at h
    · rw [hread] at h
      obtain ⟨rfl, hvalue⟩ := readValue_eq_ok_iff.mp h
      exact ⟨⟨value, rfl, hvalue⟩, hnew⟩
  · rintro ⟨⟨value, rfl, hvalue⟩, hnew⟩
    rw [readPart_part, if_neg hnew]
    exact readValue_eq_ok_iff.mpr ⟨rfl, hvalue⟩

theorem not_mem_keys_concat {seen : List Entry} {e : Entry} {key : Key} :
    key ∉ (seen ++ [e]).map Entry.key ↔ key ∉ seen.map Entry.key ∧ key ≠ e.key := by
  rw [List.map_append, List.mem_append, not_or, List.map_singleton, List.mem_singleton]

theorem readParts_eq_ok_iff {seen fs : List Entry} {ps : List (List Char)} :
    readParts seen ps = .ok fs ↔ ∃ es, fs = seen ++ es ∧ List.Forall₂ PartOf ps es ∧
      (es.map Entry.key).Nodup ∧ ∀ e ∈ es, e.key ∉ seen.map Entry.key := by
  induction ps generalizing seen with
  | nil =>
    simp only [readParts, Except.ok.injEq, List.forall₂_nil_left_iff]
    constructor
    · rintro rfl
      exact ⟨[], by simp⟩
    · rintro ⟨es, hfs, rfl, -, -⟩
      simpa using hfs.symm
  | cons p ps ih =>
    rw [readParts]
    constructor
    · intro h
      obtain ⟨e, he, h⟩ := bind_eq_ok h
      obtain ⟨hp, hnew⟩ := readPart_eq_ok_iff.mp he
      obtain ⟨es, rfl, hps, hkeys, hnews⟩ := ih.mp h
      simp only [not_mem_keys_concat] at hnews
      refine ⟨e :: es, by simp, .cons hp hps, ?_, ?_⟩
      · rw [List.map_cons, List.nodup_cons]
        refine ⟨?_, hkeys⟩
        intro hmem
        obtain ⟨e', he', hkey⟩ := List.mem_map.mp hmem
        exact (hnews e' he').2 hkey
      · rw [List.forall_mem_cons]
        exact ⟨hnew, fun e' he' => (hnews e' he').1⟩
    · rintro ⟨es, rfl, hps, hkeys, hnews⟩
      obtain ⟨e, es, hp, htail, rfl⟩ := List.forall₂_cons_left_iff.mp hps
      rw [List.map_cons, List.nodup_cons] at hkeys
      rw [List.forall_mem_cons] at hnews
      rw [readPart_eq_ok_iff.mpr ⟨hp, hnews.1⟩]
      refine ih.mpr ⟨es, by simp, htail, hkeys.2, ?_⟩
      intro e' he'
      refine not_mem_keys_concat.mpr ⟨hnews.2 e' he', ?_⟩
      intro hkey
      exact hkeys.1 (List.mem_map.mpr ⟨e', he', hkey⟩)

/-! Parts and entries side by side -/

section

variable {ps : List (List Char)} {es : List Entry}

theorem exists_entry (h : List.Forall₂ PartOf ps es) {p : List Char} (hp : p ∈ ps) :
    ∃ e ∈ es, PartOf p e := by
  induction h with
  | nil => simp at hp
  | cons hq _ ih =>
    rcases List.mem_cons.mp hp with rfl | hp
    · exact ⟨_, List.mem_cons_self, hq⟩
    · obtain ⟨e, he, hpe⟩ := ih hp
      exact ⟨e, List.mem_cons_of_mem _ he, hpe⟩

theorem exists_part (h : List.Forall₂ PartOf ps es) {e : Entry} (he : e ∈ es) :
    ∃ value, part e.key value ∈ ps ∧ Denotes value e := by
  induction h with
  | nil => simp at he
  | cons hq _ ih =>
    rcases List.mem_cons.mp he with rfl | he
    · obtain ⟨value, rfl, hvalue⟩ := hq
      exact ⟨value, List.mem_cons_self, hvalue⟩
    · obtain ⟨value, hp, hvalue⟩ := ih he
      exact ⟨value, List.mem_cons_of_mem _ hp, hvalue⟩

theorem exists_entry_of_part (h : List.Forall₂ PartOf ps es) {key : Key} {value : List Char}
    (hp : part key value ∈ ps) : ∃ e ∈ es, e.key = key ∧ Denotes value e := by
  obtain ⟨e, he, value', hpart, hvalue⟩ := exists_entry h hp
  obtain ⟨hkey, rfl⟩ := part_injective_iff.mp hpart
  exact ⟨e, he, hkey.symm, hvalue⟩

theorem has_iff (h : List.Forall₂ PartOf ps es) {key : Key} :
    Has ps key ↔ ∃ e ∈ es, e.key = key := by
  constructor
  · rintro ⟨value, hp⟩
    obtain ⟨e, he, hkey, -⟩ := exists_entry_of_part h hp
    exact ⟨e, he, hkey⟩
  · rintro ⟨e, he, rfl⟩
    obtain ⟨value, hp, -⟩ := exists_part h he
    exact ⟨value, hp⟩

theorem exists_entries (h : ∀ p ∈ ps, ∃ key value, p = part key value ∧ Legal value key) :
    ∃ es, List.Forall₂ PartOf ps es := by
  induction ps with
  | nil => exact ⟨[], .nil⟩
  | cons p ps ih =>
    rw [List.forall_mem_cons] at h
    obtain ⟨key, value, rfl, hlegal⟩ := h.1
    obtain ⟨e, rfl, hvalue⟩ := legal_iff.mp hlegal
    obtain ⟨es, hes⟩ := ih h.2
    exact ⟨e :: es, .cons ⟨value, rfl, hvalue⟩ hes⟩

theorem legal_of_entries (h : List.Forall₂ PartOf ps es) :
    ∀ p ∈ ps, ∃ key value, p = part key value ∧ Legal value key := by
  intro p hp
  obtain ⟨e, -, value, hpart, hvalue⟩ := exists_entry h hp
  exact ⟨e.key, value, hpart, legal_iff.mpr ⟨e, rfl, hvalue⟩⟩

theorem distinct_iff (h : List.Forall₂ PartOf ps es) :
    ps.Pairwise (fun p q => ¬SameKey p q) ↔ (es.map Entry.key).Nodup := by
  induction h with
  | nil => simp
  | @cons p e ps es hp hps ih =>
    obtain ⟨value, rfl, -⟩ := hp
    rw [List.pairwise_cons, List.map_cons, List.nodup_cons, ih]
    have hnew : (∀ q ∈ ps, ¬SameKey (part e.key value) q) ↔ e.key ∉ es.map Entry.key := by
      rw [List.mem_map, ← has_iff hps]
      constructor
      · rintro h ⟨w, hw⟩
        exact h _ hw ⟨e.key, value, w, rfl, rfl⟩
      · rintro h q hq ⟨key, v, w, hkey, rfl⟩
        obtain ⟨rfl, -⟩ := part_injective_iff.mp hkey
        exact h ⟨w, hq⟩
    rw [hnew]

structure Projects {α : Type} (key : Key) (g : Entry → Option α) (mk : α → Entry) : Prop where
  eq_mk : ∀ e a, g e = some a → e = mk a
  key_mk : ∀ a, (mk a).key = key
  found : ∀ e, e.key = key → (g e).isSome

theorem projects_frequency : Projects .frequency Entry.frequency? .frequency where
  eq_mk e a h := by
    cases e with
    | frequency f => rw [Option.some.inj h]
    | _ => simp [Entry.frequency?] at h
  key_mk _ := rfl
  found e h := by cases e <;> first | rfl | simp [Entry.key] at h

theorem projects_interval : Projects .interval Entry.interval? .interval where
  eq_mk _ _ := eq_of_interval?
  key_mk _ := rfl
  found e h := by cases e <;> first | rfl | simp [Entry.key] at h

theorem projects_byDay : Projects .byDay Entry.byDay? .byDay where
  eq_mk e a h := by
    cases e with
    | byDay days => rw [Option.some.inj h]
    | _ => simp [Entry.byDay?] at h
  key_mk _ := rfl
  found e h := by cases e <;> first | rfl | simp [Entry.key] at h

theorem projects_byMonthDay : Projects .byMonthDay Entry.byMonthDay? .byMonthDay where
  eq_mk e a h := by
    cases e with
    | byMonthDay n => rw [Option.some.inj h]
    | _ => simp [Entry.byMonthDay?] at h
  key_mk _ := rfl
  found e h := by cases e <;> first | rfl | simp [Entry.key] at h

theorem projects_count : Projects .count Entry.count? .count where
  eq_mk _ _ := eq_of_count?
  key_mk _ := rfl
  found e h := by cases e <;> first | rfl | simp [Entry.key] at h

theorem projects_last : Projects .last Entry.last? .last where
  eq_mk _ _ := eq_of_last?
  key_mk _ := rfl
  found e h := by cases e <;> first | rfl | simp [Entry.key] at h

namespace Projects

variable {α : Type} {key : Key} {g : Entry → Option α} {mk : α → Entry}

theorem mem (hg : Projects key g mk) {a : α} (h : es.findSome? g = some a) : mk a ∈ es := by
  obtain ⟨e, he, ha⟩ := List.exists_of_findSome?_eq_some h
  rwa [← hg.eq_mk e a ha]

theorem isSome_of_mem (hg : Projects key g mk) {e : Entry} (he : e ∈ es) (hkey : e.key = key) :
    (es.findSome? g).isSome :=
  List.findSome?_isSome_iff.mpr ⟨e, he, hg.found e hkey⟩

theorem given (hg : Projects key g mk) (h : List.Forall₂ PartOf ps es) {a : α}
    (ha : es.findSome? g = some a) : ∃ value, part key value ∈ ps ∧ Denotes value (mk a) := by
  obtain ⟨value, hp, hvalue⟩ := exists_part h (hg.mem ha)
  rw [hg.key_mk] at hp
  exact ⟨value, hp, hvalue⟩

theorem absent (hg : Projects key g mk) (h : List.Forall₂ PartOf ps es)
    (hnone : es.findSome? g = none) : ¬Has ps key := by
  rw [has_iff h]
  rintro ⟨e, he, hkey⟩
  have hsome := hg.isSome_of_mem he hkey
  rw [hnone] at hsome
  simp at hsome

theorem exists_of_has (hg : Projects key g mk) (h : List.Forall₂ PartOf ps es) (hkey : Has ps key) :
    ∃ a value, es.findSome? g = some a ∧ Denotes value (mk a) := by
  cases ha : es.findSome? g with
  | none => exact absurd hkey (hg.absent h ha)
  | some a =>
    obtain ⟨value, -, hvalue⟩ := hg.given h ha
    exact ⟨a, value, rfl, hvalue⟩

theorem supplies (hg : Projects key g mk) (h : List.Forall₂ PartOf ps es)
    {given : List Char → Prop} {default : Prop}
    (hgiven : ∀ a, es.findSome? g = some a → ∀ value, Denotes value (mk a) → given value)
    (hdefault : es.findSome? g = none → default) : Supplies ps key given default := by
  cases ha : es.findSome? g with
  | none => exact .inr ⟨hg.absent h ha, hdefault ha⟩
  | some a =>
    obtain ⟨value, hp, hvalue⟩ := hg.given h ha
    exact .inl ⟨value, hp, hgiven a ha value hvalue⟩

end Projects

/-! Rules -/

theorem ruleOfEntries_eq_ok_iff {r : Rule} : ruleOfEntries es = .ok r ↔
    ∃ f, es.findSome? Entry.frequency? = some f ∧ (Fields.ofEntries f es).rule = .ok r := by
  unfold ruleOfEntries
  constructor
  · intro h
    split at h
    · simp at h
    · rename_i f hf
      split at h
      · rename_i r' hr
        rw [← Except.ok.inj h]
        exact ⟨f, hf, hr⟩
      · simp at h
  · rintro ⟨f, hf, hr⟩
    simp only [hf, hr]

end

theorem Codes.ne_nil {value : List Char} {days : List Weekday} (h : Codes value days) :
    days ≠ [] := by
  rintro rfl
  exact split_ne_nil ',' value (List.forall₂_nil_right_iff.mp h)

namespace Rule

theorem last?_eq_none {r : Rule} (h : 0 < r.count) : r.last? = none := by
  unfold count at h
  split at h
  · rename_i n pos hlimit
    simp [last?, hlimit]
  · simp at h

theorem weekly_of_byDay {r : Rule} (h : r.byDay ≠ []) : r.frequency = .weekly := by
  unfold byDay at h
  split at h
  · rename_i days hpattern
    simp [frequency, hpattern]
  · simp at h

theorem monthly_of_byMonthDay {r : Rule} (h : 0 < r.byMonthDay) : r.frequency = .monthly := by
  unfold byMonthDay at h
  split at h
  · rename_i day hpattern
    simp [frequency, hpattern]
  · simp at h

end Rule

theorem Fields.exists_rule {f : Fields} (hinterval : 1 ≤ f.interval) (hcount : 0 ≤ f.count)
    (hday : 0 ≤ f.byMonthDay ∧ f.byMonthDay ≤ 31) (hlimit : 0 < f.count → f.last? = none)
    (hweekly : f.byDay ≠ [] → f.frequency = .weekly)
    (hmonthly : f.byMonthDay ≠ 0 → f.frequency = .monthly) : ∃ r, f.rule = .ok r := by
  have limit : ∃ l, f.limit = .ok l := by
    unfold Fields.limit
    split
    · rename_i m hm
      rw [if_neg (fun h => by simp [hlimit h] at hm)]
      exact ⟨_, rfl⟩
    · split
      · exact ⟨_, rfl⟩
      · exact ⟨_, rfl⟩
  have pattern : ∃ p, f.pattern ⟨f.byMonthDay.toNat, by omega⟩ = .ok p := by
    have hnonzero (h : (⟨f.byMonthDay.toNat, by omega⟩ : Fin 32) ≠ 0) : f.byMonthDay ≠ 0 := by
      intro hzero
      exact h (Fin.ext (by simp [hzero]))
    unfold Fields.pattern
    rw [if_neg (fun h => h.2 (hweekly h.1)), if_neg (fun h => h.2 (hmonthly (hnonzero h.1)))]
    split <;> exact ⟨_, rfl⟩
  obtain ⟨l, hl⟩ := limit
  obtain ⟨p, hp⟩ := pattern
  unfold Fields.rule
  rw [dif_neg (by omega), if_neg (by omega), dif_pos hday, hl]
  simp only [hp, bind, Except.bind, pure, Except.pure]
  exact ⟨_, rfl⟩

section

variable {ps : List (List Char)} {es : List Entry} {r : Rule}

theorem getD_of_supplied {g : Entry → Option Nat} {n d a : Nat}
    (h : (n : Int) = ((es.findSome? g).getD d : Nat)) (ha : es.findSome? g = some a) : n = a := by
  rw [ha, Option.getD_some] at h
  exact Int.ofNat.inj h

theorem getD_of_absent {g : Entry → Option Nat} {n d : Nat}
    (h : (n : Int) = ((es.findSome? g).getD d : Nat)) (hnone : es.findSome? g = none) : n = d := by
  rw [hnone, Option.getD_none] at h
  exact Int.ofNat.inj h

theorem means_of_entries (h : List.Forall₂ PartOf ps es) (hr : ruleOfEntries es = .ok r) :
    Means ps r := by
  obtain ⟨f, hf, hrule⟩ := ruleOfEntries_eq_ok_iff.mp hr
  have hfields := Rule.fields_of_rule hrule
  rw [Rule.fields, Fields.ofEntries, Fields.mk.injEq] at hfields
  obtain ⟨hfrequency, hinterval, hbyDay, hbyMonthDay, hcount, hlast⟩ := hfields
  constructor
  case frequency =>
    obtain ⟨value, hp, hvalue⟩ := projects_frequency.given h hf
    rw [hfrequency, ← show value = f.name.toList from hvalue]
    exact hp
  case interval =>
    apply projects_interval.supplies h
    · intro n hn value hvalue
      rw [getD_of_supplied hinterval hn]
      exact hvalue
    · exact getD_of_absent hinterval
  case byDay =>
    apply projects_byDay.supplies h
    · intro days hdays value hvalue
      rw [hbyDay, hdays]
      exact hvalue
    · intro hnone
      rw [hbyDay, hnone]
      rfl
  case byMonthDay =>
    apply projects_byMonthDay.supplies h
    · intro n hn value hvalue
      rw [getD_of_supplied hbyMonthDay hn]
      exact hvalue.2
    · exact getD_of_absent hbyMonthDay
  case count =>
    apply projects_count.supplies h
    · intro n hn value hvalue
      rw [getD_of_supplied hcount hn]
      exact hvalue
    · exact getD_of_absent hcount
  case last =>
    apply projects_last.supplies h
    · intro m hm value hvalue
      exact ⟨m, hlast.trans hm, hvalue⟩
    · exact hlast.trans

theorem Means.grammatical (h : Means ps r)
    (hlegal : ∀ p ∈ ps, ∃ key value, p = part key value ∧ Legal value key)
    (hdistinct : ps.Pairwise (fun p q => ¬SameKey p q)) : Grammatical ps where
  legal := hlegal
  distinct := hdistinct
  frequency := ⟨_, h.frequency⟩
  limit := by
    rintro ⟨hcount, hlast⟩
    obtain ⟨_, -, hvalue⟩ | ⟨habsent, -⟩ := h.count
    · obtain ⟨_, -, m, hm, -⟩ | ⟨habsent, -⟩ := h.last
      · rw [Rule.last?_eq_none hvalue.pos] at hm
        simp at hm
      · exact habsent hlast
    · exact habsent hcount
  weekly hdays := by
    obtain ⟨_, -, hvalue⟩ | ⟨habsent, -⟩ := h.byDay
    · rw [← Rule.weekly_of_byDay hvalue.ne_nil]
      exact h.frequency
    · exact absurd hdays habsent
  monthly hday := by
    obtain ⟨_, -, hvalue⟩ | ⟨habsent, -⟩ := h.byMonthDay
    · rw [← Rule.monthly_of_byMonthDay hvalue.pos]
      exact h.frequency
    · exact absurd hday habsent

namespace Grammatical

theorem value_unique (hps : Grammatical ps) {key : Key} {v w : List Char} (hv : part key v ∈ ps)
    (hw : part key w ∈ ps) : v = w := by
  by_contra hne
  have hparts : part key v ≠ part key w := fun h => hne (part_injective_iff.mp h).2
  have hsymm : Std.Symm (fun p q => ¬SameKey p q) := ⟨fun _ _ h h' => h h'.symm⟩
  exact hps.distinct.forall hv hw hparts ⟨key, v, w, rfl, rfl⟩

/-- What two rules say of the same parts is told by one value or by a default. -/
theorem supplied_alike (hps : Grammatical ps) {key : Key} {given given' : List Char → Prop}
    {default default' : Prop} (h : Supplies ps key given default)
    (h' : Supplies ps key given' default') :
    (∃ value, given value ∧ given' value) ∨ default ∧ default' := by
  rcases h with ⟨v, hv, hgiven⟩ | ⟨habsent, hdefault⟩
  · rcases h' with ⟨w, hw, hgiven'⟩ | ⟨habsent', -⟩
    · rw [← hps.value_unique hv hw] at hgiven'
      exact .inl ⟨v, hgiven, hgiven'⟩
    · exact absurd ⟨v, hv⟩ habsent'
  · rcases h' with ⟨w, hw, -⟩ | ⟨-, hdefault'⟩
    · exact absurd ⟨w, hw⟩ habsent
    · exact .inr ⟨hdefault, hdefault'⟩

theorem means_unique (hps : Grammatical ps) {r' : Rule} (h : Means ps r) (h' : Means ps r') :
    r = r' := by
  have hnumber {key : Key} {m n d : Nat} (hm : Supplies ps key (Counts · m) (m = d))
      (hn : Supplies ps key (Counts · n) (n = d)) : m = n := by
    obtain ⟨_, hv, hv'⟩ | ⟨hd, hd'⟩ := hps.supplied_alike hm hn
    · exact hv.stands.symm.trans hv'.stands
    · exact hd.trans hd'.symm
  have hfrequency : r.frequency = r'.frequency := by
    apply Frequency.name_injective
    exact String.toList_inj.mp (hps.value_unique h.frequency h'.frequency)
  have hbyDay : r.byDay = r'.byDay := by
    obtain ⟨_, hv, hv'⟩ | ⟨hd, hd'⟩ := hps.supplied_alike h.byDay h'.byDay
    · exact Entry.byDay.inj (denotes_unique (e := .byDay r.byDay) rfl hv hv')
    · exact hd.trans hd'.symm
  have hlast : r.last? = r'.last? := by
    obtain ⟨_, ⟨m, hm, hv⟩, n, hn, hv'⟩ | ⟨hd, hd'⟩ := hps.supplied_alike h.last h'.last
    · rw [hm, hn, Entry.last.inj (denotes_unique (e := .last m) (f := .last n) rfl hv hv')]
    · exact hd.trans hd'.symm
  have hfields : r.fields = r'.fields := by
    rw [Rule.fields, Rule.fields, hfrequency, hnumber h.interval h'.interval, hbyDay,
      hnumber h.byMonthDay h'.byMonthDay, hnumber h.count h'.count, hlast]
  have hback := r.rule_fields
  rw [hfields, r'.rule_fields, Except.ok.injEq] at hback
  exact hback.symm

theorem frequency_eq (hps : Grammatical ps) (h : List.Forall₂ PartOf ps es) {f g : Frequency}
    (hf : es.findSome? Entry.frequency? = some f) (hg : part .frequency g.name.toList ∈ ps) :
    f = g := by
  obtain ⟨value, hp, hvalue⟩ := projects_frequency.given h hf
  rw [hps.value_unique hp hg] at hvalue
  exact (Frequency.name_injective (String.toList_inj.mp hvalue)).symm

theorem exists_rule (hps : Grammatical ps) (h : List.Forall₂ PartOf ps es) :
    ∃ r, ruleOfEntries es = .ok r := by
  obtain ⟨f, -, hf, -⟩ := projects_frequency.exists_of_has h hps.frequency
  have hrule : ∃ r, (Fields.ofEntries f es).rule = .ok r := by
    apply Fields.exists_rule
    case hinterval =>
      cases hn : es.findSome? Entry.interval? with
      | none => simp [Fields.ofEntries, hn]
      | some n =>
        obtain ⟨value, -, hvalue⟩ := projects_interval.given h hn
        have hpos := hvalue.pos
        simp only [Fields.ofEntries, hn, Option.getD_some]
        omega
    case hcount => exact Int.natCast_nonneg _
    case hday =>
      cases hn : es.findSome? Entry.byMonthDay? with
      | none => simp [Fields.ofEntries, hn]
      | some n =>
        obtain ⟨value, -, hle, -⟩ := projects_byMonthDay.given h hn
        simp only [Fields.ofEntries, hn, Option.getD_some]
        omega
    case hlimit =>
      intro hpos
      cases hm : es.findSome? Entry.last? with
      | none => exact hm
      | some m =>
        cases hn : es.findSome? Entry.count? with
        | none => simp [Fields.ofEntries, hn] at hpos
        | some n =>
          obtain ⟨v, hv, -⟩ := projects_count.given h hn
          obtain ⟨w, hw, -⟩ := projects_last.given h hm
          exact absurd ⟨⟨v, hv⟩, ⟨w, hw⟩⟩ hps.limit
    case hweekly =>
      intro hne
      cases hd : es.findSome? Entry.byDay? with
      | none => simp [Fields.ofEntries, hd] at hne
      | some days =>
        obtain ⟨v, hv, -⟩ := projects_byDay.given h hd
        exact hps.frequency_eq h hf (hps.weekly ⟨v, hv⟩)
    case hmonthly =>
      intro hne
      cases hd : es.findSome? Entry.byMonthDay? with
      | none => simp [Fields.ofEntries, hd] at hne
      | some day =>
        obtain ⟨v, hv, -⟩ := projects_byMonthDay.given h hd
        exact hps.frequency_eq h hf (hps.monthly ⟨v, hv⟩)
  obtain ⟨r, hr⟩ := hrule
  exact ⟨r, ruleOfEntries_eq_ok_iff.mpr ⟨f, hf, hr⟩⟩

end Grammatical

end

/-! Texts -/

theorem readRule_eq_ok_iff {cs : List Char} {r : Rule} : readRule cs = .ok r ↔
    ∃ es, List.Forall₂ PartOf (split ';' cs) es ∧ (es.map Entry.key).Nodup ∧
      ruleOfEntries es = .ok r := by
  constructor
  · intro h
    unfold readRule at h
    split at h
    · simp at h
    · obtain ⟨es, hes, h⟩ := bind_eq_ok h
      obtain ⟨fs, hfs, hparts, hkeys, -⟩ := readParts_eq_ok_iff.mp hes
      rw [hfs, List.nil_append] at h
      exact ⟨fs, hparts, hkeys, h⟩
  · rintro ⟨es, hparts, hkeys, h⟩
    have hne : cs ≠ [] := by
      rintro rfl
      obtain ⟨e, _, ⟨value, hp, -⟩, -, -⟩ := List.forall₂_cons_left_iff.mp hparts
      simp [part] at hp
    rw [readRule_of_split hne rfl, readParts_eq_ok_iff.mpr ⟨es, rfl, hparts, hkeys, by simp⟩]
    exact h

theorem grammatical_means_of_readRule {cs : List Char} {r : Rule} (h : readRule cs = .ok r) :
    Grammatical (split ';' cs) ∧ Means (split ';' cs) r := by
  obtain ⟨es, hparts, hkeys, hr⟩ := readRule_eq_ok_iff.mp h
  have hmeans := means_of_entries hparts hr
  exact ⟨hmeans.grammatical (legal_of_entries hparts) ((distinct_iff hparts).mpr hkeys), hmeans⟩

theorem exists_rule_of_grammatical {cs : List Char} (h : Grammatical (split ';' cs)) :
    ∃ r, readRule cs = .ok r := by
  obtain ⟨es, hparts⟩ := exists_entries h.legal
  obtain ⟨r, hr⟩ := h.exists_rule hparts
  exact ⟨r, readRule_eq_ok_iff.mpr ⟨es, hparts, (distinct_iff hparts).mp h.distinct, hr⟩⟩

/-- A text is read as the rule that its grammatical parts mean. -/
theorem readRule_iff_means {cs : List Char} {r : Rule} :
    readRule cs = .ok r ↔ Grammatical (split ';' cs) ∧ Means (split ';' cs) r := by
  constructor
  · exact grammatical_means_of_readRule
  · rintro ⟨hgrammatical, hmeans⟩
    obtain ⟨r', hr'⟩ := exists_rule_of_grammatical hgrammatical
    have hmeans' := (grammatical_means_of_readRule hr').2
    rw [hgrammatical.means_unique hmeans hmeans']
    exact hr'

/-! The order of the parts -/

section

variable {ps qs : List (List Char)}

theorem has_of_perm (h : ps.Perm qs) {key : Key} : Has ps key ↔ Has qs key :=
  exists_congr fun _ => h.mem_iff

theorem Supplies.of_perm (h : ps.Perm qs) {key : Key} {given : List Char → Prop} {default : Prop}
    (hps : Supplies ps key given default) : Supplies qs key given default := by
  rcases hps with ⟨value, hp, hvalue⟩ | ⟨habsent, hdefault⟩
  · exact .inl ⟨value, h.mem_iff.mp hp, hvalue⟩
  · exact .inr ⟨fun hqs => habsent ((has_of_perm h).mpr hqs), hdefault⟩

theorem Means.of_perm (h : ps.Perm qs) {r : Rule} (hps : Means ps r) : Means qs r where
  frequency := h.mem_iff.mp hps.frequency
  interval := hps.interval.of_perm h
  byDay := hps.byDay.of_perm h
  byMonthDay := hps.byMonthDay.of_perm h
  count := hps.count.of_perm h
  last := hps.last.of_perm h

theorem Grammatical.of_perm (h : ps.Perm qs) (hps : Grammatical ps) : Grammatical qs where
  legal p hp := hps.legal p (h.mem_iff.mpr hp)
  distinct := (h.pairwise_iff fun hpq hqp => hpq hqp.symm).mp hps.distinct
  frequency := (has_of_perm h).mp hps.frequency
  limit hqs := hps.limit ⟨(has_of_perm h).mpr hqs.1, (has_of_perm h).mpr hqs.2⟩
  weekly hqs := h.mem_iff.mp (hps.weekly ((has_of_perm h).mpr hqs))
  monthly hqs := h.mem_iff.mp (hps.monthly ((has_of_perm h).mpr hqs))

end

theorem readRule_of_perm {cs cs' : List Char} (h : (split ';' cs').Perm (split ';' cs)) (r : Rule) :
    readRule cs' = .ok r ↔ readRule cs = .ok r := by
  rw [readRule_iff_means, readRule_iff_means]
  constructor
  · rintro ⟨hgrammatical, hmeans⟩
    exact ⟨hgrammatical.of_perm h, hmeans.of_perm h⟩
  · rintro ⟨hgrammatical, hmeans⟩
    exact ⟨hgrammatical.of_perm h.symm, hmeans.of_perm h.symm⟩

theorem split_join_of_perm {cs : List Char} {ps : List (List Char)} (h : ps.Perm (split ';' cs)) :
    split ';' (join [';'] ps) = ps := by
  apply split_join
  · rintro rfl
    exact split_ne_nil ';' cs h.nil_eq.symm
  · intro p hp
    exact not_mem_of_mem_split (h.mem_iff.mp hp)

/-- A text is read as a rule exactly if its parts are grammatical; the rule is
then what the parts stand for, in whatever order they are. -/
theorem readRule_exactly_grammatical (cs : List Char) :
    ((∃ r, readRule cs = .ok r) ↔ Grammatical (split ';' cs)) ∧
      (∀ r, readRule cs = .ok r ↔ Grammatical (split ';' cs) ∧ Means (split ';' cs) r) ∧
      ∀ ps, ps.Perm (split ';' cs) →
        ∀ r, readRule (join [';'] ps) = .ok r ↔ readRule cs = .ok r := by
  refine ⟨⟨?_, exists_rule_of_grammatical⟩, fun r => readRule_iff_means, ?_⟩
  · rintro ⟨r, hr⟩
    exact (grammatical_means_of_readRule hr).1
  · intro ps hps
    exact readRule_of_perm (by rwa [split_join_of_perm hps])

end Household.Recurrence
