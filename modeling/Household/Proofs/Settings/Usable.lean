import Household.Proofs.Number.Names
import Household.Settings
import Household.Simulation.Step

/-!
# What accepted settings are good for

The check of a numeric setting refuses what is at most zero. It lets through
a real setting that is no number, which is not positive, and numbers of days
that no duration has. All other accepted settings are positive, and a
household can be built from them.
-/

set_option autoImplicit false

namespace Household

open Household.Calendar Household.Decimal Household.Simulation

theorem Decimal.Binary.ofInt_numerator (n : Int) : (Binary.ofInt n).numerator = n := by
  have hpow : Nat.pow 2 (0 : Int).toNat = 1 := rfl
  simp only [Binary.ofInt, Binary.numerator, Binary.signed, Binary.ratio, decide_eq_true_eq, hpow,
    Nat.mul_one]
  split <;> omega

theorem Number.whole_lt_whole (m n : Int) : Number.whole m < .whole n ↔ m < n := by
  have hone : (((Binary.ofInt n).denominator : Nat) : Int) = 1 ∧
      (((Binary.ofInt m).denominator : Nat) : Int) = 1 := ⟨rfl, rfl⟩
  show decide _ = true ↔ _
  rw [decide_eq_true_iff, Binary.ofInt_numerator, Binary.ofInt_numerator, hone.1, hone.2,
    Int.mul_one, Int.mul_one]

theorem Number.not_le_of_lt {a b : Number} (h : b < a) : ¬ a ≤ b := by
  have hless : b.less a = true := h
  show ¬ a.atMost b = true
  simp [Number.atMost, hless]

theorem Number.real_positive_iff {x : Double} (h : ¬ Number.real x ≤ 0) :
    0 < Number.real x ↔ x ≠ .notANumber := by
  constructor
  · rintro hpos rfl
    exact absurd hpos (by decide)
  · intro hx
    refine Decidable.byContradiction fun hpos => h ?_
    have hless : (0 : Number).less (.real x) = false := Bool.eq_false_iff.mpr hpos
    have hzero : (0 : Number).exact ≠ .notANumber := by decide
    show Number.atMost (.real x) 0 = true
    simp [Number.atMost, hless, Number.exact, hx]

namespace Json

/-- The value is no number, or a text that names none. -/
def IsNotANumber : Json → Prop
  | string s => Number.SpellsNotANumber s.toList
  | number n => n = .real .notANumber
  | _ => False

theorem toReal_eq_notANumber_iff (j : Json) : j.toReal = .ok .notANumber ↔ j.IsNotANumber := by
  cases j with
  | null => simp [toReal, IsNotANumber]
  | bool b => simp [toReal, IsNotANumber, Double.ofInt_ne_notANumber]
  | number n => cases n <;> simp [toReal, IsNotANumber, Number.toDouble, Double.ofInt_ne_notANumber]
  | string s =>
    simp only [toReal, IsNotANumber, ← Number.readReal?_eq_notANumber_iff]
    split <;> simp_all
  | array items => simp [toReal, IsNotANumber]
  | object members => simp [toReal, IsNotANumber]

theorem not_isNotANumber_of_toInteger {j : Json} {n : Int} (h : j.toInteger = .ok n) :
    ¬ j.IsNotANumber := by
  cases j with
  | number m =>
    rintro rfl
    simp [toInteger] at h
  | string s =>
    intro hs
    simp [toInteger, Number.readInteger?_of_spellsNotANumber hs] at h
  | _ => exact id

end Json

namespace Settings

def amount? (s : Settings) : Setting → Option Number
  | .schedulerInterval => some s.schedulerInterval
  | .writeTimeout => some s.writeTimeout
  | .sendBufferSize => some (.whole s.sendBufferSize)
  | .janitorInterval => some s.janitorInterval
  | .retentionDays => some (.whole s.retentionDays)
  | .groceryLimit => some (.whole s.groceryLimit)
  | .groceryWindow => some s.groceryWindow
  | .logLevel => none

theorem exists_amount (s : Settings) {k : Setting} (hk : k ≠ .logLevel) :
    ∃ x, s.amount? k = some x := by
  cases k with
  | logLevel => exact absurd rfl hk
  | _ => exact ⟨_, rfl⟩

structure Takes (v : Setting → Option Json) (s : Settings) : Prop where
  schedulerInterval : taken positiveReal defaults.schedulerInterval (v .schedulerInterval) =
    .ok s.schedulerInterval
  writeTimeout : taken positiveReal defaults.writeTimeout (v .writeTimeout) = .ok s.writeTimeout
  sendBufferSize : taken positiveInteger defaults.sendBufferSize (v .sendBufferSize) =
    .ok s.sendBufferSize
  janitorInterval : taken positiveReal defaults.janitorInterval (v .janitorInterval) =
    .ok s.janitorInterval
  retentionDays : taken positiveInteger defaults.retentionDays (v .retentionDays) =
    .ok s.retentionDays
  groceryLimit : taken positiveInteger defaults.groceryLimit (v .groceryLimit) =
    .ok s.groceryLimit
  groceryWindow : taken positiveReal defaults.groceryWindow (v .groceryWindow) =
    .ok s.groceryWindow

variable {v : Setting → Option Json} {s : Settings} {j? : Option Json}

theorem takes_of_ofValues (h : ofValues v = .ok s) : Takes v s := by
  unfold ofValues at h
  dsimp only at h
  split at h
  · cases h
    constructor <;> assumption
  · cases h

theorem positiveReal_eq_ok {j : Json} {x : Number} (h : positiveReal j = .ok x) :
    ∃ d, j.toReal = .ok d ∧ ¬ Number.real d ≤ 0 ∧ x = .real d := by
  unfold positiveReal at h
  cases hj : j.toReal with
  | error i => simp [hj, bind, Except.bind] at h
  | ok d =>
    simp only [hj, bind, Except.bind] at h
    split at h
    · cases h
    · next hd => exact ⟨d, rfl, hd, (Except.ok.inj h).symm⟩

theorem positiveInteger_eq_ok {j : Json} {n : Int} (h : positiveInteger j = .ok n) :
    j.toInteger = .ok n ∧ 0 < n := by
  unfold positiveInteger at h
  cases hj : j.toInteger with
  | error i => simp [hj, bind, Except.bind] at h
  | ok m =>
    simp only [hj, bind, Except.bind] at h
    split at h
    · cases h
    · next hm =>
      obtain rfl := Except.ok.inj h
      exact ⟨rfl, by omega⟩

theorem real_taken {dflt x : Number} (hdflt : 0 < dflt) (h : taken positiveReal dflt j? = .ok x) :
    ¬ x ≤ 0 ∧ (0 < x ↔ ¬ ∃ j ∈ j?, j.IsNotANumber) := by
  cases j? with
  | none =>
    obtain rfl : dflt = x := Except.ok.inj h
    exact ⟨Number.not_le_of_lt hdflt, by simp [hdflt]⟩
  | some j =>
    obtain ⟨d, hd, hpos, rfl⟩ := positiveReal_eq_ok h
    have hnone : d = .notANumber ↔ j.IsNotANumber := by
      rw [← Json.toReal_eq_notANumber_iff, hd, Except.ok.injEq]
    exact ⟨hpos, by simp [Number.real_positive_iff hpos, hnone]⟩

theorem integer_taken {dflt n : Int} (hdflt : 0 < dflt)
    (h : taken positiveInteger dflt j? = .ok n) : 0 < n ∧ ¬ ∃ j ∈ j?, j.IsNotANumber := by
  cases j? with
  | none =>
    obtain rfl : dflt = n := Except.ok.inj h
    exact ⟨hdflt, by simp⟩
  | some j =>
    obtain ⟨hn, hpos⟩ := positiveInteger_eq_ok h
    exact ⟨hpos, by simp [Json.not_isNotANumber_of_toInteger hn]⟩

/-- Over all numeric settings: the value is positive unless it was given as
no number, which is possible for a real setting only. -/
theorem Takes.positive_iff (h : Takes v s) {k : Setting} {x : Number} (hx : s.amount? k = some x) :
    0 < x ↔ ¬ ∃ j ∈ v k, j.IsNotANumber := by
  have integer {n : Int} {j? : Option Json} (hn : 0 < n ∧ ¬ ∃ j ∈ j?, j.IsNotANumber) :
      0 < Number.whole n ↔ ¬ ∃ j ∈ j?, j.IsNotANumber :=
    ⟨fun _ => hn.2, fun _ => (Number.whole_lt_whole 0 n).mpr hn.1⟩
  cases k with
  | logLevel => cases hx
  | schedulerInterval => exact Option.some.inj hx ▸ (real_taken (by decide) h.schedulerInterval).2
  | writeTimeout => exact Option.some.inj hx ▸ (real_taken (by decide) h.writeTimeout).2
  | janitorInterval => exact Option.some.inj hx ▸ (real_taken (by decide) h.janitorInterval).2
  | groceryWindow => exact Option.some.inj hx ▸ (real_taken (by decide) h.groceryWindow).2
  | sendBufferSize =>
    exact Option.some.inj hx ▸ integer (integer_taken (by decide) h.sendBufferSize)
  | retentionDays => exact Option.some.inj hx ▸ integer (integer_taken (by decide) h.retentionDays)
  | groceryLimit => exact Option.some.inj hx ▸ integer (integer_taken (by decide) h.groceryLimit)

theorem logSeverity_name (l : Log.Level) : logSeverity l.name = .ok l.severity := by
  cases l <;> rfl

end Settings

/-! Building -/

theorem Calendar.Duration.ofDays_eq (n : Int) :
    Duration.ofDays n = if n.natAbs ≤ durationDays then .ok (n * microsPerDay)
      else .error (.tooManyDays n) := by
  have hdiv : n * microsPerDay / microsPerDay = n := Int.mul_ediv_cancel n (by decide)
  rw [Duration.ofDays, Duration.ofMicros, hdiv]

theorem Worker.new?_of_not_le {name : String} {interval : Number} (h : ¬ interval ≤ 0) :
    Worker.new? name interval = some ⟨name, interval, none⟩ := if_neg h

theorem Simulation.build_by_days {c : Configuration} (hscheduler : ¬ c.schedulerInterval ≤ 0)
    (hjanitor : ¬ c.janitorInterval ≤ 0) :
    if c.retentionDays.natAbs ≤ durationDays then ∃ w, build c = .ok w
    else build c = .error (.retention (.tooManyDays c.retentionDays)) := by
  unfold build
  rw [Worker.new?_of_not_le hscheduler, Worker.new?_of_not_le hjanitor, Duration.ofDays_eq]
  split
  · exact ⟨_, rfl⟩
  · rfl

namespace Settings

/-- Of accepted settings each numeric one is positive if and only if it was
not given as no number; a household is built from them if and only if there
are no more days than a duration has, and fails with their number otherwise. -/
theorem accepted_usable_iff {v : Setting → Option Json} {s : Settings}
    (h : ofValues v = .ok s) (clock : Moment) (script : Script) (noted : Bool) :
    (∀ k, k ≠ .logLevel →
      ∃ x, s.amount? k = some x ∧ (0 < x ↔ ¬ ∃ j ∈ v k, j.IsNotANumber)) ∧
    logSeverity s.logLevel.name = .ok s.logLevel.severity ∧
    if s.retentionDays ≤ durationDays then
      ∃ w, build (.ofSettings s clock script noted) = .ok w
    else build (.ofSettings s clock script noted) =
      .error (.retention (.tooManyDays s.retentionDays)) := by
  have hs := takes_of_ofValues h
  refine ⟨fun k hk => ?_, logSeverity_name s.logLevel, ?_⟩
  · obtain ⟨x, hx⟩ := s.exists_amount hk
    exact ⟨x, hx, hs.positive_iff hx⟩
  · have hdays := (integer_taken (by decide) hs.retentionDays).1
    have hbuild := build_by_days (c := .ofSettings s clock script noted)
      (real_taken (by decide) hs.schedulerInterval).1 (real_taken (by decide) hs.janitorInterval).1
    have hnat : s.retentionDays.natAbs ≤ durationDays ↔ s.retentionDays ≤ durationDays := by omega
    simpa only [Configuration.ofSettings, hnat] using hbuild

def oddValues : Setting → Option Json
  | .schedulerInterval => some (.string " +NaN\t")
  | .writeTimeout => some (.number (.real .notANumber))
  | .sendBufferSize => some (.string "1_6.00")
  | .janitorInterval => some (.string "Infinity")
  | .retentionDays => some (.string "999999999")
  | .groceryLimit => some (.bool true)
  | .groceryWindow => none
  | .logLevel => some (.string " warning ")

def oddSettings : Settings where
  schedulerInterval := .real .notANumber
  writeTimeout := .real .notANumber
  sendBufferSize := 16
  janitorInterval := .real (.infinite false)
  retentionDays := 999999999
  groceryLimit := 1
  groceryWindow := .whole 60
  logLevel := .warning

def morning : Moment := ⟨⟨63905706000000000, by decide, by decide⟩, .utc, false⟩

def nobody : Script := ⟨[], [], [], [], [], [], []⟩

/-- The odd values are accepted, as many days as a duration has among them,
and a household is built from them. -/
theorem odd_values_usable :
    ofValues oddValues = .ok oddSettings ∧
    (0 < Number.real .notANumber ↔ ¬ ∃ j ∈ oddValues .schedulerInterval, j.IsNotANumber) ∧
    (0 < Number.whole 16 ↔ ¬ ∃ j ∈ oddValues .sendBufferSize, j.IsNotANumber) ∧
    logSeverity "WARNING" = .ok 30 ∧
    ∃ w, build (.ofSettings oddSettings morning nobody true) = .ok w := by
  have haccepted : ofValues oddValues = .ok oddSettings := rfl
  obtain ⟨hreal, hlevel, hbuild⟩ := accepted_usable_iff haccepted morning nobody true
  obtain ⟨_, ⟨⟩, hinterval⟩ := hreal .schedulerInterval (by decide)
  obtain ⟨_, ⟨⟩, hsize⟩ := hreal .sendBufferSize (by decide)
  rw [if_pos (by decide)] at hbuild
  exact ⟨haccepted, hinterval, hsize, hlevel, hbuild⟩

def alone (k : Setting) (text : String) : Setting → Option Json :=
  fun l => if l = k then some (.string text) else none

/-- An interval that is no number is accepted and is not positive; a thousand
million days are accepted and no household is built with them. -/
theorem accepted_yet_unusable :
    (∃ s, ofValues (alone .schedulerInterval "nan") = .ok s ∧ ¬ 0 < s.schedulerInterval) ∧
    ∃ s e, ofValues (alone .retentionDays "1000000000") = .ok s ∧
      build (.ofSettings s morning nobody true) = .error e ∧
      e.message = "days=1000000000; must have magnitude <= 999999999" := by
  refine ⟨⟨_, rfl, by decide⟩, ⟨_, _, rfl, rfl, by decide⟩⟩

end Settings

end Household
