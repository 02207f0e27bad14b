import MetricEngine.Proofs.Config.Validity
import MetricEngine.Proofs.Program.Acceptance

/-!
Which aggregators accept the periods that a valid configuration supplies, when a program gives what they
require and leaves out all else.
-/
namespace MetricEngine
open ArgumentFault

/-- A field is left out, or stated as null. -/
def Omitted (given : Table Json) (field : String) : Prop :=
  given.get? field = none ∨ given.get? field = some .null

/-- A field is given, with a value that is accepted. -/
def Gives {α : Type} (given : Table Json) (field : String) (decode : Json → Except ArgumentFault α)
    (accepted : α → Prop) : Prop :=
  ∃ json value, given.get? field = some json ∧ json ≠ .null ∧ decode json = .ok value ∧ accepted value

namespace AggregatorKind

/-- The fields that an aggregator does without. -/
def optionalFields : AggregatorKind → List String
  | .min | .max | .merge | .percentile | .count | .avg | .sum => ["period"]
  | .diff | .union => []
  | .threshold | .dataAbsent => ["dwell_period", "recovery_period"]
  | .top => ["count", "invert"]
  | .bottom => ["count"]

/-- The fields that an aggregator cannot do without are given, with values that it accepts. -/
def RequirementsMet (given : Table Json) : AggregatorKind → Prop
  | .percentile => Gives given "percentile" decodeNumber fun target =>
      Binary64.le 0 target ∧ Binary64.le target .hundred
  | .threshold => Gives given "threshold" decodeNumber (fun limit => limit.isFinite) ∧
      Gives given "operator" decodeString fun name => (Comparison.ofName? name).isSome
  | _ => True

end AggregatorKind

/-- An aggregator is given what it requires and nothing that it does without. Unknown arguments may be
among those given. -/
structure OnlyRequired (kind : AggregatorKind) (given : Table Json) : Prop where
  required : kind.RequirementsMet given
  omitted : ∀ field ∈ kind.optionalFields, Omitted given field

/-- The period that stands in for a field of an aggregator that is left out, in seconds. -/
inductive EngineConfig.StandsIn (config : EngineConfig) : AggregatorKind → String → Int → Prop where
  | sampling {kind : AggregatorKind} : kind.hasSampling →
      config.StandsIn kind "period" config.query.samplingSeconds
  | thresholdDwell : config.StandsIn .threshold "dwell_period" config.alerts.thresholdDwellSeconds
  | thresholdRecovery : config.StandsIn .threshold "recovery_period" config.alerts.recoverySeconds
  | absenceDwell : config.StandsIn .dataAbsent "dwell_period" config.alerts.absenceDwellSeconds
  | absenceRecovery : config.StandsIn .dataAbsent "recovery_period" config.alerts.recoverySeconds

namespace ArgumentRule
variable {α : Type} {given : Table Json} {field : String} {decode : Json → Except ArgumentFault α}

theorem decoded_omitted (omitted : Omitted given field) (reject : Option α → Option ArgumentFault) :
    (decoded field decode reject).error? given = (reject none).map (.invalidArgument field) := by
  rcases omitted with missing | null
  · simp only [error?, decoded, missing, value?]
  · simp only [error?, decoded, null, value?]

theorem required_given {accepted : α → Prop} (gives : Gives given field decode accepted)
    {reject : α → Option ArgumentFault} (accepts : ∀ value, accepted value → reject value = none) :
    (required field decode reject).error? given = none := by
  obtain ⟨json, value, found, stated, reads, holds⟩ := gives
  simp only [error?, required, decoded, found, value?_some stated, reads, Except.map, accepts value holds,
    Option.map_none]

/-- A period that stands in for one left out is refused exactly if it is not positive. -/
theorem positivePeriod_omitted (omitted : Omitted given field) (seconds : Int) :
    (positivePeriod field (.ofMillis (seconds * 1000))).error? given =
      if seconds ≤ 0 then some (.invalidArgument field .notPositive) else none := by
  have nonpositive : Span.ofMillis (seconds * 1000) ≤ .zero ↔ seconds ≤ 0 := by
    change seconds * 1000 * 1000000 ≤ 0 ↔ seconds ≤ 0
    omega
  rw [positivePeriod, decoded_omitted omitted]
  simp only [Option.getD_none, nonpositive]
  split <;> rfl

/-- Stating a value for a field that was left out changes nothing if it is refused like none. -/
theorem decoded_stated {reject : Option α → Option ArgumentFault} {json : Json} {value : α}
    (omitted : Omitted given field) (stated : json ≠ .null) (reads : decode json = .ok value)
    (same : reject (some value) = reject none) :
    (decoded field decode reject).error? (given.insert field json) =
      (decoded field decode reject).error? given := by
  rw [decoded_omitted omitted, ← same]
  simp only [error?, decoded, Table.get?_insert, if_true, value?_some stated, reads, Except.map]

theorem mem_ofKind_sampled {defaults : PlanDefaults} {kind : AggregatorKind} {rule : ArgumentRule}
    (sampled : kind.hasSampling) (enforced : rule ∈ ofKind defaults kind) :
    rule = percentage "percentile" ∨ rule = positivePeriod "period" defaults.sampling := by
  cases kind <;> simp_all [ofKind, AggregatorKind.hasSampling, AggregatorKind.isLiftable]

theorem error?_insert {rule : ArgumentRule} (other : field ≠ rule.field) (json : Json) :
    rule.error? (given.insert field json) = rule.error? given := by
  rw [error?, error?, Table.get?_insert, if_neg (Ne.symm other)]

end ArgumentRule

namespace EngineConfig
open ArgumentRule
variable {config : EngineConfig} {kind : AggregatorKind} {field : String} {seconds : Int}
  {given : Table Json}

namespace StandsIn

theorem bounds (stands : config.StandsIn kind field seconds) (valid : config.Valid) :
    0 ≤ seconds ∧ seconds ≤ longestSeconds := by
  cases stands with
  | sampling => exact ⟨Int.le_of_lt valid.sampling.1, valid.sampling.2⟩
  | thresholdDwell => exact valid.thresholdDwell
  | thresholdRecovery => exact valid.recovery
  | absenceDwell => exact valid.absenceDwell
  | absenceRecovery => exact valid.recovery

theorem optional (stands : config.StandsIn kind field seconds) : field ∈ kind.optionalFields := by
  cases stands with
  | @sampling kind sampled =>
    cases kind <;> simp_all [AggregatorKind.optionalFields, AggregatorKind.hasSampling,
      AggregatorKind.isLiftable]
  | _ => simp [AggregatorKind.optionalFields]

theorem reads (stands : config.StandsIn kind field seconds) (valid : config.Valid) :
    decodePeriod (.int seconds) = .ok (.ofMillis (seconds * 1000)) := by
  obtain ⟨nonnegative, short⟩ := stands.bounds valid
  have fits : seconds ≤ Text.int64Max := by
    rw [longestSeconds] at short
    rw [Text.int64Max]
    omega
  rw [decodePeriod, Period.ofJson, if_pos fits, Period.ofSeconds_eq_ok nonnegative short]
  rfl

/-- All that is asked of a field with a default is that it is a period, or a positive one. -/
theorem rule (stands : config.StandsIn kind field seconds) {rule : ArgumentRule}
    (enforced : rule ∈ ofKind config.defaults kind) (same : field = rule.field) :
    rule = .optional field decodePeriod ∨ rule = positivePeriod field (.ofMillis (seconds * 1000)) := by
  cases stands with
  | sampling sampled =>
    rcases mem_ofKind_sampled sampled enforced with rfl | rfl
    · exact absurd same (by decide)
    · exact .inr rfl
  | thresholdDwell =>
    simp only [ofKind, List.mem_cons, List.not_mem_nil, or_false] at enforced
    rcases enforced with rfl | rfl | rfl | rfl
    · exact absurd same (by decide)
    · exact absurd same (by decide)
    · exact absurd same (by decide)
    · exact .inl rfl
  | thresholdRecovery =>
    simp only [ofKind, List.mem_cons, List.not_mem_nil, or_false] at enforced
    rcases enforced with rfl | rfl | rfl | rfl
    · exact absurd same (by decide)
    · exact absurd same (by decide)
    · exact .inl rfl
    · exact absurd same (by decide)
  | absenceDwell =>
    simp only [ofKind, List.mem_cons, List.not_mem_nil, or_false] at enforced
    rcases enforced with rfl | rfl
    · exact .inr rfl
    · exact absurd same (show "dwell_period" ≠ "recovery_period" by decide)
  | absenceRecovery =>
    simp only [ofKind, List.mem_cons, List.not_mem_nil, or_false] at enforced
    rcases enforced with rfl | rfl
    · exact absurd same (show "recovery_period" ≠ "dwell_period" by decide)
    · exact .inl rfl

/-- Stating a default changes nothing about which arguments are refused. -/
theorem firstError?_stated (stands : config.StandsIn kind field seconds) (valid : config.Valid)
    (omitted : Omitted given field) :
    firstError? (ofKind config.defaults kind) (given.insert field (.int seconds)) =
      firstError? (ofKind config.defaults kind) given := by
  refine firstError?_congr fun rule enforced => ?_
  by_cases same : field = rule.field
  · rcases stands.rule enforced same with rfl | rfl
    · exact decoded_stated omitted (by simp) (stands.reads valid) rfl
    · exact decoded_stated omitted (by simp) (stands.reads valid) rfl
  · exact error?_insert same _

end StandsIn
/-- The only default that can be refused is a dwell period of zero for the alert on missing data. -/
theorem firstError?_onlyRequired (valid : config.Valid) (only : OnlyRequired kind given) :
    firstError? (ofKind config.defaults kind) given =
      if kind = .dataAbsent ∧ config.alerts.absenceDwellSeconds = 0 then
        some (.invalidArgument "dwell_period" .notPositive)
      else none := by
  obtain ⟨required, omitted⟩ := only
  have sampling : Omitted given "period" →
      (positivePeriod "period" config.defaults.sampling).error? given = none := by
    intro left_out
    rw [defaults, positivePeriod_omitted left_out, if_neg (Int.not_le.mpr valid.sampling.1)]
  cases kind with
  | min | max | merge | count | avg | sum =>
    simp [ofKind, firstError?, sampling (omitted "period" (by decide))]
  | percentile =>
    have target : (percentage "percentile").error? given = none :=
      required_given required fun x inside => by simp [inside.1, inside.2]
    simp [ofKind, firstError?, target, sampling (omitted "period" (by decide))]
  | diff => rfl
  | union => rfl
  | threshold =>
    have limit : (finiteNumber "threshold").error? given = none :=
      required_given required.1 fun x finite => by simp [finite]
    have operator : (comparison "operator").error? given = none :=
      required_given required.2 fun name known => by simp [known]
    have recovery : (optional "recovery_period" decodePeriod).error? given = none :=
      decoded_omitted (omitted _ (by decide)) _
    have dwell : (optional "dwell_period" decodePeriod).error? given = none :=
      decoded_omitted (omitted _ (by decide)) _
    simp [ofKind, firstError?, limit, operator, recovery, dwell]
  | dataAbsent =>
    have zero : config.alerts.absenceDwellSeconds ≤ 0 ↔ config.alerts.absenceDwellSeconds = 0 :=
      ⟨fun nonpositive => Int.le_antisymm nonpositive valid.absenceDwell.1, Int.le_of_eq⟩
    have dwell := positivePeriod_omitted (omitted "dwell_period" (by decide))
      config.alerts.absenceDwellSeconds
    have recovery : (optional "recovery_period" decodePeriod).error? given = none :=
      decoded_omitted (omitted _ (by decide)) _
    simp only [ofKind, defaults, firstError?_cons, dwell, recovery, zero, true_and, Option.none_or]
    exact Option.or_none
  | top =>
    have count : (positiveCount "count").error? given = none :=
      decoded_omitted (omitted _ (by decide)) _
    have invert : (optional "invert" decodeBoolean).error? given = none :=
      decoded_omitted (omitted _ (by decide)) _
    simp [ofKind, firstError?, count, invert]
  | bottom =>
    have count : (positiveCount "count").error? given = none :=
      decoded_omitted (omitted _ (by decide)) _
    simp [ofKind, firstError?, count]

end EngineConfig

/-- With the periods of a valid configuration, an aggregator that is given what it requires is accepted
without all else, and lifted, unless it is the alert on missing data and its dwell period is zero: validity
allows that, but the alert wants a positive one. Stating a default is refused like leaving it out. -/
theorem default_periods_accepted {config : EngineConfig} (valid : config.validate = .ok ())
    {kind : AggregatorKind} {given : Table Json} (only : OnlyRequired kind given) :
    ((∃ operation, ((Operation.read kind config.defaults).on given).1 = .ok operation) ↔
      (kind = .dataAbsent → config.alerts.absenceDwellSeconds ≠ 0)) ∧
    (∀ error, ((Operation.read kind config.defaults).on given).1 = .error error →
      error = .invalidArgument "dwell_period" .notPositive) ∧
    (kind.isLiftable → ∀ lifting draft spec select query, spec.args = given →
      ∃ lifted, Planner.lift ⟨config.defaults, lifting⟩ draft spec kind select query = .ok lifted) ∧
    ∀ field seconds, config.StandsIn kind field seconds → ∀ error,
      ((Operation.read kind config.defaults).on (given.insert field (.int seconds))).1 = .error error ↔
        ((Operation.read kind config.defaults).on given).1 = .error error := by
  have valid := EngineConfig.validate_eq_ok_iff.mp valid
  have enforced := ArgumentRule.ofKind_enforced config.defaults kind
  have first := EngineConfig.firstError?_onlyRequired valid only
  refine ⟨?_, ?_, ?_, ?_⟩
  · rw [(enforced.outcome given).exists_ok_iff, first]
    simp
  · intro error refused
    rw [(enforced.outcome given).eq_error_iff, first, Option.ite_none_right_eq_some] at refused
    exact (Option.some.inj refused.2).symm
  · rintro liftable lifting draft spec select query rfl
    have other : ¬(kind = .dataAbsent ∧ config.alerts.absenceDwellSeconds = 0) := by
      rintro ⟨rfl, _⟩
      simp [AggregatorKind.isLiftable] at liftable
    rw [if_neg other] at first
    have lifted : Outcome draft.Adds _ (Planner.lift ⟨config.defaults, lifting⟩ draft spec kind select
        query) := Planner.lift_outcome liftable spec select query
    exact lifted.exists_ok_iff.mpr first
  · intro field seconds stands error
    rw [(enforced.outcome _).eq_error_iff, (enforced.outcome _).eq_error_iff,
      stands.firstError?_stated valid (only.omitted field stands.optional)]

/-- A limit of zero, with the periods left to the configuration. -/
def aboveZero : Table Json := .ofList [("operator", .str ">"), ("threshold", .double .zero)]

theorem aboveZero_accepted : OnlyRequired .threshold aboveZero ∧
    ∃ operation, ((Operation.read .threshold EngineConfig.standard.defaults).on aboveZero).1 =
      .ok operation := by
  have only : OnlyRequired .threshold aboveZero := {
    required := ⟨⟨.double .zero, .zero, rfl, by simp, rfl, rfl⟩, ⟨.str ">", ">", rfl, by simp, rfl, rfl⟩⟩
    omitted := by
      simp only [AggregatorKind.optionalFields, List.forall_mem_cons]
      exact ⟨.inl rfl, .inl rfl, List.forall_mem_nil _⟩ }
  have accepted := default_periods_accepted (show EngineConfig.standard.validate = .ok () from rfl) only
  exact ⟨only, accepted.1.mpr (by simp)⟩

/-- A valid configuration that lets the alert on missing data have no dwell period. -/
def withoutDwell : EngineConfig := { alerts := { absenceDwellSeconds := 0 } }

theorem withoutDwell_refused : withoutDwell.validate = .ok () ∧ OnlyRequired .dataAbsent .empty ∧
    ((Operation.read .dataAbsent withoutDwell.defaults).on .empty).1 =
      .error (.invalidArgument "dwell_period" .notPositive) := by
  refine ⟨rfl, ⟨trivial, ?_⟩, rfl⟩
  intro field _
  exact .inl rfl

end MetricEngine
