import Mathlib.Data.List.Forall2
import MetricEngine.Proofs.Execution.Inputs

/-!
What operations that work on each series by itself leave as it is: the queries of their inputs with their
sample sizes, and the order, names, tags and groupings of the series. Aggregations and differences replace
values, alerts add triggers, and a union only puts series together.
-/
namespace MetricEngine

/-- A trigger of a series for each window. -/
def Series.triggers (series : Series) (windows : List AlertWindow) : List Trigger :=
  windows.map fun window =>
    ⟨window.start, window.finish, window.message, series.alertArgs, series.alertGroup⟩

namespace Operation

def isSeriesWise : Operation → Bool
  | aggregate _ | diff | threshold _ | dataAbsent _ => true
  | union | rank _ => false

def isAlert : Operation → Bool
  | threshold _ | dataAbsent _ => true
  | aggregate _ | diff | union | rank _ => false

/-- What an operation makes of a series by itself: aggregations and differences give it new values, alerts
more triggers behind those that it has. All else is as it was. -/
inductive Changes (now : Instant) : Operation → Series → Series → Prop where
  | aggregate (aggregation : Aggregation) (series : Series) :
      Changes now (.aggregate aggregation) series
        { series with values := Sample.normalize (aggregation.apply series.values) }
  | diff (series : Series) :
      Changes now .diff series { series with values := Sample.normalize (Sample.differences series.values) }
  | threshold (rule : ThresholdRule) (series : Series) :
      Changes now (.threshold rule) series
        { series with alerts := series.alerts ++ series.triggers (rule.windows series.values) }
  | dataAbsent (rule : AbsenceRule) (series : Series) :
      Changes now (.dataAbsent rule) series
        { series with alerts := series.alerts ++ series.triggers (rule.windows now series.values) }

/-- The triggers that an alert adds to a series. -/
def triggers (operation : Operation) (now : Instant) (series : Series) : List Trigger :=
  match operation with
  | threshold rule => series.triggers (rule.windows series.values)
  | dataAbsent rule => series.triggers (rule.windows now series.values)
  | aggregate _ | diff | union | rank _ => []

/-- What an alert finds does not depend on the triggers that are there. -/
theorem triggers_withAlerts (operation : Operation) (now : Instant) (series : Series)
    (alerts : List Trigger) :
    operation.triggers now { series with alerts } = operation.triggers now series := by
  cases operation <;> rfl

theorem Changes.alerts {operation : Operation} {now : Instant} {before after : Series}
    (changes : operation.Changes now before after) (alert : operation.isAlert) :
    after = { before with alerts := before.alerts ++ operation.triggers now before } := by
  cases changes with
  | aggregate => simp [isAlert] at alert
  | diff => simp [isAlert] at alert
  | threshold => rfl
  | dataAbsent => rfl

end Operation

/-- The sum of the sample sizes of all queries. -/
def totalSamples (inputs : List Result) : Nat :=
  ((inputs.flatMap (·.queries)).map (·.sampleSize)).foldl (· + ·) 0

/-- A result has the queries of its inputs one for one, with their sample sizes, and in them the series of
the inputs one for one, each of which is related to what it was. -/
structure SeriesWise (change : Series → Series → Prop) (inputs : List Result) (result : Result) : Prop where
  queries : List.Forall₂
    (fun before after => after.sampleSize = before.sampleSize ∧
      List.Forall₂ change before.series after.series)
    (inputs.flatMap (·.queries)) result.queries
  warnings : result.warnings = []
  errors : result.errors = []

namespace SeriesWise
variable {change further both : Series → Series → Prop} {inputs : List Result} {once result : Result}

/-- All series of the inputs, in their order, have become those of the result. -/
theorem series (frame : SeriesWise change inputs result) :
    List.Forall₂ change (inputs.flatMap (·.series)) result.series := by
  have together : inputs.flatMap (·.series) = (inputs.flatMap (·.queries)).flatMap (·.series) :=
    List.flatMap_assoc.symm
  rw [together]
  exact List.rel_flatMap frame.queries fun _ _ same => same.2

theorem of_map {f : Series → Series} (changes : ∀ series, change series (f series)) :
    SeriesWise change inputs (.ofQueries ((inputs.flatMap (·.queries)).map (·.mapSeries f))) := by
  refine ⟨?_, rfl, rfl⟩
  rw [Result.ofQueries, List.forall₂_map_right_iff, List.forall₂_same]
  intro query _
  refine ⟨rfl, ?_⟩
  rw [QueryResult.mapSeries, List.forall₂_map_right_iff, List.forall₂_same]
  intro series _
  exact changes series

/-- Of two operations one behind the other, each keeps what the other one keeps. -/
theorem trans (first : SeriesWise change inputs once) (second : SeriesWise further [once] result)
    (compose : ∀ a b c, change a b → further b c → both a c) : SeriesWise both inputs result := by
  refine ⟨?_, second.warnings, second.errors⟩
  have behind := second.queries
  rw [List.flatMap_cons, List.flatMap_nil, List.append_nil] at behind
  refine ListFacts.forall₂_trans ?_ first.queries behind
  rintro a b c ⟨size, changed⟩ ⟨same, changed_again⟩
  exact ⟨same.trans size, ListFacts.forall₂_trans compose changed changed_again⟩

end SeriesWise

namespace Operation

theorem seriesMap?_changes {operation : Operation} (series_wise : operation.isSeriesWise) (now : Instant) :
    ∃ f, operation.seriesMap? now = some f ∧ ∀ series, operation.Changes now series (f series) := by
  cases operation with
  | aggregate aggregation => exact ⟨_, rfl, .aggregate aggregation⟩
  | diff => exact ⟨_, rfl, .diff⟩
  | threshold rule => exact ⟨_, rfl, .threshold rule⟩
  | dataAbsent rule => exact ⟨_, rfl, .dataAbsent rule⟩
  | union => simp [isSeriesWise] at series_wise
  | rank ranking => simp [isSeriesWise] at series_wise

theorem result?_seriesWise {operation : Operation} (series_wise : operation.isSeriesWise) (now : Instant)
    (inputs : List Result) : ∃ result, operation.result? now inputs = some result ∧
      SeriesWise (operation.Changes now) inputs result := by
  obtain ⟨f, found, changes⟩ := seriesMap?_changes series_wise now
  refine ⟨_, ?_, .of_map changes⟩
  simp only [result?, queries?, found, Option.map_some]

theorem union_result? (now : Instant) (inputs : List Result) :
    union.result? now inputs =
      if totalSamples inputs ≤ Text.uint64Max then
        some (.ofQueries [⟨totalSamples inputs, inputs.flatMap (·.series)⟩])
      else none := by
  have together : (inputs.flatMap (·.queries)).flatMap (·.series) = inputs.flatMap (·.series) :=
    List.flatMap_assoc
  have queries : union.queries? now (inputs.flatMap (·.queries)) =
      (unite? (inputs.flatMap (·.queries))).map fun query => [query] := rfl
  rw [result?, queries, unite?, together, totalSamples]
  split <;> rfl

/-- Only a union may have no result, of more samples than 64 bits can count. -/
theorem result?_eq_none_iff {operation : Operation} {now : Instant} {inputs : List Result} :
    operation.result? now inputs = none ↔ operation = union ∧ Text.uint64Max < totalSamples inputs := by
  constructor
  · intro missing
    cases operation with
    | union =>
      rw [union_result?] at missing
      split at missing
      · simp at missing
      · exact ⟨rfl, by omega⟩
    | aggregate | diff | threshold | dataAbsent | rank => simp [result?, queries?, seriesMap?] at missing
  · rintro ⟨rfl, tooMany⟩
    rw [union_result?, if_neg (by omega)]

theorem isSeriesWise_of_isAlert {operation : Operation} (alert : operation.isAlert) :
    operation.isSeriesWise := by
  cases operation <;> simp_all [isAlert, isSeriesWise]

/-- An alert behind another one adds the triggers that it would add alone. -/
theorem stacked_alerts {first second : Operation} (first_alert : first.isAlert)
    (second_alert : second.isAlert) (now : Instant) {inputs : List Result} {once : Result}
    (frame : SeriesWise (first.Changes now) inputs once) :
    ∃ result, second.result? now [once] = some result ∧
      SeriesWise (fun before after => after = { before with
        alerts := before.alerts ++ first.triggers now before ++ second.triggers now before })
        inputs result := by
  obtain ⟨result, found, further⟩ := result?_seriesWise (isSeriesWise_of_isAlert second_alert) now [once]
  refine ⟨result, found, frame.trans further fun before between after changes changes_again => ?_⟩
  obtain rfl := changes.alerts first_alert
  obtain rfl := changes_again.alerts second_alert
  simp only [triggers_withAlerts]

end Operation

/-- Aggregations, differences and alerts answer the queries of the distinct stages that they read, in the
order in which these were first given, with their sample sizes and with each series changed by itself. A
union puts all these series into one query as they are, unless the sum of the sample sizes does not fit 64
bits. Two alerts add the same triggers in either order. -/
theorem series_frame (now : Instant) (given : List (Nat × Result)) :
    (∀ operation : Operation, operation.isSeriesWise →
      ∃ result, operation.result? now (recorded given) = some result ∧
        SeriesWise (operation.Changes now) (recorded given) result ∧
        List.Forall₂ (operation.Changes now) ((recorded given).flatMap (·.series)) result.series) ∧
    Operation.union.result? now (recorded given) =
      (if totalSamples (recorded given) ≤ Text.uint64Max then
        some (.ofQueries [⟨totalSamples (recorded given), (recorded given).flatMap (·.series)⟩])
      else none) ∧
    (∀ first second : Operation, first.isAlert → second.isAlert →
      ∃ one other, first.result? now (recorded given) = some one ∧
        second.result? now (recorded given) = some other ∧
      ∃ forth back, second.result? now [one] = some forth ∧ first.result? now [other] = some back ∧
        SeriesWise (fun before after => after = { before with
          alerts := before.alerts ++ first.triggers now before ++ second.triggers now before })
          (recorded given) forth ∧
        SeriesWise (fun before after => after = { before with
          alerts := before.alerts ++ second.triggers now before ++ first.triggers now before })
          (recorded given) back) ∧
    recorded [] = [] ∧
    ∀ id result, recorded (given ++ [(id, result)]) =
      if id ∈ given.map (·.1) then recorded given else recorded given ++ [result] := by
  refine ⟨?_, Operation.union_result? now _, ?_, rfl, recorded_concat given⟩
  · intro operation series_wise
    obtain ⟨result, found, frame⟩ := Operation.result?_seriesWise series_wise now (recorded given)
    exact ⟨result, found, frame, frame.series⟩
  · intro first second first_alert second_alert
    obtain ⟨one, found, frame⟩ :=
      Operation.result?_seriesWise (Operation.isSeriesWise_of_isAlert first_alert) now (recorded given)
    obtain ⟨other, found', frame'⟩ :=
      Operation.result?_seriesWise (Operation.isSeriesWise_of_isAlert second_alert) now (recorded given)
    obtain ⟨forth, is_forth, both⟩ := Operation.stacked_alerts first_alert second_alert now frame
    obtain ⟨back, is_back, both'⟩ := Operation.stacked_alerts second_alert first_alert now frame'
    exact ⟨one, other, found, found', forth, back, is_forth, is_back, both, both'⟩

end MetricEngine
