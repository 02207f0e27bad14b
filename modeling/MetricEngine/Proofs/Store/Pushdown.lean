import MetricEngine.Execution.Run
import MetricEngine.Proofs.Program.Lifting
import MetricEngine.Proofs.Series.NormalForm

/-!
Queries that carry aggregations to a store. If the samples of each group have distinct instants, asking
the store to apply one more aggregation gives what applying it to the store's answer gives.
-/
namespace MetricEngine
open Sample

namespace Query

/-- A query for one metric whose aggregators are the forms of some aggregations. -/
structure Carries (query : Query) (metric : Metric) (aggregations : List Aggregation) : Prop where
  metrics : query.metrics = [metric]
  aggregators : metric.aggregators = aggregations.map Aggregation.toAggregator
  statable : ∀ aggregation ∈ aggregations, aggregation.Statable

/-- The metric when one more aggregator is appended. -/
def extended (metric : Metric) (aggregation : Aggregation) : Metric :=
  { metric with aggregators := metric.aggregators ++ [aggregation.toAggregator] }

theorem Carries.withAggregator {query : Query} {metric : Metric} {aggregations : List Aggregation}
    (carries : query.Carries metric aggregations) {aggregation : Aggregation}
    (statable : aggregation.Statable) :
    (query.withAggregator aggregation.toAggregator).Carries (extended metric aggregation)
      (aggregations ++ [aggregation]) where
  metrics := by rw [Query.withAggregator, carries.metrics]; rfl
  aggregators := by rw [extended, carries.aggregators, List.map_append]; rfl
  statable other member := by
    rcases List.mem_append.mp member with before | last
    · exact carries.statable other before
    · rwa [List.mem_singleton.mp last]

end Query

namespace Metric
variable {metric : Metric} {aggregations : List Aggregation} {aggregation : Aggregation}
  {range : TimeRange} {group : Group}

theorem decode_aggregators (statable : ∀ aggregation ∈ aggregations, aggregation.Statable) :
    (aggregations.map Aggregation.toAggregator).mapM Aggregation.ofAggregator = .ok aggregations := by
  have decodes : ∀ aggregation ∈ aggregations,
      (Aggregation.ofAggregator ∘ Aggregation.toAggregator) aggregation = .ok (id aggregation) :=
    fun aggregation member => Aggregation.ofAggregator_toAggregator (statable aggregation member)
  rw [List.mapM_map, ListFacts.mapM_except_ok decodes, List.map_id]

/-- The samples of a group after all aggregations. -/
def aggregated (aggregations : List Aggregation) (range : TimeRange) (group : Group) : List Sample :=
  aggregations.foldl (fun samples a => a.apply samples) (group.samplesIn range)

theorem answerGroup_values : (metric.answerGroup aggregations range group).values =
    normalize (aggregated aggregations range group) := by
  simp only [answerGroup]
  split <;> rfl

theorem answerGroup_extended :
    (Query.extended metric aggregation).answerGroup (aggregations ++ [aggregation]) range group =
      (metric.answerGroup aggregations range group).withValues
        (aggregation.apply (aggregated aggregations range group)) := by
  unfold answerGroup
  simp only [List.foldl_append, List.foldl_cons, List.foldl_nil, Query.extended]
  split <;> rfl

end Metric

/-- What the operation of a stage of its own does to the normal form of samples with distinct instants. -/
theorem Aggregation.seriesMap?_toOperation (aggregation : Aggregation) (now : Instant) :
    ∃ f, aggregation.toOperation.seriesMap? now = some f ∧
      ∀ (series : Series) (samples : List Sample), series.values = normalize samples →
        Distinct samples → f series = series.withValues (aggregation.apply samples) := by
  rw [toOperation]
  split
  next differences =>
    refine ⟨_, rfl, fun series samples same distinct => ?_⟩
    obtain ⟨function, period⟩ := aggregation
    have is_diff : function = .diff := by cases function <;> simp_all [AggregationFunction.kind]
    subst is_diff
    rw [same, distinct.normalize_eq]
    rfl
  next =>
    refine ⟨_, rfl, fun series samples same distinct => ?_⟩
    rw [same, aggregation.apply_normalize distinct]

namespace MemoryStore

/-- No two samples that are put into one group for a query share an instant. -/
def DistinctTimes (store : MemoryStore) (query : Query) : Prop :=
  ∀ metric ∈ query.metrics, ∀ group ∈ metric.groups store.series,
    Distinct (group.samplesIn query.range)

instance (store : MemoryStore) (query : Query) : Decidable (store.DistinctTimes query) :=
  inferInstanceAs (Decidable (∀ metric ∈ query.metrics, ∀ group ∈ metric.groups store.series,
    ((group.samplesIn query.range).map (·.time)).Nodup))

variable {store : MemoryStore} {query : Query} {metric : Metric} {aggregations : List Aggregation}

theorem DistinctTimes.withAggregator (distinct : store.DistinctTimes query) (aggregator : Aggregator) :
    store.DistinctTimes (query.withAggregator aggregator) := by
  intro metric member group found
  obtain ⟨before, listed, rfl⟩ := List.mem_map.mp member
  exact distinct before listed group found

/-- The answer to a query for one metric. -/
def response (store : MemoryStore) (query : Query) (metric : Metric)
    (aggregations : List Aggregation) : Response :=
  ⟨[⟨((metric.groups store.series).flatMap (·.samplesIn query.range)).length,
    (metric.groups store.series).map (metric.answerGroup aggregations query.range)⟩], []⟩

/-- A store that is up answers every query whose aggregators it can decode. -/
theorem outcome_eq (up : store.failure = none) (carries : query.Carries metric aggregations) :
    (store.reply query).outcome = .answered (store.response query metric aggregations) := by
  have decoded := Metric.decode_aggregators carries.statable
  rw [← carries.aggregators] at decoded
  simp only [reply, outcome, up, carries.metrics, List.mapM_cons, List.mapM_nil, Metric.answer, decoded]
  rfl

/-- One more aggregation in the query, or in a stage that reads the select: the results are the same. -/
theorem result_withAggregator (carries : query.Carries metric aggregations)
    (distinct : store.DistinctTimes query) (aggregation : Aggregation) (now : Instant) :
    aggregation.toOperation.result? now
        [RunState.selected (store.response query metric aggregations)] =
      some (RunState.selected (store.response (query.withAggregator aggregation.toAggregator)
        (Query.extended metric aggregation) (aggregations ++ [aggregation]))) := by
  obtain ⟨f, is_map, on_series⟩ := aggregation.seriesMap?_toOperation now
  have on_group : ∀ group ∈ metric.groups store.series,
      f ((metric.answerGroup aggregations query.range group).withValues
          (metric.answerGroup aggregations query.range group).values) =
        ((Query.extended metric aggregation).answerGroup (aggregations ++ [aggregation]) query.range
          group).withValues ((Query.extended metric aggregation).answerGroup
            (aggregations ++ [aggregation]) query.range group).values := by
    intro group member
    have raw : Distinct (group.samplesIn query.range) :=
      distinct metric (by rw [carries.metrics]; exact List.mem_singleton_self _) group member
    have before := Aggregation.foldl_apply_distinct aggregations raw
    rw [Metric.answerGroup_extended, Metric.answerGroup_values,
      on_series _ (Metric.aggregated aggregations query.range group) ?_ before]
    · change (Series.withValues _ _) = Series.withValues (Series.withValues _ _) (normalize _)
      simp only [Series.withValues, Metric.aggregated] at *
      rw [normalize_normalize]
    · exact normalize_normalize _
  have series := List.map_congr_left on_group
  have queries : ∀ queries, aggregation.toOperation.queries? now queries =
      some (queries.map (·.mapSeries f)) := by
    intro queries
    simp only [Operation.queries?, is_map]
  rw [Operation.result?, queries]
  simp only [RunState.selected, response, Result.ofQueries, Result.withErrors, QueryResult.mapSeries,
    List.flatMap_cons, List.flatMap_nil, List.append_nil, List.map_cons, List.map_nil, List.map_map,
    Option.map_some]
  exact congrArg (fun series => some (Result.mk [⟨_, series⟩] [] [])) series

end MemoryStore
end MetricEngine
