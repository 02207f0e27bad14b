import MetricEngine.Proofs.Execution.ExtraReader

/-!
What a store decodes from the queries of a graph. Each aggregator that a planner states was read from
arguments, with the default period of a valid configuration, and decodes to what was read, so that a store
in memory answers every query.
-/
namespace MetricEngine

theorem Planner.build_answered {config : EngineConfig} (valid : config.validate = .ok ()) {lifting : Bool}
    {now : Instant} {program : List StageSpec} {graph : Graph}
    (built : build ⟨config.defaults, lifting⟩ now program = .ok graph) {id : Nat} {stage : Stage}
    {query : Query} (found : graph.stage? id = some stage) (asks : stage.query? = some query)
    {store : MemoryStore} (up : store.failure = none) :
    ∃ response, store.outcome query = .answered response := by
  obtain ⟨_, _, carries⟩ := build_carries (EngineConfig.sampling_inBounds valid) built found asks
  exact ⟨_, MemoryStore.outcome_eq up carries⟩

/-- With the default period of a valid configuration, an aggregation that is read from arguments is what its
form in queries decodes to; its period is positive and its percentile in range. Every period is stated in
the largest unit that divides it and is got back exactly. A store in memory answers every query of a graph
unless it is set to fail. -/
theorem backend_forms_decode {config : EngineConfig} (valid : config.validate = .ok ()) :
    (∀ kind given aggregation,
      ((Aggregation.read kind config.defaults.sampling).on given).1 = .ok aggregation →
      Aggregation.ofAggregator aggregation.toAggregator = .ok aggregation ∧ aggregation.Statable ∧
      ∀ target, aggregation.function = .percentile target →
        Binary64.le 0 target ∧ Binary64.le target .hundred ∧ target.isFinite) ∧
    (∀ millis, 0 ≤ millis → millis ≤ Period.longestMillis →
      (Sampling.ofSpan (.ofMillis millis)).States millis ∧
      (Sampling.ofSpan (.ofMillis millis)).span? = some (.ofMillis millis)) ∧
    ∀ lifting now program graph, Planner.build ⟨config.defaults, lifting⟩ now program = .ok graph →
      ∀ id stage query, graph.stage? id = some stage → stage.query? = some query →
      ∀ store : MemoryStore, store.failure = none →
        ∃ response, store.outcome query = .answered response := by
  refine ⟨?_, ?_, ?_⟩
  · intro kind given aggregation read
    have bounds := EngineConfig.sampling_inBounds valid
    have statable := ((Aggregation.read_ensures bounds).on (Prod.ext read rfl)).2
    have percentage :=
      (Aggregation.read_function (Aggregation.readFunction_percentage kind)).on (Prod.ext read rfl)
    exact ⟨Aggregation.ofAggregator_toAggregator statable, statable, percentage⟩
  · intro millis nonnegative short
    exact ⟨Sampling.ofSpan_states nonnegative, Sampling.ofSpan_span? nonnegative short⟩
  · intro lifting now program graph built id stage query found asks store up
    exact Planner.build_answered valid built found asks up

/-- A high percentile over ninety seconds, which are not whole minutes. -/
def slowestAnswers : List StageSpec :=
  [.ofKind .select "latency",
    { StageSpec.ofKind .aggregate "percentile" with
      args := .ofList [("percentile", .int 99), ("period", .str "90s")] }]

/-- The query of its second stage, into which the percentile is lifted. -/
def slowestAnswersQuery : Query where
  range := .endingAt .epoch (.ofMillis 3600000)
  metrics := [⟨"latency", .empty, [],
    [⟨"percentile", some ⟨90, .seconds⟩, .ofList [("percentile", .double (.ofNat 99))]⟩]⟩]

def slowestAnswersGraph : Graph where
  all := #[⟨1, none, .select ⟨.endingAt .epoch (.ofMillis 3600000), [⟨"latency", .empty, [], []⟩]⟩, [], [],
      none⟩,
    ⟨2, none, .select slowestAnswersQuery, [], [], some 1⟩]
  root := 2

theorem slowestAnswers_decode :
    Aggregation.ofAggregator
        ⟨"percentile", some ⟨90, .seconds⟩, .ofList [("percentile", .double (.ofNat 99))]⟩ =
      .ok ⟨.percentile (.ofNat 99), some (.ofMillis 90000)⟩ ∧
    Planner.build ⟨EngineConfig.standard.defaults, true⟩ .epoch slowestAnswers = .ok slowestAnswersGraph ∧
    ∃ response, MemoryStore.empty.outcome slowestAnswersQuery = .answered response := by
  have valid : EngineConfig.standard.validate = .ok () := rfl
  have built : Planner.build ⟨EngineConfig.standard.defaults, true⟩ .epoch slowestAnswers =
    .ok slowestAnswersGraph := rfl
  obtain ⟨decodes, _, answers⟩ := backend_forms_decode valid
  refine ⟨?_, built, ?_⟩
  · exact (decodes .percentile (.ofList [("percentile", .int 99), ("period", .str "90s")])
      ⟨.percentile (.ofNat 99), some (.ofMillis 90000)⟩ rfl).1
  · exact answers true .epoch slowestAnswers slowestAnswersGraph built 2 _ slowestAnswersQuery rfl rfl
      .empty rfl

end MetricEngine
