import MetricEngine.Config.Defaults
import MetricEngine.Proofs.Execution.AnyStore
import MetricEngine.Proofs.Program.Ranking
import MetricEngine.Proofs.Series.NormalForm

/-!
The order of samples in a run. Selects bring what a store replies into normal form, and every operation
keeps the samples of each series strictly ascending by time. So alerts are only evaluated on series that
are.
-/
namespace MetricEngine
open RunState

namespace QueryResult

/-- The samples of every series are strictly ascending by time. -/
def Ascending (query : QueryResult) : Prop :=
  ∀ series ∈ query.series, Sample.Ascending series.values

theorem Ascending.mapSeries {query : QueryResult} {f : Series → Series} (ascending : query.Ascending)
    (keeps : ∀ series, Sample.Ascending series.values → Sample.Ascending (f series).values) :
    (query.mapSeries f).Ascending := by
  intro series member
  obtain ⟨before, listed, rfl⟩ := List.mem_map.mp member
  exact keeps before (ascending before listed)

end QueryResult

/-- The samples of every series in a result are strictly ascending by time. -/
def Result.Ascending (result : Result) : Prop :=
  ∀ query ∈ result.queries, query.Ascending

namespace Operation
variable {operation : Operation} {now : Instant}

theorem seriesMap?_ascending {f : Series → Series} (is_map : operation.seriesMap? now = some f)
    (series : Series) (ascending : Sample.Ascending series.values) :
    Sample.Ascending (f series).values := by
  cases operation with
  | aggregate aggregation =>
    obtain rfl := Option.some.inj is_map
    exact Sample.normalize_ascending _
  | diff =>
    obtain rfl := Option.some.inj is_map
    exact Sample.normalize_ascending _
  | threshold rule =>
    obtain rfl := Option.some.inj is_map
    exact ascending
  | dataAbsent rule =>
    obtain rfl := Option.some.inj is_map
    exact ascending
  | union => simp [seriesMap?] at is_map
  | rank ranking => simp [seriesMap?] at is_map

theorem queries?_ascending {queries answer : List QueryResult}
    (ascending : ∀ query ∈ queries, query.Ascending)
    (answered : operation.queries? now queries = some answer) : ∀ query ∈ answer, query.Ascending := by
  have together : ∀ series ∈ queries.flatMap (·.series), Sample.Ascending series.values := by
    intro series member
    obtain ⟨query, listed, member⟩ := List.mem_flatMap.mp member
    exact ascending query listed series member
  unfold queries? at answered
  split at answered
  next f is_map =>
    obtain rfl := Option.some.inj answered
    intro query member
    obtain ⟨before, listed, rfl⟩ := List.mem_map.mp member
    exact (ascending before listed).mapSeries (seriesMap?_ascending is_map)
  next ranking _ =>
    obtain rfl := Option.some.inj answered
    intro query member series kept
    obtain rfl := List.mem_singleton.mp member
    exact together series (Ranking.mem_of_selected kept)
  next =>
    obtain ⟨united, fits, rfl⟩ := Option.map_eq_some_iff.mp answered
    rw [unite?] at fits
    split at fits
    next =>
      obtain rfl := Option.some.inj fits
      intro query member
      obtain rfl := List.mem_singleton.mp member
      exact together
    next => simp at fits

end Operation

/-- What a store replies is brought into normal form, whatever order its samples have. -/
theorem RunState.selected_ascending (response : Response) : (selected response).Ascending := by
  intro query member series listed
  obtain ⟨replied, _, rfl⟩ := List.mem_map.mp member
  obtain ⟨before, _, rfl⟩ := List.mem_map.mp listed
  exact Sample.normalize_ascending _

theorem RunSetting.handsOn_ascending (setting : RunSetting) : setting.HandsOn Result.Ascending := by
  intro store stage inputs result ascending answered
  rw [Stage.answer] at answered
  split at answered
  · split at answered
    next response _ =>
      obtain rfl := Except.ok.inj answered
      exact selected_ascending response
    next => simp at answered
    next => simp at answered
  · split at answered
    next found =>
      obtain rfl := Except.ok.inj answered
      obtain ⟨queries, made, rfl⟩ := Option.map_eq_some_iff.mp found
      refine Operation.queries?_ascending (fun query member => ?_) made
      obtain ⟨input, listed, member⟩ := List.mem_flatMap.mp member
      exact ascending input listed query member
    next => simp at answered

/-- Whatever the store replies each time and in whatever order the tasks take their steps, the samples of
every series are strictly ascending by time: in each result that a stage publishes, in each that a stage
takes in for its operation, and in the result of the run. -/
theorem series_ascend (setting : RunSetting) :
    (∀ state, AnyStoreExecution setting state →
      (∀ id result, state.outcome? id = some (.ok result) → result.Ascending) ∧
      (∀ stage inputs, state.inputs? stage = some (.ok inputs) → ∀ input ∈ inputs, input.Ascending) ∧
      ∀ result, (RunReport.ofState setting state).finish = .published (.ok result) →
        result.Ascending) ∧
    ∀ deadline result, (run setting deadline).finish = .published (.ok result) → result.Ascending := by
  have hands_on := setting.handsOn_ascending
  have answered : ∀ state, AnyStoreExecution setting state → ∀ result,
      (RunReport.ofState setting state).finish = .published (.ok result) → result.Ascending := by
    intro state execution result succeeded
    obtain ⟨value, ascending, rfl⟩ := execution.answered hands_on succeeded
    exact ascending
  refine ⟨fun state execution => ⟨fun id result => execution.published hands_on, fun stage inputs =>
    execution.collected hands_on, answered state execution⟩, ?_⟩
  intro deadline result succeeded
  obtain ⟨state, execution, succeeded⟩ := run_anyStore succeeded
  exact answered state execution result succeeded

/-- Samples that are out of order and repeat an instant. -/
def shuffledSamples : List Sample :=
  [⟨.latest, .payload .null⟩, ⟨.epoch, .payload .null⟩, ⟨.latest, .payload (.bool true)⟩]

theorem shuffledSamples_normalize : Sample.normalize shuffledSamples =
    [⟨.epoch, .payload .null⟩, ⟨.latest, .payload (.bool true)⟩] := by
  have forward : Instant.epoch ≤ .latest := by decide
  have backward : ¬Instant.latest ≤ .epoch := by decide
  have sorted : Sample.sort shuffledSamples = [⟨.epoch, .payload .null⟩, ⟨.latest, .payload .null⟩,
      ⟨.latest, .payload (.bool true)⟩] := by
    simp [Sample.sort, shuffledSamples, List.mergeSort, Sample.notLater, forward, backward]
  rw [Sample.normalize, sorted]
  rfl

/-- An alert on a select of these samples. -/
def shuffledReply : RunSetting where
  graph := ⟨#[⟨1, none, .select ⟨⟨.epoch, .epoch⟩, [⟨"m", .empty, [], []⟩]⟩, [], [], none⟩,
    ⟨2, none, .aggregate .dataAbsent (.dataAbsent .standard), [1], [], none⟩], 2⟩
  clock := .epoch
  store _ := ⟨0, .answered ⟨[⟨3, [{ Series.named "m" with values := shuffledSamples }]⟩], []⟩⟩
  limit := 0

/-- The alert is evaluated on two samples. -/
theorem shuffledReply_ascends : ∃ result,
    (run shuffledReply none).finish = .published (.ok result) ∧ result.Ascending ∧
    result.series.map (·.values.map (·.time)) = [[.epoch, .latest]] := by
  have answered : ∃ result, (run shuffledReply none).finish = .published (.ok result) ∧
      result.series.map (·.values.map (·.time)) = [(Sample.normalize shuffledSamples).map (·.time)] :=
    ⟨_, rfl, rfl⟩
  obtain ⟨result, answered, samples⟩ := answered
  rw [shuffledSamples_normalize] at samples
  exact ⟨result, answered, (series_ascend shuffledReply).2 none result answered, samples⟩

end MetricEngine
