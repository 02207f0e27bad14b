import MetricEngine.Proofs.Execution.LiftedRuns
import MetricEngine.Proofs.Program.Insertion
import MetricEngine.Proofs.Program.UnknownArguments

/-!
Runs of a program with one more aggregate in it, on which no other stage depends, on a store in memory. The
answer is the same if the samples of each select that the new stage takes from a later one have distinct
instants. Otherwise the later stage, which is no longer lifted, may see fewer samples than the store has.
-/
namespace MetricEngine
open Relation

namespace Graph.Descent
variable {graph : Graph} {program : List StageSpec} {defaultPeriod : Span} {id : Nat} {query : Query}
  {base : Nat} {ids : List Nat} {plain : Query} {aggregations : List Aggregation}

theorem statable (bounds : Period.InBounds defaultPeriod)
    (descent : graph.Descent program defaultPeriod id query base ids plain aggregations) :
    ∀ aggregation ∈ aggregations, aggregation.Statable := by
  have aggregated := descent.aggregated
  clear descent
  induction aggregated with
  | nil => simp
  | cons first _ ih =>
    obtain ⟨spec, _, _, kind, _, _, read, _⟩ := first
    have statable := ((Aggregation.read_ensures bounds).on (Prod.ext read rfl)).2
    exact List.forall_mem_cons.mpr ⟨statable, ih⟩

/-- The query of a select is for one metric, with the aggregations that were lifted into it. -/
theorem carries (bounds : Period.InBounds defaultPeriod)
    (descent : graph.Descent program defaultPeriod id query base ids plain aggregations) :
    ∃ metric, query.Carries metric aggregations := by
  obtain ⟨_, _, _, _, _, _, metric, _, metrics, _, none⟩ := descent.selected
  refine ⟨{ metric with aggregators := aggregations.map Aggregation.toAggregator }, ?_, rfl,
    descent.statable bounds⟩
  rw [descent.extended, Query.withAggregators, metrics]
  simp [none]

end Graph.Descent

theorem Planner.build_carries {planner : Planner} {now : Instant} {program : List StageSpec}
    {graph : Graph} (bounds : Period.InBounds planner.defaults.sampling)
    (built : planner.build now program = .ok graph) {id : Nat} {stage : Stage} {query : Query}
    (found : graph.stage? id = some stage) (asks : stage.query? = some query) :
    ∃ metric aggregations, query.Carries metric aggregations := by
  obtain ⟨_, _, _, aggregations, descent, _⟩ :=
    (build_recorded built).2.descent (build_originsFirst built) found asks
  obtain ⟨metric, carries⟩ := descent.carries bounds
  exact ⟨metric, aggregations, carries⟩

/-- The value of a stage depends on its work and not on its number. -/
theorem Stage.answer_toOption {stage other : Stage} (work : other.work = stage.work)
    (graph graph' : Graph) (clock : Instant) (store : MemoryStore) (limit : Nat) (inputs : List Result) :
    (other.answer (.onMemory graph' clock store limit) inputs).toOption =
      (stage.answer (.onMemory graph clock store limit) inputs).toOption := by
  rw [answer, answer, work]
  cases stage.work with
  | select query =>
    simp only [RunSetting.onMemory]
    cases (store.reply query).outcome <;> rfl
  | aggregate kind operation => rfl

/-- A select has no value on a store that is down. -/
theorem RunSetting.select_no_value {graph : Graph} {clock : Instant} {store : MemoryStore} {limit : Nat}
    {error : StoreError} (down : store.failure = some error) {id : Nat} {stage : Stage} {query : Query}
    (found : graph.stage? id = some stage) (asks : stage.query? = some query) :
    (RunSetting.onMemory graph clock store limit).value? id = none := by
  rw [value?_eq found, Option.bind_eq_none_iff]
  intro inputs _
  simp [Stage.answer, Stage.work_of_query? asks, onMemory, MemoryStore.reply, MemoryStore.outcome, down,
    Except.toOption]

namespace Graph

/-- If a stage was lifted from a select that the new stage behind the first `k` takes from it, no two samples
that the store puts into one group for that select share an instant. -/
def TakesDistinct (k : Nat) (graph graph' : Graph) (store : MemoryStore) : Prop :=
  ∀ id select stage query, k < id → graph.Origin id select → graph'.Needs (k + 1) select →
    graph.stage? select = some stage → stage.query? = some query → store.DistinctTimes query

namespace Inserts
variable {k : Nat} {graph graph' : Graph} {store : MemoryStore} {clock : Instant} {limit : Nat}

theorem needs_of_uses (formed' : graph'.WellFormed) {extra : Stage} {select : Nat}
    (found : graph'.stage? (k + 1) = some extra) (uses : select ∈ extra.uses) :
    graph'.Needs (k + 1) select := by
  rcases List.mem_append.mp uses with reads | is_origin
  · exact .inl (by rwa [Reads, formed'.inputsOf_eq found])
  · exact .inr ⟨extra, found, Option.mem_toList.mp is_origin⟩

/-- A stage with the same work has the same value if its inputs have. -/
theorem value?_of_inputs (formed : graph.WellFormed) (formed' : graph'.WellFormed) {id : Nat}
    {stage other : Stage} (found : graph.stage? id = some stage)
    (found' : graph'.stage? (shifted k id) = some other) (work : other.work = stage.work)
    (reads : other.inputs = stage.inputs.map (shifted k))
    (same : ∀ input ∈ stage.inputs,
      (RunSetting.onMemory graph' clock store limit).value? (shifted k input) =
        (RunSetting.onMemory graph clock store limit).value? input) :
    (RunSetting.onMemory graph' clock store limit).value? (shifted k id) =
      (RunSetting.onMemory graph clock store limit).value? id := by
  have inputs : graph.inputsOf id = stage.inputs := formed.inputsOf_eq found
  have inputs' : graph'.inputsOf (shifted k id) = (graph.inputsOf id).map (shifted k) := by
    rw [formed'.inputsOf_eq found', reads, inputs]
  exact RunSetting.value?_eq_of_inputs (shifted_injective k) found found' inputs'
    (Stage.answer_toOption work graph graph' clock store limit) fun input read => same input (inputs ▸ read)

/-- What the planner ensures of both graphs. -/
structure Sound (k : Nat) (graph graph' : Graph) : Prop where
  inserts : Inserts k graph graph'
  formed : graph.WellFormed
  formed' : graph'.WellFormed
  origins : graph.OriginsFirst
  alone : ∀ {id stage}, graph.stage? id = some stage → stage.isSelect → stage.inputs = []
  carries : ∀ {id stage query}, graph.stage? id = some stage → stage.query? = some query →
    ∃ metric aggregations, query.Carries metric aggregations
  carries' : ∀ {id stage query}, graph'.stage? id = some stage → stage.query? = some query →
    ∃ metric aggregations, query.Carries metric aggregations

/-- A select that another stage is no longer lifted from has samples with distinct instants. -/
theorem Sound.distinct_of_taken (sound : Sound k graph graph')
    (distinct : graph.TakesDistinct k graph' store) {id select : Nat} {base : Stage} {query : Query}
    (behind : k < id) (is_origin : graph.Origin id select) (found : graph.stage? select = some base)
    (asks : base.query? = some query) (taken : Taken k graph'.stage? select)
    (earlier : ∀ other, graph'.stage? (shifted k select) = some other → other.query? = none →
      store.DistinctTimes query) : store.DistinctTimes query := by
  rcases taken with ⟨extra, is_extra, uses⟩ | ⟨other, found', none⟩
  · exact distinct id select base query behind is_origin (needs_of_uses sound.formed' is_extra uses)
      found asks
  · exact earlier other found' none

/-- A stage that reads a select has the value that one has which was lifted from it. -/
theorem Sound.unlifted_value (sound : Sound k graph graph') {id select : Nat} {stage other base : Stage}
    {query : Query} {aggregation : Aggregation} {kind : AggregatorKind}
    (found : graph.stage? id = some stage) (found' : graph'.stage? (shifted k id) = some other)
    (is_base : graph.stage? select = some base) (asks : base.query? = some query)
    (lifted : stage.query? = some (query.withAggregator aggregation.toAggregator))
    (statable : aggregation.Statable) (work : other.work = .aggregate kind aggregation.toOperation)
    (reads : other.inputs = [shifted k select]) (distinct : store.DistinctTimes query)
    (same : (RunSetting.onMemory graph' clock store limit).value? (shifted k select) =
      (RunSetting.onMemory graph clock store limit).value? select) :
    (RunSetting.onMemory graph' clock store limit).value? (shifted k id) =
      (RunSetting.onMemory graph clock store limit).value? id := by
  cases failure : store.failure with
  | some error =>
    rw [RunSetting.select_no_value failure found lifted]
    rw [RunSetting.select_no_value failure is_base asks] at same
    have input : (RunSetting.onMemory graph' clock store limit).graph.Reads (shifted k id)
        (shifted k select) := by
      have inputs : (RunSetting.onMemory graph' clock store limit).graph.inputsOf (shifted k id) =
          [shifted k select] := (sound.formed'.inputsOf_eq found').trans reads
      rw [Reads, inputs]
      exact List.mem_singleton_self _
    by_contra value
    have := RunSetting.input_has_value input (Option.isSome_iff_ne_none.mpr value)
    simp [same] at this
  | none =>
    obtain ⟨metric, aggregations, carries⟩ := sound.carries is_base asks
    have base_alone := sound.alone is_base (Stage.isSelect_of_query? asks)
    have alone := sound.alone found (Stage.isSelect_of_query? lifted)
    have base_value := Lifts.select_value clock limit sound.formed failure is_base asks base_alone carries
    rw [Lifts.select_value clock limit sound.formed failure found lifted alone
      (carries.withAggregator statable)]
    exact Lifts.aggregate_value sound.formed' found' work reads carries distinct (same.trans base_value)

/-- Every stage has the same value in both graphs. If it is a select only without the new stage, its samples
have distinct instants. -/
theorem Sound.value?_eq (sound : Sound k graph graph') (distinct : graph.TakesDistinct k graph' store)
    (id : Nat) : ∀ {stage}, graph.stage? id = some stage →
      (RunSetting.onMemory graph' clock store limit).value? (shifted k id) =
          (RunSetting.onMemory graph clock store limit).value? id ∧
        ∀ {query other}, stage.query? = some query → graph'.stage? (shifted k id) = some other →
          other.query? = none → store.DistinctTimes query := by
  induction id using Nat.strong_induction_on with
  | _ id ih =>
    intro stage found
    obtain ⟨other, found', shift⟩ := sound.inserts.stages found
    cases shift with
    | @same _ name work inputs =>
      constructor
      · refine value?_of_inputs sound.formed sound.formed' found found' rfl rfl fun input member => ?_
        have smaller := sound.formed.inputs found input member
        have reads : graph.Reads id input := by rwa [Reads, sound.formed.inputsOf_eq found]
        obtain ⟨_, is_input⟩ := Option.isSome_iff_exists.mp (sound.formed.input_isSome reads)
        exact (ih input smaller.2 is_input).1
      · intro query other asks found_again no_query
        obtain rfl := Option.some.inj (found'.symm.trans found_again)
        have same : some query = none := asks.symm.trans no_query
        simp at same
    | @unlifted own_id name unknown select base query aggregation behind is_base asks statable taken =>
      obtain rfl : own_id = id := sound.formed.numbered found
      have is_origin : graph.Origin own_id select := ⟨_, found, rfl⟩
      obtain ⟨same, earlier⟩ := ih select (sound.origins own_id select is_origin).2 is_base
      have base_distinct := sound.distinct_of_taken distinct behind is_origin is_base asks taken
        fun other found' none => earlier asks found' none
      refine ⟨sound.unlifted_value found found' is_base asks rfl statable rfl rfl base_distinct same, ?_⟩
      intro query' other asked _ _
      obtain rfl := Option.some.inj asked
      exact base_distinct.withAggregator _

end Inserts
end Graph

/-- Two runs on a store in memory end alike: both results have the same queries, or both runs fail, each since
the store refuses all queries or since a union that its root needs is too large. -/
inductive SameQueries (store : MemoryStore) (first second : RunSetting) : Prop where
  | results {a b : Result} : (RunState.run first none).finish = .published (.ok a) →
      (RunState.run second none).finish = .published (.ok b) → a.queries = b.queries →
      SameQueries store first second
  | failures {a b : ExecutionError} : first.FailsOn store a → second.FailsOn store b →
      (RunState.run first none).finish = .published (.error a) →
      (RunState.run second none).finish = .published (.error b) → SameQueries store first second

theorem Graph.Inserts.Sound.same_queries {k : Nat} {graph graph' : Graph} (sound : Sound k graph graph')
    {store : MemoryStore} (distinct : graph.TakesDistinct k graph' store) (clock : Instant) (limit : Nat) :
    SameQueries store (.onMemory graph clock store limit) (.onMemory graph' clock store limit) := by
  have first := RunState.run_finish (.onMemory graph clock store limit) sound.formed
  have second := RunState.run_finish (.onMemory graph' clock store limit) sound.formed'
  obtain ⟨root, found⟩ := Option.isSome_iff_exists.mp sound.formed.root
  have root' : (RunSetting.onMemory graph' clock store limit).graph.root =
      shifted k (RunSetting.onMemory graph clock store limit).graph.root := sound.inserts.root
  have value : (RunSetting.onMemory graph' clock store limit).value?
        (shifted k (RunSetting.onMemory graph clock store limit).graph.root) =
      (RunSetting.onMemory graph clock store limit).value?
        (RunSetting.onMemory graph clock store limit).graph.root :=
    (sound.value?_eq distinct graph.root found).1
  rw [root', value] at second
  cases outcome : (RunSetting.onMemory graph clock store limit).value?
      (RunSetting.onMemory graph clock store limit).graph.root with
  | some result =>
    rw [outcome] at first second
    exact .results first second rfl
  | none =>
    rw [outcome] at first second
    obtain ⟨_, _, reachable, fails, ended⟩ := first
    obtain ⟨_, _, reachable', fails', ended'⟩ := second
    exact .failures (fails.failsOn sound.carries reachable) (fails'.failsOn sound.carries' reachable')
      ended ended'

/-- One more aggregate, on which no other stage depends, does not change what a program answers, unless it
takes a select from a later stage and the store has samples for that select which share an instant: the
program is refused with the same error with and without it, or it has the same queries in its result, or its
run fails both times, on a store that is up only since a union is too large. An engine makes such runs for
limits up to `Engine.mostPermits`. -/
theorem extra_reader_changes_nothing {config : EngineConfig} (valid : config.validate = .ok ())
    (lifting : Bool) (now clock : Instant) {before after : List StageSpec} {extra : StageSpec}
    (insertion : Insertion config.defaults before extra after) (store : MemoryStore) (limit : Nat) :
    Agree
      (fun graph graph' => graph.TakesDistinct before.length graph' store →
        SameQueries store (.onMemory graph clock store limit) (.onMemory graph' clock store limit))
      (Planner.build ⟨config.defaults, lifting⟩ now (before ++ after))
      (Planner.build ⟨config.defaults, lifting⟩ now (before ++ extra :: after)) := by
  have bounds := EngineConfig.sampling_inBounds valid
  have alike : Agree (Graph.Inserts before.length)
      (Planner.build ⟨config.defaults, lifting⟩ now (before ++ after))
      (Planner.build ⟨config.defaults, lifting⟩ now (before ++ extra :: after)) :=
    Planner.build_insert bounds insertion
  rcases alike.inv with ⟨graph, graph', built, built', inserts⟩ | ⟨error, refused, refused'⟩
  · have sound : Graph.Inserts.Sound before.length graph graph' := {
      inserts := inserts
      formed := Planner.build_wellFormed built
      formed' := Planner.build_wellFormed built'
      origins := Planner.build_originsFirst built
      alone := Planner.build_select_inputs built
      carries := Planner.build_carries bounds built
      carries' := Planner.build_carries bounds built' }
    rw [built, built']
    exact .ok fun distinct => sound.same_queries distinct clock limit
  · rw [refused, refused']
    exact .error

/-- A select under a name. -/
def rawSelect : StageSpec :=
  { StageSpec.ofKind .select "load" with binding := some "raw" }

/-- A maximum of the select, which nothing reads. -/
def rawPeak : StageSpec :=
  { StageSpec.ofKind .aggregate "max" with binding := some "peak", inputs := some ["raw"] }

def rawChanges : StageSpec :=
  { StageSpec.ofKind .aggregate "diff" with inputs := some ["raw"] }

theorem rawPeak_insertion :
    Insertion EngineConfig.standard.defaults [rawSelect] rawPeak [rawChanges] where
  aggregate := rfl
  acceptable := StageSpec.acceptable_iff.mpr rfl
  goes_on := by simp
  named := by simp [rawChanges]
  unused := by simp [rawChanges, rawPeak, StageSpec.ofKind]

/-- The query for the load of the last hour. -/
def loadQuery : Query :=
  ⟨.endingAt .epoch (.ofMillis 3600000), [⟨"load", .empty, [], []⟩]⟩

/-- Without the maximum, the changes are lifted. -/
def liftedChanges : Graph where
  all := #[⟨1, some "raw", .select loadQuery, [], [], none⟩,
    ⟨2, none, .select (loadQuery.withAggregator ⟨"diff", none, .empty⟩), [], [], some 1⟩]
  root := 2

/-- With the maximum, the changes are taken between the samples of the select. -/
def ownChanges : Graph where
  all := #[⟨1, some "raw", .select loadQuery, [], [], none⟩,
    ⟨2, some "peak", .select (loadQuery.withAggregator ⟨"max", some ⟨1, .minutes⟩, .empty⟩), [], [],
      some 1⟩,
    ⟨3, none, .aggregate .diff .diff, [1], [], none⟩]
  root := 3

theorem liftedChanges_built :
    Planner.build ⟨EngineConfig.standard.defaults, true⟩ .epoch [rawSelect, rawChanges] =
      .ok liftedChanges :=
  rfl

theorem ownChanges_built :
    Planner.build ⟨EngineConfig.standard.defaults, true⟩ .epoch [rawSelect, rawPeak, rawChanges] =
      .ok ownChanges :=
  rfl

/-- The store takes the changes between the samples of both hosts. -/
theorem liftedChanges_answer : ∃ result,
    (RunState.run (.onMemory liftedChanges .epoch twoHosts 0) none).finish = .published (.ok result) ∧
    result.queries.map (·.sampleSize) = [4] ∧
    result.series.map (·.values) = [samplesAt [(-120, 1), (-60, 1), (-30, 1)]] := by
  have series : ∃ result,
      (RunState.run (.onMemory liftedChanges .epoch twoHosts 0) none).finish =
        .published (.ok result) ∧
      result.queries.map (·.sampleSize) = [4] ∧
      result.series.map (·.values) =
        [Sample.normalize (Sample.normalize (Sample.differences (Sample.sort twoHostsSamples)))] :=
    ⟨_, rfl, rfl, rfl⟩
  have ascend : Sample.Ascending (samplesAt [(-120, 1), (-60, 1), (-30, 1)]) := by decide
  obtain ⟨result, ended, size, series⟩ := series
  refine ⟨result, ended, size, ?_⟩
  rw [series, Sample.normalize_normalize, twoHostsSamples_sort]
  exact congrArg (fun values => [values]) ascend.normalize_eq

/-- Two hosts with samples at different instants: the changes stay what they are. -/
theorem twoHosts_same_queries : ∃ a b,
    (RunState.run (.onMemory liftedChanges .epoch twoHosts 0) none).finish = .published (.ok a) ∧
    (RunState.run (.onMemory ownChanges .epoch twoHosts 0) none).finish = .published (.ok b) ∧
    a.queries = b.queries ∧ b.queries.map (·.sampleSize) = [4] ∧
    b.series.map (·.values) = [samplesAt [(-120, 1), (-60, 1), (-30, 1)]] := by
  have distinct : liftedChanges.TakesDistinct 1 ownChanges twoHosts := by
    intro id select stage query _ _ _ found asks
    have member : stage ∈ liftedChanges.all := by
      cases select with
      | zero => simp [Graph.stage?] at found
      | succ index => exact Array.mem_of_getElem? found
    have selects : ∀ stage ∈ liftedChanges.all.toList, stage.query?.all fun query =>
        decide (twoHosts.DistinctTimes query) := by decide
    simpa [asks] using selects stage (Array.mem_def.mp member)
  have agree := extra_reader_changes_nothing (show EngineConfig.standard.validate = .ok () from rfl)
    true .epoch .epoch rawPeak_insertion twoHosts 0
  rcases agree.inv with ⟨graph, graph', built, built', same⟩ | ⟨error, refused, _⟩
  · obtain rfl := Except.ok.inj (liftedChanges_built.symm.trans built)
    obtain rfl := Except.ok.inj (ownChanges_built.symm.trans built')
    obtain ⟨result, ended, size, series⟩ := liftedChanges_answer
    cases same distinct with
    | @results a b first second queries =>
      obtain rfl : result = a := by simpa [first] using ended.symm
      refine ⟨result, b, first, second, queries, by rw [← queries, size], ?_⟩
      rw [← series, Result.series, Result.series, queries]
    | failures _ _ failed => simp [failed] at ended
  · have refused : Except.ok liftedChanges = Except.error error :=
      liftedChanges_built.symm.trans refused
    simp at refused

/-- The samples of two hosts at one instant. -/
def atOneInstant : List Sample :=
  [⟨.epoch, .number (.ofNat 1)⟩, ⟨.epoch, .number (.ofNat 3)⟩]

theorem atOneInstant_sort : Sample.sort atOneInstant = atOneInstant :=
  List.mergeSort_of_pairwise (by decide)

theorem atOneInstant_normalize : Sample.normalize atOneInstant = [⟨.epoch, .number (.ofNat 3)⟩] := by
  rw [Sample.normalize, atOneInstant_sort]
  rfl

/-- A store with one of them for each host. -/
def oneInstant : MemoryStore :=
  (MemoryStore.empty.insert "load" (.ofList [("host", "a")]) (atOneInstant.take 1)).insert
    "load" (.ofList [("host", "b")]) (atOneInstant.drop 1)

/-- The store sees the change from one sample to the other, and a stage that reads the select has lost the
first one. -/
theorem oneInstant_other_queries :
    ¬SameQueries oneInstant (.onMemory liftedChanges .epoch oneInstant 0)
      (.onMemory ownChanges .epoch oneInstant 0) := by
  have lifted : ∃ result,
      (RunState.run (.onMemory liftedChanges .epoch oneInstant 0) none).finish =
        .published (.ok result) ∧
      result.series.map (·.values) =
        [Sample.normalize (Sample.normalize (Sample.differences (Sample.sort atOneInstant)))] :=
    ⟨_, rfl, rfl⟩
  have own : ∃ result,
      (RunState.run (.onMemory ownChanges .epoch oneInstant 0) none).finish =
        .published (.ok result) ∧
      result.series.map (·.values) =
        [Sample.normalize (Sample.differences (Sample.normalize (Sample.normalize atOneInstant)))] :=
    ⟨_, rfl, rfl⟩
  obtain ⟨result, ended, series⟩ := lifted
  obtain ⟨result', ended', series'⟩ := own
  rw [atOneInstant_sort] at series
  rw [atOneInstant_normalize] at series'
  intro same
  cases same with
  | @results a b first second queries =>
    obtain rfl : result = a := by simpa [first] using ended.symm
    obtain rfl : result' = b := by simpa [second] using ended'.symm
    have equal : result.series.map (·.values) = result'.series.map (·.values) := by
      rw [Result.series, queries, Result.series]
    rw [series, series'] at equal
    simp [Sample.differences, atOneInstant, Sample.number?, SampleValue.number?, Sample.normalize,
      Sample.sort, Sample.keepLast] at equal
  | failures _ _ failed => simp [failed] at ended

end MetricEngine
