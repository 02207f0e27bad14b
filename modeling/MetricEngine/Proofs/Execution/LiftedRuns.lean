import MetricEngine.Execution.Engine
import MetricEngine.Proofs.Config.Validity
import MetricEngine.Proofs.Execution.Schedule
import MetricEngine.Proofs.Execution.SeriesFrame
import MetricEngine.Proofs.Program.Lifting
import MetricEngine.Proofs.Series.NormalForm
import MetricEngine.Proofs.Store.Pushdown

/-!
Runs of one program with and without lifting, on a store in memory. Each stage has the same value in
both graphs, the same warnings are reported, and on a store that is up nothing fails but unions that are too
large.
-/
namespace MetricEngine
open Relation

/-- A run of a graph on a store in memory. -/
def RunSetting.onMemory (graph : Graph) (clock : Instant) (store : MemoryStore) (limit : Nat) :
    RunSetting :=
  ⟨graph, clock, store.reply, limit⟩

namespace Graph.Lifts
variable {lifted own : Graph} {store : MemoryStore} {clock : Instant} {limit : Nat}

theorem stage_of_own (lifts : lifted.Lifts own) {id : Nat} {other : Stage}
    (found : own.stage? id = some other) :
    ∃ stage, lifted.stage? id = some stage ∧ Lifting lifted.stage? stage other := by
  have bounds := Graph.stage?_isSome_iff.mp (Option.isSome_iff_exists.mpr ⟨other, found⟩)
  rw [← lifts.size] at bounds
  obtain ⟨stage, is_stage⟩ := Option.isSome_iff_exists.mp (Graph.stage?_isSome_iff.mpr bounds)
  obtain ⟨same, found', lifting⟩ := lifts.stages is_stage
  obtain rfl := Option.some.inj (found.symm.trans found')
  exact ⟨stage, is_stage, lifting⟩

/-- Every select asks for one metric, with the aggregations that were lifted into it. -/
theorem select_carries (lifts : lifted.Lifts own) (origins : lifted.OriginsFirst) (id : Nat) :
    ∀ {stage query}, lifted.stage? id = some stage → stage.query? = some query →
      ∃ metric aggregations, query.Carries metric aggregations := by
  induction id using Nat.strong_induction_on with
  | _ id ih =>
    intro stage query found is_select
    obtain ⟨other, _, lifting⟩ := lifts.stages found
    cases lifting with
    | same _ selects =>
      obtain ⟨metric, metrics, plain⟩ := selects query is_select
      exact ⟨metric, [], metrics, plain, by simp⟩
    | @lifted _ _ _ select base asked aggregation is_base asks statable =>
      have smaller := origins id select ⟨_, found, rfl⟩
      obtain ⟨metric, aggregations, carries⟩ := ih select smaller.2 is_base asks
      obtain rfl := Option.some.inj is_select
      exact ⟨_, _, carries.withAggregator statable⟩

theorem own_select_carries (lifts : lifted.Lifts own) {id : Nat} {other : Stage} {query : Query}
    (found : own.stage? id = some other) (is_select : other.query? = some query) :
    ∃ metric aggregations, query.Carries metric aggregations := by
  obtain ⟨stage, _, lifting⟩ := lifts.stage_of_own found
  cases lifting with
  | same _ selects =>
    obtain ⟨metric, metrics, plain⟩ := selects query is_select
    exact ⟨metric, [], metrics, plain, by simp⟩
  | lifted => simp [Stage.query?] at is_select

/-- The value of a select is what the store answers. -/
theorem select_value {graph : Graph} (clock : Instant) (limit : Nat) (formed : graph.WellFormed)
    (up : store.failure = none) {id : Nat}
    {stage : Stage} {query : Query} {metric : Metric} {aggregations : List Aggregation}
    (found : graph.stage? id = some stage) (is_select : stage.query? = some query)
    (alone : stage.inputs = []) (carries : query.Carries metric aggregations) :
    (RunSetting.onMemory graph clock store limit).value? id =
      some (RunState.selected (store.response query metric aggregations)) := by
  refine RunSetting.value?_eq_some_iff.mpr ⟨stage, [], found, ?_, ?_⟩
  · have none : (RunSetting.onMemory graph clock store limit).graph.inputsOf id = [] :=
      (formed.inputsOf_eq found).trans alone
    rw [none]
    rfl
  · have outcome := MemoryStore.outcome_eq up carries
    simp only [Stage.answer, Stage.work_of_query? is_select, RunSetting.onMemory, outcome]

/-- The value of a stage that applies an aggregation to a select is that of a select that asks for it. -/
theorem aggregate_value {graph : Graph} (formed : graph.WellFormed) {id select : Nat} {stage : Stage}
    {query : Query} {metric : Metric} {aggregations : List Aggregation} {aggregation : Aggregation}
    {kind : AggregatorKind} (found : graph.stage? id = some stage)
    (work : stage.work = .aggregate kind aggregation.toOperation) (reads : stage.inputs = [select])
    (carries : query.Carries metric aggregations) (distinct : store.DistinctTimes query)
    (select_value : (RunSetting.onMemory graph clock store limit).value? select =
      some (RunState.selected (store.response query metric aggregations))) :
    (RunSetting.onMemory graph clock store limit).value? id =
      some (RunState.selected (store.response (query.withAggregator aggregation.toAggregator)
        (Query.extended metric aggregation) (aggregations ++ [aggregation]))) := by
  refine RunSetting.value?_eq_some_iff.mpr
    ⟨stage, [RunState.selected (store.response query metric aggregations)], found, ?_, ?_⟩
  · have one : (RunSetting.onMemory graph clock store limit).graph.inputsOf id = [select] :=
      (formed.inputsOf_eq found).trans reads
    rw [one, ListFacts.mapM_eq_some_iff]
    exact congrArg (fun value => [value]) select_value
  · have result := MemoryStore.result_withAggregator carries distinct aggregation clock
    simp only [Stage.answer, work, RunSetting.onMemory, result]

/-- What the planners ensure of the two graphs of a program. -/
structure Sound (lifted own : Graph) : Prop where
  lifts : lifted.Lifts own
  formed : lifted.WellFormed
  own_formed : own.WellFormed
  origins : lifted.OriginsFirst
  alone : ∀ {id stage}, lifted.stage? id = some stage → stage.isSelect → stage.inputs = []

/-- A stage that is the same in both graphs has the same value in both if its inputs have. -/
theorem Sound.value?_eq_of_inputs (sound : Sound lifted own) {id : Nat} {stage : Stage}
    (found : lifted.stage? id = some stage) (own_found : own.stage? id = some stage)
    (inputs : ∀ input, own.Reads id input →
      (RunSetting.onMemory lifted clock store limit).value? input =
        (RunSetting.onMemory own clock store limit).value? input) :
    (RunSetting.onMemory lifted clock store limit).value? id =
      (RunSetting.onMemory own clock store limit).value? id := by
  have reads : lifted.inputsOf id = (own.inputsOf id).map fun input => input := by
    rw [List.map_id', sound.formed.inputsOf_eq found, sound.own_formed.inputsOf_eq own_found]
  exact RunSetting.value?_eq_of_inputs Function.injective_id own_found found reads (fun _ => rfl) inputs

/-- A stage has the same value in both graphs, and the groups of a select that is lifted into have
samples with distinct instants, as those of the select that it was lifted from have. -/
theorem Sound.value?_eq (sound : Sound lifted own) (up : store.failure = none)
    (distinct : ∀ stage ∈ own.stages, ∀ query, stage.query? = some query → store.DistinctTimes query)
    (id : Nat) : own.Reachable id →
      (RunSetting.onMemory lifted clock store limit).value? id =
          (RunSetting.onMemory own clock store limit).value? id ∧
        ∀ {stage query}, lifted.stage? id = some stage → stage.query? = some query →
          store.DistinctTimes query := by
  induction id using Nat.strong_induction_on with
  | _ id ih =>
    intro reachable
    obtain ⟨other, own_found⟩ := Option.isSome_iff_exists.mp (sound.own_formed.reachable_isSome reachable)
    obtain ⟨stage, found, lifting⟩ := sound.lifts.stage_of_own own_found
    cases lifting with
    | same plain selects =>
      constructor
      · apply sound.value?_eq_of_inputs found own_found
        intro input reads
        exact (ih input reads.lt (reachable.tail reads)).1
      · intro same query is_same is_select
        obtain rfl := Option.some.inj (found.symm.trans is_same)
        refine distinct other ((Graph.mem_stages_iff sound.own_formed).mpr ?_) query is_select
        obtain rfl := sound.own_formed.numbered own_found
        exact ⟨reachable, own_found⟩
    | @lifted _ name unknown select base query aggregation is_base asks statable =>
      have inputs : own.inputsOf id = [select] := sound.own_formed.inputsOf_eq own_found
      have reads : own.Reads id select := by
        rw [Graph.Reads, inputs]
        exact List.mem_singleton_self _
      obtain ⟨same_value, distinct_select⟩ := ih select reads.lt (reachable.tail reads)
      have distinct_query := distinct_select is_base asks
      obtain ⟨metric, aggregations, carries⟩ :=
        sound.lifts.select_carries sound.origins select is_base asks
      constructor
      · have base_alone := sound.alone is_base (Stage.isSelect_of_query? asks)
        have base_value := select_value clock limit sound.formed up is_base asks base_alone carries
        have lifted_value := select_value clock limit sound.formed up found rfl rfl
          (carries.withAggregator statable)
        have own_value := aggregate_value sound.own_formed own_found rfl rfl carries distinct_query
          (same_value.symm.trans base_value)
        exact lifted_value.trans own_value.symm
      · intro same query is_same is_select
        obtain rfl := Option.some.inj (found.symm.trans is_same)
        obtain rfl := Option.some.inj is_select
        exact distinct_query.withAggregator _

/-! Warnings. -/

theorem no_origin (lifts : lifted.Lifts own) {id origin : Nat} : ¬own.Origin id origin := by
  rintro ⟨other, found, from_select⟩
  obtain ⟨stage, _, lifting⟩ := lifts.stage_of_own found
  cases lifting with
  | same plain => simp [plain] at from_select
  | lifted => simp at from_select

/-- What a lifted stage was lifted from is what the other graph reads. -/
theorem Sound.origin_reads (sound : Sound lifted own) {id origin : Nat}
    (from_select : lifted.Origin id origin) : own.Reads id origin := by
  obtain ⟨stage, found, is_origin⟩ := from_select
  obtain ⟨other, own_found, lifting⟩ := sound.lifts.stages found
  rw [Graph.Reads, sound.own_formed.inputsOf_eq own_found]
  cases lifting with
  | same plain => simp [plain] at is_origin
  | lifted =>
    obtain rfl := Option.some.inj is_origin
    exact List.mem_singleton_self _

theorem Sound.reads_reads (sound : Sound lifted own) {id input : Nat}
    (reads : lifted.Reads id input) : own.Reads id input := by
  obtain ⟨stage, found, member⟩ := reads.of_stage
  obtain ⟨other, own_found, lifting⟩ := sound.lifts.stages found
  rw [Graph.Reads, sound.own_formed.inputsOf_eq own_found]
  cases lifting with
  | same => exact member
  | lifted => simp at member

/-- With lifting, the stages that run and those that they were lifted from are the stages that run
without. -/
theorem Sound.mem_reported_iff (sound : Sound lifted own) {id : Nat} :
    id ∈ lifted.reported ↔ own.Reachable id := by
  rw [Graph.mem_reported_iff sound.formed sound.origins]
  constructor
  · rintro ⟨top, reachable, path⟩
    have runs : own.Reachable top := by
      rw [Graph.Reachable, ← sound.lifts.root]
      exact ReflTransGen.mono (fun _ _ => sound.reads_reads) _ _ reachable
    exact runs.trans (ReflTransGen.mono (fun _ _ => sound.origin_reads) _ _ path)
  · intro reachable
    induction reachable with
    | refl => exact ⟨lifted.root, .refl, by rw [sound.lifts.root]⟩
    | @tail reader input _ reads ih =>
      obtain ⟨top, runs, path⟩ := ih
      obtain ⟨other, own_found, member⟩ := reads.of_stage
      obtain ⟨stage, found, lifting⟩ := sound.lifts.stage_of_own own_found
      cases lifting with
      | same =>
        -- A select that others were lifted from reads nothing, so the reader itself runs.
        rcases path.cases_tail with rfl | ⟨before, _, _, before_found, is_origin⟩
        · refine ⟨input, runs.tail ?_, .refl⟩
          rwa [Graph.Reads, sound.formed.inputsOf_eq found]
        · obtain ⟨_, _, lifting⟩ := sound.lifts.stages before_found
          cases lifting with
          | same plain => simp [plain] at is_origin
          | lifted is_base asks =>
            obtain rfl := Option.some.inj is_origin
            obtain rfl := Option.some.inj (found.symm.trans is_base)
            simp [sound.alone is_base (Stage.isSelect_of_query? asks)] at member
      | lifted =>
        obtain rfl := List.mem_singleton.mp member
        exact ⟨top, runs, path.tail ⟨_, found, rfl⟩⟩

theorem Sound.warnings_perm (sound : Sound lifted own) : lifted.warnings.Perm own.warnings := by
  have own_origins : own.OriginsFirst := fun _ _ from_select => absurd from_select sound.lifts.no_origin
  have reported : lifted.reported.Perm own.reported := by
    refine (List.perm_ext_iff_of_nodup (Graph.reported_reports sound.formed sound.origins).nodup
      (Graph.reported_reports sound.own_formed own_origins).nodup).mpr fun id => ?_
    rw [sound.mem_reported_iff, Graph.mem_reported_iff sound.own_formed own_origins]
    constructor
    · intro reachable
      exact ⟨id, reachable, .refl⟩
    · rintro ⟨top, reachable, path⟩
      rcases path.cases_head with rfl | ⟨_, from_select, _⟩
      · exact reachable
      · exact absurd from_select sound.lifts.no_origin
  have each : ∀ id, lifted.warningsOf id = own.warningsOf id := by
    intro id
    unfold Graph.warningsOf
    cases found : lifted.stage? id with
    | none =>
      cases own_found : own.stage? id with
      | none => rfl
      | some other =>
        obtain ⟨stage, is_stage, _⟩ := sound.lifts.stage_of_own own_found
        simp [found] at is_stage
    | some stage =>
      obtain ⟨other, own_found, lifting⟩ := sound.lifts.stages found
      rw [own_found]
      cases lifting <;> rfl
  rw [Graph.warnings_eq, Graph.warnings_eq, funext each]
  exact reported.flatMap_right _

end Graph.Lifts

/-! Failures. -/

namespace RunSetting

/-- A union that the root needs gets more samples than 64 bits can count. -/
def Overflows (setting : RunSetting) : Prop :=
  ∃ id stage kind inputs, setting.graph.Reachable id ∧ setting.graph.stage? id = some stage ∧
    stage.work = .aggregate kind .union ∧
    (setting.graph.inputsOf id).eraseDups.mapM setting.value? = some inputs ∧
    Text.uint64Max < totalSamples inputs

/-- Why a run on a store in memory fails: the store refuses the query of a select that the root needs, or a
union is too large. -/
inductive FailsOn (store : MemoryStore) (setting : RunSetting) : ExecutionError → Prop where
  | refused {id stage query error} : store.failure = some error → setting.graph.Reachable id →
      setting.graph.stage? id = some stage → stage.query? = some query →
      FailsOn store setting ((ExecutionError.ofStore error).atStage stage.id "select")
  | overflow : setting.Overflows → FailsOn store setting .stopped

/-- Nothing else makes a stage fail if all queries are for one metric, with aggregations that the store
understands. -/
theorem Fails.failsOn {graph : Graph} {clock : Instant} {store : MemoryStore} {limit : Nat}
    (carries : ∀ {id stage query}, graph.stage? id = some stage → stage.query? = some query →
      ∃ metric aggregations, query.Carries metric aggregations)
    {id : Nat} {error : ExecutionError} (reachable : graph.Reachable id)
    (fails : (onMemory graph clock store limit).Fails id error) :
    FailsOn store (onMemory graph clock store limit) error := by
  obtain ⟨stage, inputs, found, values, failed⟩ := fails
  rw [Stage.answer] at failed
  cases work : stage.work with
  | select query =>
    have asks : stage.query? = some query := by simp [Stage.query?, work]
    simp only [work, onMemory] at failed
    cases failure : store.failure with
    | some cause =>
      simp only [MemoryStore.reply, MemoryStore.outcome, failure, Except.error.injEq] at failed
      rw [← failed]
      exact .refused failure reachable found asks
    | none =>
      obtain ⟨metric, aggregations, carries⟩ := carries found asks
      simp [MemoryStore.outcome_eq failure carries] at failed
  | aggregate kind operation =>
    simp only [work] at failed
    cases result : operation.result? clock inputs with
    | some _ => simp [onMemory, result] at failed
    | none =>
      obtain ⟨rfl, tooMany⟩ := Operation.result?_eq_none_iff.mp result
      obtain rfl : .stopped = error := by simpa [onMemory, result] using failed
      exact .overflow ⟨id, stage, kind, inputs, reachable, found, work, values, tooMany⟩

theorem FailsOn.of_up {store : MemoryStore} {setting : RunSetting} {error : ExecutionError}
    (fails : FailsOn store setting error) (up : store.failure = none) :
    error = .stopped ∧ setting.Overflows := by
  cases fails with
  | refused down => simp [up] at down
  | overflow overflows => exact ⟨rfl, overflows⟩

end RunSetting

/-- What an engine answers when it runs a graph without a deadline. There is no answer if the run breaks
down. -/
def Engine.answer? (engine : Engine) (graph : Graph) : Option RunEnd :=
  (engine.execute? graph none).map (·.1.finish)

/-- An engine answers alike for two graphs: both results have the same queries and errors, and the same
warnings in some order. Otherwise both runs break down, since the engine is configured for more permits than
can be made, or both stop, since in both graphs a union that the root needs is too large. -/
inductive SameAnswer (engine : Engine) (first second : Graph) : Prop where
  | results {a b : Result} : engine.answer? first = some (.published (.ok a)) →
      engine.answer? second = some (.published (.ok b)) → a.queries = b.queries → a.errors = b.errors →
      a.warnings.Perm b.warnings → SameAnswer engine first second
  | noPermits : Engine.mostPermits < engine.config.execution.maxConcurrentStages →
      engine.answer? first = none → engine.answer? second = none → SameAnswer engine first second
  | overflow : (engine.setting first).Overflows → (engine.setting second).Overflows →
      engine.answer? first = some (.published (.error .stopped)) →
      engine.answer? second = some (.published (.error .stopped)) → SameAnswer engine first second

theorem Engine.setting_onMemory {engine : Engine} {store : MemoryStore}
    (backend : engine.backend = .memory store) (graph : Graph) :
    engine.setting graph =
      .onMemory graph engine.clock store engine.config.execution.maxConcurrentStages := by
  rw [setting, backend]
  rfl

theorem Engine.answer?_eq (engine : Engine) (graph : Graph) :
    engine.answer? graph =
      if mostPermits < engine.config.execution.maxConcurrentStages then none
      else some (RunState.run (engine.setting graph) none).finish := by
  rw [answer?, execute?]
  split <;> rfl

theorem Graph.Lifts.Sound.same_answer {lifted own : Graph} (sound : Sound lifted own) {engine : Engine}
    {store : MemoryStore} (backend : engine.backend = .memory store) (up : store.failure = none)
    (distinct : ∀ stage ∈ own.stages, ∀ query, stage.query? = some query → store.DistinctTimes query) :
    SameAnswer engine lifted own := by
  by_cases permits : Engine.mostPermits < engine.config.execution.maxConcurrentStages
  · exact .noPermits permits ((engine.answer?_eq _).trans (if_pos permits))
      ((engine.answer?_eq _).trans (if_pos permits))
  have answer : ∀ graph, engine.answer? graph = some (RunState.run (engine.setting graph) none).finish :=
    fun graph => (engine.answer?_eq graph).trans (if_neg permits)
  have first := RunState.run_finish (engine.setting lifted) sound.formed
  have second := RunState.run_finish (engine.setting own) sound.own_formed
  have root : (engine.setting lifted).graph.root = (engine.setting own).graph.root := sound.lifts.root
  have value : (engine.setting lifted).value? (engine.setting own).graph.root =
      (engine.setting own).value? (engine.setting own).graph.root := by
    rw [engine.setting_onMemory backend, engine.setting_onMemory backend]
    exact (sound.value?_eq up distinct own.root .refl).1
  rw [root, value] at first
  cases found : (engine.setting own).value? (engine.setting own).graph.root with
  | some result =>
    rw [found] at first second
    exact .results ((answer lifted).trans (congrArg some first))
      ((answer own).trans (congrArg some second)) rfl rfl (sound.warnings_perm.append_left _)
  | none =>
    rw [found] at first second
    obtain ⟨origin, error, reachable, fails, ended⟩ := first
    obtain ⟨own_origin, own_error, own_reachable, own_fails, own_ended⟩ := second
    rw [engine.setting_onMemory backend] at fails own_fails
    have overflow := (fails.failsOn (sound.lifts.select_carries sound.origins _) reachable).of_up up
    have own_overflow := (own_fails.failsOn sound.lifts.own_select_carries own_reachable).of_up up
    rw [← engine.setting_onMemory backend] at overflow own_overflow
    obtain ⟨rfl, overflows⟩ := overflow
    obtain ⟨rfl, own_overflows⟩ := own_overflow
    exact .overflow overflows own_overflows ((answer lifted).trans (congrArg some ended))
      ((answer own).trans (congrArg some own_ended))

/-- Lifting does not change what a program means on a store in memory that is up and has no two samples of one
group of a select at one instant: a planner that lifts and one that does not refuse the program with the same
error, or an engine answers alike for their graphs. -/
theorem lifting_preserves_meaning {engine : Engine} (valid : engine.config.validate = .ok ())
    {store : MemoryStore} (backend : engine.backend = .memory store) (up : store.failure = none)
    (program : List StageSpec) (now : Instant)
    (distinct : ∀ graph, Planner.build ⟨engine.config.defaults, false⟩ now program = .ok graph →
      ∀ stage ∈ graph.stages, ∀ query, stage.query? = some query → store.DistinctTimes query) :
    Agree (SameAnswer engine) (Planner.build ⟨engine.config.defaults, true⟩ now program)
      (Planner.build ⟨engine.config.defaults, false⟩ now program) := by
  have bounds := EngineConfig.sampling_inBounds valid
  rcases (Planner.build_agree bounds program).inv with
    ⟨lifted, own, built, own_built, lifts⟩ | ⟨error, refused, own_refused⟩
  · have sound : Graph.Lifts.Sound lifted own := {
      lifts := lifts
      formed := Planner.build_wellFormed built
      own_formed := Planner.build_wellFormed own_built
      origins := Planner.build_originsFirst built
      alone := Planner.build_select_inputs built }
    rw [built, own_built]
    exact .ok (sound.same_answer backend up (distinct own own_built))
  · rw [refused, own_refused]
    exact .error

/-- Numbers at whole seconds. -/
def samplesAt (values : List (Int × Int)) : List Sample :=
  values.filterMap fun (second, value) => (Instant.make? second 0).map (⟨·, .number (.ofInt value)⟩)

/-- Two hosts whose samples alternate, out of order. -/
def twoHosts : MemoryStore :=
  (MemoryStore.empty.insert "load" (.ofList [("host", "a")]) (samplesAt [(-30, 4), (-150, 1)])).insert
    "load" (.ofList [("host", "b")]) (samplesAt [(-60, 3), (-120, 2)])

/-- All their samples, in the order in which the store puts them together. -/
def twoHostsSamples : List Sample :=
  samplesAt [(-30, 4), (-150, 1), (-60, 3), (-120, 2)]

theorem twoHostsSamples_sort :
    Sample.sort twoHostsSamples = samplesAt [(-150, 1), (-120, 2), (-60, 3), (-30, 4)] := by
  simp +decide [Sample.sort, twoHostsSamples, samplesAt, List.mergeSort, Sample.notLater, Instant.make?]

theorem twoHostsSamples_normalize :
    Sample.normalize twoHostsSamples = samplesAt [(-150, 1), (-120, 2), (-60, 3), (-30, 4)] := by
  rw [Sample.normalize, twoHostsSamples_sort]
  rfl

/-- An engine on their store. -/
def twoHostsEngine : Engine :=
  ⟨.standard, .memory twoHosts, .epoch, .empty, []⟩

/-- The changes between the sums of minutes; both aggregates are lifted. -/
def minuteChanges : List StageSpec :=
  [.ofKind .select "load", .ofKind .aggregate "sum", .ofKind .aggregate "diff"]

/-- Its graph when nothing is lifted. -/
def minuteChangesGraph : Graph where
  all := #[⟨1, none, .select ⟨.endingAt .epoch (.ofMillis 3600000), [⟨"load", .empty, [], []⟩]⟩, [], [],
      none⟩,
    ⟨2, none, .aggregate .sum (.aggregate ⟨.sum, some (.ofMillis 60000)⟩), [1], [], none⟩,
    ⟨3, none, .aggregate .diff .diff, [2], [], none⟩]
  root := 3

theorem minuteSums : Aggregation.apply ⟨.sum, some (.ofMillis 60000)⟩
    (samplesAt [(-150, 1), (-120, 2), (-60, 3), (-30, 4)]) =
    samplesAt [(-180, 1), (-120, 2), (-60, 7)] := by
  have in_order : (samplesAt [(-150, 1), (-120, 2), (-60, 3), (-30, 4)]).mergeSort
      (Sample.bucketNotLater 60000) = samplesAt [(-150, 1), (-120, 2), (-60, 3), (-30, 4)] :=
    List.mergeSort_of_pairwise (by decide)
  have buckets : Sample.buckets 60000 (samplesAt [(-150, 1), (-120, 2), (-60, 3), (-30, 4)]) =
      [(-180000, samplesAt [(-150, 1)]), (-120000, samplesAt [(-120, 2)]),
        (-60000, samplesAt [(-60, 3), (-30, 4)])] := by
    rw [Sample.buckets, ← twoHostsSamples_sort, Sample.sort_sort, twoHostsSamples_sort, in_order]
    rfl
  change (Sample.buckets 60000 _).filterMap _ = _
  rw [buckets]
  rfl

/-- The changes are those between one, two and seven. -/
theorem minuteChangesGraph_answer : ∃ result,
    twoHostsEngine.answer? minuteChangesGraph = some (.published (.ok result)) ∧
    result.queries.map (·.sampleSize) = [4] ∧
    result.series.map (·.values) = [samplesAt [(-120, 1), (-60, 5)]] := by
  have series : ∃ result, twoHostsEngine.answer? minuteChangesGraph = some (.published (.ok result)) ∧
      result.queries.map (·.sampleSize) = [4] ∧
      result.series.map (·.values) = [Sample.normalize (Sample.differences (Sample.normalize
        (Aggregation.apply ⟨.sum, some (.ofMillis 60000)⟩
          (Sample.normalize (Sample.normalize twoHostsSamples)))))] :=
    ⟨_, rfl, rfl, rfl⟩
  have sums_ascend : Sample.Ascending (samplesAt [(-180, 1), (-120, 2), (-60, 7)]) := by decide
  have changes_ascend : Sample.Ascending (samplesAt [(-120, 1), (-60, 5)]) := by decide
  obtain ⟨result, answered, size, series⟩ := series
  refine ⟨result, answered, size, ?_⟩
  rw [series, Sample.normalize_normalize, twoHostsSamples_normalize, minuteSums, sums_ascend.normalize_eq]
  exact congrArg (fun values => [values]) changes_ascend.normalize_eq

/-- With lifting the store takes the sums and their changes, without it two stages do, and the answer is the
same. -/
theorem minuteChanges_same_answer : ∃ lifted a b,
    Planner.build ⟨EngineConfig.standard.defaults, true⟩ .epoch minuteChanges = .ok lifted ∧
    Planner.build ⟨EngineConfig.standard.defaults, false⟩ .epoch minuteChanges =
      .ok minuteChangesGraph ∧
    twoHostsEngine.answer? lifted = some (.published (.ok a)) ∧
    twoHostsEngine.answer? minuteChangesGraph = some (.published (.ok b)) ∧
    a.queries = b.queries ∧ a.queries.map (·.sampleSize) = [4] ∧
    a.series.map (·.values) = [samplesAt [(-120, 1), (-60, 5)]] := by
  have own_built : Planner.build ⟨EngineConfig.standard.defaults, false⟩ .epoch minuteChanges =
    .ok minuteChangesGraph := rfl
  have distinct : ∀ graph,
      Planner.build ⟨EngineConfig.standard.defaults, false⟩ .epoch minuteChanges = .ok graph →
      ∀ stage ∈ graph.stages, ∀ query, stage.query? = some query → twoHosts.DistinctTimes query := by
    intro graph built stage member query is_select
    obtain rfl := Except.ok.inj (own_built.symm.trans built)
    have selects : ∀ stage ∈ minuteChangesGraph.stages, stage.query?.all fun query =>
        decide (twoHosts.DistinctTimes query) := by decide
    simpa [is_select] using selects stage member
  have valid : twoHostsEngine.config.validate = .ok () := rfl
  have backend : twoHostsEngine.backend = .memory twoHosts := rfl
  have agree := lifting_preserves_meaning valid backend rfl minuteChanges .epoch distinct
  rcases agree.inv with ⟨lifted, own, built, other_built, same⟩ | ⟨error, _, refused⟩
  · obtain rfl := Except.ok.inj (own_built.symm.trans other_built)
    obtain ⟨result, answered, size, series⟩ := minuteChangesGraph_answer
    cases same with
    | @results a b lifted_answer own_answer queries =>
      obtain rfl : result = b := by simpa [own_answer] using answered.symm
      have all : a.series = result.series := by rw [Result.series, queries, Result.series]
      refine ⟨lifted, a, result, built, own_built, lifted_answer, own_answer, queries, ?_, ?_⟩
      · rw [queries, size]
      · rw [all, series]
    | noPermits beyond => exact absurd beyond (by decide)
    | overflow _ _ _ stopped => simp [stopped] at answered
  · have refused : Except.ok minuteChangesGraph = Except.error error := own_built.symm.trans refused
    simp at refused

end MetricEngine
