import Mathlib
import MetricEngine.Config.Defaults
import MetricEngine.Execution.Engine
import MetricEngine.Proofs.Execution.Counts
import MetricEngine.Proofs.Graph.RoundTrips
import MetricEngine.Proofs.Program.LiftCounts

/-!
What the engine counts. The counters are raised by the planner, by the tasks of a run and by the alerts, one
increment here and one there; in the end a program that was built and run with success has raised them by what
its graph and the results of its stages show.
-/
namespace MetricEngine
open Relation RunState

/-- By how much a program that is built and run with success raises each counter. The durations of stages are
counted with their runs. -/
def raisedBy (program : List StageSpec) (graph : Graph) (state : RunState) : Counter → Nat
  | .graphBuilds success => if success then 1 else 0
  | .lifted kind => liftedAmong program graph.all.toList kind
  | .stageRuns operation success =>
    if success then graph.stages.countP (·.operationName = operation) else 0
  | .stageDurations operation => graph.stages.countP (·.operationName = operation)
  | .storeQueries success => if success then graph.roundTrips else 0
  | .alertTriggers kind => ((graph.stages.filter (·.alertKind? = some kind)).map state.newTriggers).sum

namespace Engine

/-- A build that ends with a graph counts itself and the aggregators that it lifted. -/
theorem total_buildTally {plan : Plan} (built : plan.outcome.isOk = true) (counter : Counter) :
    (buildTally plan).total counter =
      match counter with
      | .lifted kind => plan.lifted.count kind
      | .graphBuilds success => if success then 1 else 0
      | _ => 0 := by
  have increments : buildTally plan =
      ⟨(plan.lifted.map Counter.lifted ++ [Counter.graphBuilds true]).map (·, 1)⟩ := by
    simp [buildTally, built, Function.comp_def]
  rw [increments, Tally.total_ones, List.count_append]
  cases counter with
  | lifted kind =>
    rw [List.count_map_of_injective _ _ fun _ _ => Counter.lifted.inj]
    simp
  | graphBuilds success => cases success <;> simp [List.count_eq_zero]
  | stageRuns | stageDurations | storeQueries | alertTriggers => simp [List.count_eq_zero]

/-- The build and the stages of a run that have all been answered raise each counter as the graph shows. -/
theorem total_of_answered {setting : RunSetting} {state : RunState} {plan : Plan} {program : List StageSpec}
    (built : plan.outcome.isOk = true)
    (lifted : ∀ kind, plan.lifted.count kind = liftedAmong program setting.graph.all.toList kind)
    (answered : ∀ stage ∈ setting.graph.stages, Answered setting state stage) (counter : Counter) :
    (buildTally plan).total counter + (setting.graph.stages.map (state.share counter)).sum =
      raisedBy program setting.graph state counter := by
  have shares : setting.graph.stages.map (state.share counter) =
      setting.graph.stages.map fun stage => stage.share (state.newTriggers stage) counter := by
    refine List.map_congr_left fun stage member => ?_
    obtain ⟨_, _, _, _, published, _⟩ := answered stage member
    rw [share, published]
  rw [total_buildTally built, shares]
  cases counter with
  | graphBuilds success => simp [Stage.share, raisedBy]
  | lifted kind => simp [Stage.share, raisedBy, lifted]
  | stageRuns operation success =>
    cases success <;> simp [Stage.share, raisedBy, ListFacts.sum_map_one]
  | stageDurations operation => simp [Stage.share, raisedBy, ListFacts.sum_map_one]
  | storeQueries success =>
    cases success <;> simp [Stage.share, raisedBy, Graph.roundTrips, ListFacts.sum_map_one]
  | alertTriggers kind => simp [Stage.share, raisedBy, ListFacts.sum_map_ite]

theorem record_enabled {engine : Engine} (enabled : engine.config.monitoring.metricsEnabled = true)
    (tally : Tally) : engine.record tally = { engine with tally := engine.tally.append tally } := by
  rw [record, if_pos enabled]

theorem record_disabled {engine : Engine} (disabled : engine.config.monitoring.metricsEnabled = false)
    (tally : Tally) : engine.record tally = engine := by
  rw [record, disabled]
  rfl

end Engine

/-- A program is accounted for if the stages that run are those that the root needs, each once, all of them
have results, and from one tally to the other each counter goes up by as much as they say. -/
structure Accounted (setting : RunSetting) (program : List StageSpec) (state : RunState)
    (before after : Tally) : Prop where
  distinct : (setting.graph.stages.map (·.id)).Nodup
  complete : ∀ stage, stage ∈ setting.graph.stages ↔
    setting.graph.Reachable stage.id ∧ setting.graph.stage? stage.id = some stage
  answered : ∀ stage ∈ setting.graph.stages, Answered setting state stage
  /-- An alert keeps the triggers in the results of its inputs, which are not new. -/
  inherited : ∀ stage ∈ setting.graph.stages, stage.alertKind?.isSome → ∀ inputs result,
    state.inputs? stage = some (.ok inputs) → state.outcome? stage.id = some (.ok result) →
    result.alertCount = (inputs.map (·.alertCount)).sum + state.newTriggers stage
  totals : ∀ counter, after.total counter =
    before.total counter + raisedBy program setting.graph state counter

namespace Engine
variable {engine : Engine} {program : List StageSpec} {graph : Graph} {state : RunState}

theorem accounted (enabled : engine.config.monitoring.metricsEnabled = true)
    (built : (engine.build program).1 = .ok graph)
    (execution : AnyStoreExecution (engine.setting graph) state) {result : Result}
    (published : state.outcome? graph.root = some (.ok result)) :
    Accounted (engine.setting graph) program state engine.tally
      ((engine.build program).2.record state.tally).tally := by
  have formed : graph.WellFormed := Planner.build_wellFormed built
  have balanced : Balanced (engine.setting graph) state := .of_execution formed execution
  have answered := balanced.all_answered formed published
  refine ⟨Graph.stages_distinct formed, fun stage => Graph.mem_stages_iff formed, answered, ?_, ?_⟩
  · exact fun stage member alert inputs result => (answered stage member).inherited alert
  · intro counter
    have outcome : (engine.planner.plan engine.clock program).outcome = .ok graph := built
    have counted := total_of_answered (by rw [outcome]; rfl) (Planner.plan_lifted outcome) answered counter
    have tally : ((engine.build program).2.record state.tally).tally =
        (engine.tally.append (buildTally (engine.planner.plan engine.clock program))).append state.tally := by
      simp only [build, record_enabled enabled]
      exact congrArg Engine.tally (record_enabled (by exact enabled) _)
    rw [tally, Tally.total_append, Tally.total_append, balanced.totals (balanced.no_failure answered),
      Nat.add_assoc, counted]

theorem record_setting (engine : Engine) (tally : Tally) (graph : Graph) :
    (engine.record tally).setting graph = engine.setting graph := by
  rw [record]
  split <;> rfl

theorem execute?_eq_some {deadline : Option Nat} {report : RunReport} {next : Engine}
    (executed : engine.execute? graph deadline = some (report, next)) :
    report = RunState.run (engine.setting graph) deadline ∧
      next.tally = (engine.record report.state.tally).tally := by
  rw [execute?] at executed
  split at executed
  · simp at executed
  · obtain ⟨rfl, rfl⟩ := Prod.mk.inj (Option.some.inj executed)
    exact ⟨rfl, rfl⟩

/-- A run of the engine either ends with the build, or counts what an execution of the graph has counted. -/
theorem run?_eq_some {deadline : Option Nat} {answer : RunAnswer} {next : Engine}
    (ran : engine.run? program deadline = some (answer, next)) :
    (∃ error, (engine.build program).1 = .error error ∧ answer.outcome = .error (.build error) ∧
      next = (engine.build program).2) ∨
    ∃ graph state, (engine.build program).1 = .ok graph ∧ AnyStoreExecution (engine.setting graph) state ∧
      next.tally = ((engine.build program).2.record state.tally).tally ∧
      ∀ result, answer.outcome = .ok result → ∃ value, state.outcome? graph.root = some (.ok value) ∧
        result = value.withWarnings graph.warnings := by
  rw [run?] at ran
  split at ran
  next error after failed =>
    obtain ⟨rfl, rfl⟩ := Prod.mk.inj (Option.some.inj ran)
    exact .inl ⟨error, by rw [failed], rfl, by rw [failed]⟩
  next graph after built =>
    obtain ⟨⟨report, last⟩, executed, ended⟩ := Option.bind_eq_some_iff.mp ran
    obtain ⟨rfl, rfl⟩ := Prod.mk.inj (Option.some.inj ended)
    obtain ⟨is_run, tally⟩ := execute?_eq_some executed
    obtain rfl : after = (engine.build program).2 := by rw [built]
    have same_setting : (engine.build program).2.setting graph = engine.setting graph :=
      record_setting engine _ graph
    rw [same_setting] at is_run
    obtain ⟨steps, final, execution, ran | timedOut⟩ := run_execution (engine.setting graph) deadline
    · rw [is_run, ran, ofState_state] at tally
      refine .inr ⟨graph, final, by rw [built], execution.anyStore, tally, fun result succeeded => ?_⟩
      have finished : report.finish = .published (.ok result) := by
        simp only at succeeded
        split at succeeded
        next finished => rw [finished, Except.ok.inj succeeded]
        next => simp at succeeded
        next => simp at succeeded
      rw [is_run, ran] at finished
      exact ofState_succeeds finished
    · rw [is_run, timedOut] at tally
      refine .inr ⟨graph, final, by rw [built], execution.anyStore, tally, fun result succeeded => ?_⟩
      simp [is_run, timedOut] at succeeded

end Engine

/-- With counting on, a build and a run that succeed raise each counter by exactly as much as the graph and
the results show: builds and lifts as the program was built, runs and store queries by the stages that the
root needs, whose order and the replies of the store do not matter, and triggers by those that are new. All
other counters stay. With counting off all of them stay. -/
theorem metrics_account_for_runs (engine : Engine) (program : List StageSpec) :
    (engine.config.monitoring.metricsEnabled = true → ∀ graph, (engine.build program).1 = .ok graph →
      (∀ state result, AnyStoreExecution (engine.setting graph) state →
        state.outcome? graph.root = some (.ok result) →
        Accounted (engine.setting graph) program state engine.tally
          ((engine.build program).2.record state.tally).tally) ∧
      ∀ deadline answer next result, engine.run? program deadline = some (answer, next) →
        answer.outcome = .ok result →
        ∃ state value, AnyStoreExecution (engine.setting graph) state ∧
          state.outcome? graph.root = some (.ok value) ∧ result = value.withWarnings graph.warnings ∧
          Accounted (engine.setting graph) program state engine.tally next.tally) ∧
    (engine.config.monitoring.metricsEnabled = false →
      (∀ tally, ((engine.build program).2.record tally).tally = engine.tally) ∧
      ∀ deadline answer next, engine.run? program deadline = some (answer, next) →
        next.tally = engine.tally) := by
  constructor
  · intro enabled graph built
    have accounted : ∀ state result, AnyStoreExecution (engine.setting graph) state →
        state.outcome? graph.root = some (.ok result) →
        Accounted (engine.setting graph) program state engine.tally
          ((engine.build program).2.record state.tally).tally :=
      fun _ _ execution published => Engine.accounted enabled built execution published
    refine ⟨accounted, fun deadline answer next result ran succeeded => ?_⟩
    obtain ⟨_, failed, _⟩ | ⟨other, state, built', execution, tally, answers⟩ := Engine.run?_eq_some ran
    · simp [failed] at built
    · obtain rfl : other = graph := by simpa [built] using built'.symm
      obtain ⟨value, published, same⟩ := answers result succeeded
      exact ⟨state, value, execution, published, same, tally ▸ accounted state value execution published⟩
  · intro disabled
    have build : (engine.build program).2 = engine := Engine.record_disabled disabled _
    have recorded : ∀ tally, ((engine.build program).2.record tally).tally = engine.tally := fun tally => by
      rw [build, Engine.record_disabled disabled]
    refine ⟨recorded, fun deadline answer next ran => ?_⟩
    obtain ⟨_, _, _, rfl⟩ | ⟨_, state, _, _, tally, _⟩ := Engine.run?_eq_some ran
    · rw [build]
    · rw [tally, recorded]

/-- Two alerts, one behind the other, on a select that an aggregator was lifted into. -/
def watchedLoad : List StageSpec :=
  [StageSpec.ofKind .select "load", StageSpec.ofKind .aggregate "max",
    { StageSpec.ofKind .aggregate "dataabsent" with binding := some "gone" },
    { StageSpec.ofKind .aggregate "threshold" with
      binding := some "high", args := .ofList [("operator", .str ">"), ("threshold", .int 1)] },
    { StageSpec.ofKind .aggregate "union" with inputs := some ["high", "gone", "high"] }]

/-- An engine whose store has one old sample and an alert with it. -/
def oldSampleEngine : Engine where
  config := .standard
  backend :=
    let samples : List Sample :=
      (Instant.ofMillis? (-3000000)).toList.map fun time => ⟨time, .number (.ofInt 2)⟩
    let alert : Trigger := ⟨.epoch, none, "stored", .empty, .empty⟩
    let series : Series := { Series.named "load" with values := samples, alerts := [alert] }
    .scripted ⟨.ofList [("load", ⟨0, .answered ⟨[⟨1, [series]⟩], []⟩⟩)]⟩
  clock := .epoch
  tally := .empty
  received := []

/-- An engine that does not count. -/
def Engine.uncounted (engine : Engine) : Engine :=
  { engine with config.monitoring.metricsEnabled := false }

/-- Each alert finds one trigger. The later one hands on the stored trigger and that of the earlier one, which
are not counted again, and the union has the triggers of both. -/
theorem watchedLoad_accounted :
    (∃ graph state answer next result, oldSampleEngine.run? watchedLoad none = some (answer, next) ∧
      answer.outcome = .ok result ∧
      Accounted (oldSampleEngine.setting graph) watchedLoad state oldSampleEngine.tally next.tally ∧
      result.alertCount = 5 ∧ next.tally.total (.alertTriggers "dataabsent") = 1 ∧
      next.tally.total (.alertTriggers "threshold") = 1 ∧ next.tally.total (.lifted .max) = 1) ∧
    ∃ answer next, oldSampleEngine.uncounted.run? watchedLoad none = some (answer, next) ∧
      next.tally = oldSampleEngine.tally := by
  constructor
  · obtain ⟨graph, built⟩ : ∃ graph, (oldSampleEngine.build watchedLoad).1 = .ok graph := ⟨_, rfl⟩
    obtain ⟨answer, next, result, ran, succeeded, counts⟩ : ∃ answer next result,
        oldSampleEngine.run? watchedLoad none = some (answer, next) ∧ answer.outcome = .ok result ∧
        result.alertCount = 5 ∧ next.tally.total (.alertTriggers "dataabsent") = 1 ∧
        next.tally.total (.alertTriggers "threshold") = 1 ∧ next.tally.total (.lifted .max) = 1 :=
      ⟨_, _, _, rfl, rfl, by decide +kernel⟩
    have accounted := (metrics_account_for_runs oldSampleEngine watchedLoad).1 rfl graph built
    obtain ⟨state, _, _, _, _, accounted⟩ := accounted.2 none answer next result ran succeeded
    exact ⟨graph, state, answer, next, result, ran, succeeded, accounted, counts⟩
  · obtain ⟨answer, next, ran⟩ : ∃ answer next,
        oldSampleEngine.uncounted.run? watchedLoad none = some (answer, next) := ⟨_, _, rfl⟩
    have unchanged := (metrics_account_for_runs oldSampleEngine.uncounted watchedLoad).2 rfl
    exact ⟨answer, next, ran, unchanged.2 none answer next ran⟩

end MetricEngine
