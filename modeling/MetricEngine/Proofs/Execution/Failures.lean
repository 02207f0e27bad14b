import MetricEngine.Proofs.Execution.Agreement

/-!
Failures of runs. A failure arises in one stage, which has run its operation on the results of all its
inputs, and reaches the stages that need this one without a change. None of those runs.
-/
namespace MetricEngine
open Relation RunState

/-- The store never answers a select, or an operation has no result. -/
def Stage.BreaksDown (setting : RunSetting) (stage : Stage) (inputs : List Result) : Prop :=
  match stage.work with
  | .select query => (setting.store query).outcome = .broken
  | .aggregate _ operation => operation.result? setting.clock inputs = none

/-- No stage that the root needs breaks down on the values of its inputs. -/
def RunSetting.Steady (setting : RunSetting) : Prop :=
  ∀ id stage inputs, setting.graph.Reachable id → setting.graph.stage? id = some stage →
    (setting.graph.inputsOf id).eraseDups.mapM setting.value? = some inputs →
    ¬stage.BreaksDown setting inputs

/-- An operation that does not break down fails only because the store refuses a query. The error says
why, and in which stage. -/
theorem Stage.answer_refused {setting : RunSetting} {stage : Stage} {inputs : List Result}
    {error : ExecutionError} (steady : ¬stage.BreaksDown setting inputs)
    (failed : stage.answer setting inputs = .error error) :
    ∃ query cause, stage.work = .select query ∧ (setting.store query).outcome = .failed cause ∧
      error = ⟨.store, cause.message, some ⟨stage.id, stage.operationName⟩, some cause⟩ := by
  rw [BreaksDown] at steady
  rw [answer] at failed
  cases work : stage.work with
  | select query =>
    simp only [work] at steady failed
    cases outcome : (setting.store query).outcome with
    | answered response => simp [outcome] at failed
    | broken => exact absurd outcome steady
    | failed cause =>
      simp only [outcome, Except.error.injEq] at failed
      refine ⟨query, cause, rfl, outcome, ?_⟩
      rw [← failed, operationName, work]
      rfl
  | aggregate kind operation =>
    simp only [work] at steady failed
    cases result : operation.result? setting.clock inputs with
    | none => exact absurd result steady
    | some _ => simp [result] at failed

/-- A stage of a run that has failed by itself: its inputs have succeeded and its operation has run. -/
structure FailedItself (setting : RunSetting) (steps : List TaskStep) (state : RunState) (id : Nat)
    (error : ExecutionError) : Prop where
  fails : setting.Fails id error
  supplied : ∀ input, setting.graph.Reads id input → ∃ result, state.outcome? input = some (.ok result)
  ran : ⟨.finish, id⟩ ∈ steps
  published : state.outcome? id = some (.error error)

variable {setting : RunSetting} {steps : List TaskStep} {state next : RunState}

/-- What has failed by itself stays so. -/
theorem FailedItself.after {id task : Nat} {error : ExecutionError} {action : TaskAction}
    (failed : FailedItself setting steps state id error) (consistent : Consistent setting steps state)
    (taken : state.after? setting ⟨action, task⟩ = some next) :
    FailedItself setting (steps ++ [⟨action, task⟩]) next id error where
  fails := failed.fails
  supplied input reads :=
    have ⟨result, published⟩ := failed.supplied input reads
    ⟨result, consistent.orderly.outcome?_after taken published⟩
  ran := List.mem_append_left _ failed.ran
  published := consistent.orderly.outcome?_after taken failed.published

/-- Every error that was published comes from a stage that has failed by itself. -/
def Traced (setting : RunSetting) (steps : List TaskStep) (state : RunState) : Prop :=
  ∀ id error, state.outcome? id = some (.error error) →
    ∃ origin, ReflTransGen setting.graph.Reads id origin ∧
      FailedItself setting steps state origin error

theorem Traced.step (traced : Traced setting steps state) (formed : setting.graph.WellFormed)
    (consistent : Consistent setting steps state) {action : TaskAction} {task : Nat}
    (taken : state.after? setting ⟨action, task⟩ = some next) :
    Traced setting (steps ++ [⟨action, task⟩]) next := by
  obtain ⟨stage, old, new, found, ⟨_, _, move, _, _⟩, moved, _⟩ := after?_move taken
  have isStage : setting.graph.stage? task = some stage := consistent.task_stage formed found
  have reads_iff : ∀ input, setting.graph.Reads task input ↔ input ∈ stage.inputs := by
    intro input
    rw [Graph.Reads, formed.inputsOf_eq isStage]
  intro id error published
  by_cases same : id = task
  · subst same
    have progress : new = .finished (.error error) := by
      have := outcome?_eq_some_iff.mp published
      rwa [moved, if_pos rfl, Option.some.injEq] at this
    cases move with
    | enqueue => simp at progress
    | start => simp at progress
    | skip failed =>
      -- The error is that of an input, which has been traced before.
      obtain rfl : _ = error := by simpa using progress
      obtain ⟨input, member, input_published⟩ := input_failed failed
      obtain ⟨origin, path, itself⟩ := traced input _ input_published
      exact ⟨origin, .head ((reads_iff input).mpr member) path, itself.after consistent taken⟩
    | @finish inputs due succeeded =>
      have answer : stage.answer setting inputs = .error error := by simpa using progress
      have values := consistent.values_of_inputs formed isStage succeeded
      refine ⟨id, .refl, ⟨stage, inputs, isStage, values, answer⟩, ?_, by simp, published⟩
      intro input reads
      obtain ⟨result, _, input_published⟩ := input_succeeded succeeded ((reads_iff input).mp reads)
      exact ⟨result, consistent.orderly.outcome?_after taken input_published⟩
  · have before : state.outcome? id = some (.error error) := by
      rw [outcome?_eq_some_iff, moved, if_neg same] at published
      exact outcome?_eq_some_iff.mpr published
    obtain ⟨origin, path, itself⟩ := traced id error before
    exact ⟨origin, path, itself.after consistent taken⟩

theorem Execution.traced (formed : setting.graph.WellFormed)
    (execution : Execution setting steps state) : Traced setting steps state := by
  induction execution with
  | initial =>
    intro id error published
    have explained := (Consistent.initial setting).history id
    rw [outcome?_eq_some_iff.mp published] at explained
    cases explained
  | step before taken ih => exact ih.step formed (before.consistent formed) taken
  | pass time _ ih =>
    intro id error published
    obtain ⟨origin, path, itself⟩ := ih id error published
    exact ⟨origin, path, itself.fails, itself.supplied, itself.ran, itself.published⟩

/-- A stage starts only if all of its inputs have values. -/
theorem Execution.started_supplied (formed : setting.graph.WellFormed)
    (execution : Execution setting steps state) {id : Nat} (started : ⟨.start, id⟩ ∈ steps) :
    ∃ inputs, (setting.graph.inputsOf id).eraseDups.mapM setting.value? = some inputs := by
  induction execution with
  | initial => simp at started
  | pass _ _ ih => exact ih started
  | @step steps state step next before taken ih =>
    rcases List.mem_append.mp started with earlier | last
    · exact ih earlier
    · obtain rfl := List.mem_singleton.mp last
      have consistent := before.consistent formed
      obtain ⟨stage, old, new, found, ⟨_, _, move, _, _⟩, _, _⟩ := after?_move taken
      have isStage : setting.graph.stage? id = some stage := consistent.task_stage formed found
      obtain ⟨inputs, succeeded⟩ := consistent.supplies_new isStage move (by cases move; simp)
      exact ⟨inputs, consistent.values_of_inputs formed isStage succeeded⟩

/-- Nothing that needs a failing stage starts. -/
theorem Execution.not_started (formed : setting.graph.WellFormed)
    (execution : Execution setting steps state) {id origin : Nat} {error : ExecutionError}
    (needs : TransGen setting.graph.Reads id origin) (fails : setting.Fails origin error) :
    ⟨.start, id⟩ ∉ steps := by
  intro started
  obtain ⟨inputs, values⟩ := execution.started_supplied formed started
  obtain ⟨input, reads, path⟩ := TransGen.head'_iff.mp needs
  have all := ListFacts.mapM_isSome_iff.mp (Option.isSome_iff_exists.mpr ⟨inputs, values⟩)
  have value := all input (List.mem_eraseDups.mpr reads)
  simp [fails.no_value path] at value

/-- A task that has run its operation took a permit for it. -/
theorem History.started {progress : Option Progress} {taken : List TaskAction}
    (history : History progress taken) (finished : .finish ∈ taken) : .start ∈ taken := by
  cases history with
  | ran => simp
  | absent => simp at finished
  | waiting => simp at finished
  | queued => simp at finished
  | running => simp
  | skipped => simp at finished

theorem Consistent.root_fails_iff (consistent : Consistent setting steps state) {outcome : StageOutcome}
    (published : state.outcome? setting.graph.root = some outcome) :
    (∃ error, outcome = .error error) ↔
      ∃ id error, setting.graph.Reachable id ∧ setting.Fails id error := by
  have explained := consistent.explained _ _ published
  constructor
  · rintro ⟨error, rfl⟩
    obtain ⟨origin, path, fails⟩ := explained
    exact ⟨origin, error, path, fails⟩
  · rintro ⟨id, error, reachable, fails⟩
    cases outcome with
    | error error => exact ⟨error, rfl⟩
    | ok result =>
      have value : setting.value? setting.graph.root = some result := explained
      simp [fails.no_value reachable] at value

/-- Whatever order the tasks take their steps in, a run in which nothing breaks down fails exactly if a
stage that the root needs fails on the values of its inputs, and no stage behind such a one runs. Some task
can go on while the root has not published, and no more than three steps of each are possible. The error of
the run is that of a select which the store refused and whose inputs, if any, had succeeded: it states the
cause unchanged, and that select as its site. An engine makes such runs for limits up to
`Engine.mostPermits`. -/
theorem failure_propagates (formed : setting.graph.WellFormed) (steady : setting.Steady)
    (execution : Execution setting steps state) :
    (state.outcome? setting.graph.root = none →
      ∃ step next, state.after? setting step = some next) ∧
    steps.length ≤ 3 * setting.graph.order.length ∧
    (∀ id origin error, TransGen setting.graph.Reads id origin → setting.Fails origin error →
      ⟨.start, id⟩ ∉ steps ∧ ⟨.finish, id⟩ ∉ steps) ∧
    ∀ outcome, state.outcome? setting.graph.root = some outcome →
      ((∃ error, outcome = .error error) ↔
        ∃ id error, setting.graph.Reachable id ∧ setting.Fails id error) ∧
      ∀ error, outcome = .error error →
        (RunReport.ofState setting state).finish = .published (.error error) ∧
        ∃ origin stage query cause, setting.graph.Reachable origin ∧
          setting.graph.stage? origin = some stage ∧ stage.work = .select query ∧
          (setting.store query).outcome = .failed cause ∧
          FailedItself setting steps state origin error ∧
          error = ⟨.store, cause.message, some ⟨origin, stage.operationName⟩, some cause⟩ := by
  have consistent := execution.consistent formed
  refine ⟨consistent.progress formed, consistent.steps_length_le formed, ?_, ?_⟩
  · intro id origin error needs fails
    have not_started := execution.not_started formed needs fails
    refine ⟨not_started, fun finished => not_started ?_⟩
    exact TaskStep.mem_takenBy.mp
      ((consistent.history id).started (TaskStep.mem_takenBy.mpr finished))
  · intro outcome published
    refine ⟨consistent.root_fails_iff published, ?_⟩
    rintro error rfl
    refine ⟨by simp [RunReport.ofState, published], ?_⟩
    obtain ⟨origin, path, itself⟩ := execution.traced formed _ _ published
    obtain ⟨stage, inputs, isStage, values, answer⟩ := itself.fails
    obtain ⟨query, cause, work, refused, same⟩ :=
      Stage.answer_refused (steady origin stage inputs path isStage values) answer
    obtain rfl := formed.numbered isStage
    exact ⟨_, stage, query, cause, path, isStage, work, refused, itself, same⟩

/-- Two selects, of which the store refuses the first one, and two rankings behind them. -/
def firstSelectRefused : RunSetting where
  graph := ⟨#[⟨1, none, .select ⟨default, []⟩, [], [], none⟩,
    ⟨2, none, .select ⟨default, [⟨"m", .empty, [], []⟩]⟩, [], [], none⟩,
    ⟨3, none, .aggregate .top (.rank ⟨1, false⟩), [2, 1], [], none⟩,
    ⟨4, none, .aggregate .top (.rank ⟨1, false⟩), [2, 3], [], none⟩], 4⟩
  clock := .epoch
  store query :=
    ⟨5, if query.metrics.isEmpty then .failed (.backend "down") else .answered ⟨[], []⟩⟩
  limit := 1

theorem firstSelectRefused_steady : firstSelectRefused.Steady := by
  intro id stage inputs _ found _
  have member : stage ∈ firstSelectRefused.graph.all := by
    cases id with
    | zero => simp [Graph.stage?] at found
    | succ index => exact Array.mem_of_getElem? found
  simp only [firstSelectRefused, List.mem_toArray, List.mem_cons, List.not_mem_nil, or_false] at member
  rcases member with rfl | rfl | rfl | rfl
  · exact StoreOutcome.noConfusion
  · exact StoreOutcome.noConfusion
  · exact Option.some_ne_none _
  · exact Option.some_ne_none _

/-- The first select fails, and both rankings hand its error on. -/
def firstSelectRefusedSteps : List TaskStep :=
  [⟨.collect, 1⟩, ⟨.start, 1⟩, ⟨.finish, 1⟩, ⟨.collect, 3⟩, ⟨.collect, 4⟩]

/-- The run fails before the second select has been asked, and names the first one and not its readers. -/
theorem firstSelectRefused_fails : ∃ state error,
    Execution firstSelectRefused firstSelectRefusedSteps state ∧
    (RunReport.ofState firstSelectRefused state).finish = .published (.error error) ∧
    error.site = some ⟨1, "select"⟩ ∧
    FailedItself firstSelectRefused firstSelectRefusedSteps state 1 error := by
  have ended : (RunState.replay? firstSelectRefused firstSelectRefusedSteps).bind
      (fun state => state.outcome? 4) = some (.error ((ExecutionError.ofStore (.backend "down")).atStage
        1 "select")) := rfl
  obtain ⟨state, replayed, published⟩ := Option.bind_eq_some_iff.mp ended
  have execution := Execution.of_replay replayed
  obtain ⟨_, _, _, at_end⟩ :=
    failure_propagates (by decide) firstSelectRefused_steady execution
  obtain ⟨finish, origin, _, _, _, _, _, _, _, itself, same⟩ := (at_end _ published).2 _ rfl
  obtain rfl : 1 = origin := congrArg ErrorSite.stage (Option.some.inj (congrArg (·.site) same))
  exact ⟨state, _, execution, finish, rfl, itself⟩

end MetricEngine
