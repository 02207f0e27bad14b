import Mathlib.Data.List.Perm.Subperm
import Mathlib.Data.Nat.Find
import MetricEngine.Execution.Schedule
import MetricEngine.Proofs.Execution.Interleaving

/-!
Executions agree with plain evaluation. While the root has not published, some task can take a step, and
no task takes a step twice, so every execution that goes on comes to an end. By then each stage that the
root needs has run once, and the root has published its value.
-/
namespace MetricEngine
open Relation RunState

namespace TaskStep

/-- The tasks that have started, in order. -/
def starts (steps : List TaskStep) : List Nat :=
  (steps.filter fun step => step.action = .start).map (·.task)

theorem mem_starts {steps : List TaskStep} {id : Nat} : id ∈ starts steps ↔ ⟨.start, id⟩ ∈ steps := by
  simp only [starts, List.mem_map, List.mem_filter, decide_eq_true_eq]
  constructor
  · rintro ⟨⟨action, task⟩, ⟨member, rfl⟩, rfl⟩
    exact member
  · intro member
    exact ⟨_, ⟨member, rfl⟩, rfl⟩

theorem starts_nodup {steps : List TaskStep} (distinct : steps.Nodup) : (starts steps).Nodup := by
  refine List.Nodup.map_on ?_ (distinct.filter _)
  rintro ⟨action, task⟩ first ⟨other, _⟩ second rfl
  obtain rfl : action = .start := by simpa using (List.mem_filter.mp first).2
  obtain rfl : other = .start := by simpa using (List.mem_filter.mp second).2
  rfl

theorem filterMap_sent? (setting : RunSetting) (steps : List TaskStep) :
    steps.filterMap (sent? setting) =
      (starts steps).filterMap fun id => (setting.graph.stage? id).bind Stage.query? := by
  induction steps with
  | nil => rfl
  | cons step steps ih =>
    obtain ⟨action, id⟩ := step
    cases action <;> simp [starts, sent?, List.filterMap_cons] at ih ⊢ <;> simp [ih]

/-- All steps of some tasks. -/
def allOf (ids : List Nat) : List TaskStep :=
  ids.flatMap fun id => [⟨.collect, id⟩, ⟨.start, id⟩, ⟨.finish, id⟩]

theorem mem_allOf {step : TaskStep} {ids : List Nat} (member : step.task ∈ ids) :
    step ∈ allOf ids := by
  obtain ⟨action, id⟩ := step
  exact List.mem_flatMap.mpr ⟨id, member, by cases action <;> simp⟩

theorem allOf_length (ids : List Nat) : (allOf ids).length = 3 * ids.length := by
  simp [allOf, List.length_flatMap, Nat.mul_comm]

end TaskStep

namespace Consistent
variable {setting : RunSetting} {steps : List TaskStep} {state : RunState}

/-! No task takes a step twice, and only those that the root needs take any. -/

theorem steps_nodup (consistent : Consistent setting steps state) : steps.Nodup := by
  rw [List.nodup_iff_count_le_one]
  intro ⟨action, id⟩
  rw [← TaskStep.count_takenBy]
  exact List.nodup_iff_count_le_one.mp (consistent.history id).nodup action

theorem task_reachable (consistent : Consistent setting steps state)
    (formed : setting.graph.WellFormed) {step : TaskStep} (taken : step ∈ steps) :
    setting.graph.Reachable step.task := by
  rw [← consistent.progress?_isSome_iff formed]
  have history := consistent.history step.task
  have member := TaskStep.mem_takenBy.mpr taken
  cases progress : state.progress? step.task with
  | some _ => rfl
  | none =>
    rw [progress] at history
    simp [history.eq_nil] at member

theorem steps_length_le (consistent : Consistent setting steps state)
    (formed : setting.graph.WellFormed) : steps.length ≤ 3 * setting.graph.order.length := by
  rw [← TaskStep.allOf_length]
  refine (List.subperm_of_subset consistent.steps_nodup fun step taken => ?_).length_le
  exact TaskStep.mem_allOf ((Graph.mem_order_iff formed).mpr (consistent.task_reachable formed taken))

/-! Some task can take a step while the root has not published. -/

theorem can_finish_running (consistent : Consistent setting steps state)
    (formed : setting.graph.WellFormed) {id due : Nat}
    (running : state.progress? id = some (.running due)) :
    ∃ next, state.after? setting ⟨.finish, id⟩ = some next := by
  obtain ⟨stage, found⟩ := task?_of_progress running
  have isStage : setting.graph.stage? id = some stage := consistent.task_stage formed found
  obtain ⟨inputs, known⟩ := consistent.supplied id stage isStage (.inr ⟨due, running⟩)
  exact can_finish found known

/-- If no task of the queue gets a permit, another one holds it. -/
theorem running_of_no_permit (consistent : Consistent setting steps state)
    (formed : setting.graph.WellFormed) (waits : state.queue ≠ [])
    (noPermit : state.startable setting = []) :
    ∃ id due, state.progress? id = some (.running due) := by
  have positive : 0 < state.runningCount := by
    rw [startable] at noPermit
    split at noPermit
    · exact absurd noPermit waits
    · have := List.take_eq_nil_iff.mp noPermit
      have := this.resolve_right waits
      omega
  obtain ⟨task, member, running⟩ := List.countP_pos_iff.mp positive
  have found := task?_progress (consistent.task?_of_mem formed member)
  cases progress : task.progress with
  | running due => exact ⟨_, due, progress ▸ found⟩
  | waiting => simp [Task.due?, progress] at running
  | queued => simp [Task.due?, progress] at running
  | finished outcome => simp [Task.due?, progress] at running

/-- The least stage that has not published can take a step, or another one holds its permit. -/
theorem progress (consistent : Consistent setting steps state) (formed : setting.graph.WellFormed)
    (unfinished : state.outcome? setting.graph.root = none) :
    ∃ step next, state.after? setting step = some next := by
  classical
  have exists_unfinished : ∃ id, setting.graph.Reachable id ∧ state.outcome? id = none :=
    ⟨_, .refl, unfinished⟩
  obtain ⟨reachable, pending⟩ := Nat.find_spec exists_unfinished
  have least : ∀ id, id < Nat.find exists_unfinished → setting.graph.Reachable id →
      (state.outcome? id).isSome := by
    intro id smaller needed
    have := Nat.find_min exists_unfinished smaller
    exact Option.isSome_iff_ne_none.mpr fun none => this ⟨needed, none⟩
  generalize Nat.find exists_unfinished = id at reachable pending least
  obtain ⟨progress, found⟩ :=
    Option.isSome_iff_exists.mp ((consistent.progress?_isSome_iff formed).mpr reachable)
  cases progress with
  | waiting =>
    obtain ⟨stage, task⟩ := task?_of_progress found
    have isStage : setting.graph.stage? id = some stage := consistent.task_stage formed task
    refine ⟨⟨.collect, id⟩, can_collect task (inputs?_isSome fun input member => ?_)⟩
    have reads : setting.graph.Reads id input := by rwa [Graph.Reads, formed.inputsOf_eq isStage]
    exact least input reads.lt (reachable.tail reads)
  | queued =>
    have waits : state.queue ≠ [] := List.ne_nil_of_mem ((consistent.queued id).mpr found)
    cases allowed : state.startable setting with
    | nil =>
      obtain ⟨other, due, running⟩ := consistent.running_of_no_permit formed waits allowed
      exact ⟨_, consistent.can_finish_running formed running⟩
    | cons first rest =>
      have first_allowed : first ∈ state.startable setting := allowed ▸ List.mem_cons_self
      have queued := (consistent.queued first).mp (mem_queue_of_startable first_allowed)
      obtain ⟨stage, task⟩ := task?_of_progress queued
      exact ⟨⟨.start, first⟩, can_start task first_allowed⟩
  | running due => exact ⟨_, consistent.can_finish_running formed found⟩
  | finished outcome => simp [outcome?_eq_some_iff.mpr found] at pending

/-! What has happened when a stage has published. -/

/-- If the root has a value, no stage that it needs publishes an error. -/
theorem outcome_is_value (consistent : Consistent setting steps state)
    (value : (setting.value? setting.graph.root).isSome) {id : Nat} {outcome : StageOutcome}
    (reachable : setting.graph.Reachable id) (published : state.outcome? id = some outcome) :
    ∃ result, outcome = .ok result ∧ setting.value? id = some result := by
  have explained := consistent.explained id outcome published
  cases outcome with
  | ok result => exact ⟨result, rfl, explained⟩
  | error error =>
    obtain ⟨origin, path, fails⟩ := explained
    simp [fails.no_value (reachable.trans path)] at value

theorem takenBy_of_result (consistent : Consistent setting steps state) {id : Nat} {result : Result}
    (published : state.outcome? id = some (.ok result)) :
    TaskStep.takenBy id steps = [.collect, .start, .finish] := by
  have history := consistent.history id
  rw [outcome?_eq_some_iff.mp published] at history
  exact history.of_result

theorem published_of_finish (consistent : Consistent setting steps state) {id : Nat}
    (taken : ⟨.finish, id⟩ ∈ steps) : ∃ outcome, state.outcome? id = some outcome := by
  obtain ⟨outcome, found⟩ := (consistent.history id).finished (TaskStep.mem_takenBy.mpr taken)
  exact ⟨outcome, outcome?_eq_some_iff.mpr found⟩

/-- A stage only has a result if all of its inputs have. -/
theorem result_of_input (consistent : Consistent setting steps state) {reader input : Nat} {result : Result}
    (published : state.outcome? reader = some (.ok result)) (reads : setting.graph.Reads reader input) :
    ∃ result, state.outcome? input = some (.ok result) := by
  have started : ⟨.start, reader⟩ ∈ steps :=
    TaskStep.mem_takenBy.mp (by simp [consistent.takenBy_of_result published])
  obtain ⟨before, after, split⟩ := List.append_of_mem started
  have finished := consistent.inputsFinished before _ after split rfl input reads
  obtain ⟨outcome, input_published⟩ :=
    consistent.published_of_finish (split ▸ List.mem_append_left _ finished)
  cases outcome with
  | ok result => exact ⟨result, input_published⟩
  | error error =>
    have value : setting.value? reader = some result := consistent.explained _ _ published
    obtain ⟨origin, path, fails⟩ := consistent.explained _ _ input_published
    simp [fails.no_value (.head reads path)] at value

/-- When a result has been published, so have the results of all stages behind it. -/
theorem all_published (consistent : Consistent setting steps state)
    (value : (setting.value? setting.graph.root).isSome)
    (published : (state.outcome? setting.graph.root).isSome) {id : Nat}
    (reachable : setting.graph.Reachable id) :
    ∃ result, state.outcome? id = some (.ok result) := by
  induction reachable with
  | refl =>
    obtain ⟨outcome, published⟩ := Option.isSome_iff_exists.mp published
    obtain ⟨result, rfl, _⟩ := consistent.outcome_is_value value .refl published
    exact ⟨result, published⟩
  | tail _ reads ih =>
    obtain ⟨result, reader_published⟩ := ih
    exact consistent.result_of_input reader_published reads

theorem ran_once (consistent : Consistent setting steps state)
    (value : (setting.value? setting.graph.root).isSome)
    (published : (state.outcome? setting.graph.root).isSome) {id : Nat}
    (reachable : setting.graph.Reachable id) (action : TaskAction) :
    steps.count ⟨action, id⟩ = 1 := by
  obtain ⟨result, published⟩ := consistent.all_published value published reachable
  rw [← TaskStep.count_takenBy, consistent.takenBy_of_result published]
  cases action <;> rfl

theorem starts_perm (consistent : Consistent setting steps state)
    (formed : setting.graph.WellFormed) (value : (setting.value? setting.graph.root).isSome)
    (published : (state.outcome? setting.graph.root).isSome) :
    (TaskStep.starts steps).Perm setting.graph.order := by
  refine (List.perm_ext_iff_of_nodup (TaskStep.starts_nodup consistent.steps_nodup)
    (Graph.order_nodup formed)).mpr fun id => ?_
  rw [TaskStep.mem_starts, Graph.mem_order_iff formed]
  constructor
  · exact consistent.task_reachable formed
  · intro reachable
    apply List.count_pos_iff.mp
    rw [consistent.ran_once value published reachable]
    exact Nat.one_pos

theorem received_perm (consistent : Consistent setting steps state)
    (formed : setting.graph.WellFormed) (value : (setting.value? setting.graph.root).isSome)
    (published : (state.outcome? setting.graph.root).isSome) :
    state.received.Perm (setting.graph.stages.filterMap Stage.query?) := by
  rw [consistent.received, TaskStep.filterMap_sent?, Graph.stages, List.filterMap_filterMap]
  exact (consistent.starts_perm formed value published).filterMap _

/-- Every query comes from a select that the root needs. -/
theorem received_from (consistent : Consistent setting steps state)
    (formed : setting.graph.WellFormed) {query : Query} (received : query ∈ state.received) :
    ∃ id stage, setting.graph.Reachable id ∧ setting.graph.stage? id = some stage ∧
      stage.query? = some query := by
  rw [consistent.received, TaskStep.filterMap_sent?] at received
  obtain ⟨id, started, sent⟩ := List.mem_filterMap.mp received
  obtain ⟨stage, found, sent⟩ := Option.bind_eq_some_iff.mp sent
  exact ⟨id, stage, consistent.task_reachable formed (TaskStep.mem_starts.mp started), found, sent⟩

end Consistent

/-- Whatever order the tasks take their steps in, a run whose operations all succeed agrees with plain
evaluation. Only stages that the root needs run, each after its inputs. Some task can go on while the root
has not published, and no more than three steps of each are possible. Once the root has published, it has
published its value, every stage that it needs has run once, and the store has got the query of each
select among them once. All stages read the clock of the setting, which stands still, and an engine makes such
runs for limits up to `Engine.mostPermits`. -/
theorem execution_agrees_with_evaluation {setting : RunSetting} {result : Result}
    (formed : setting.graph.WellFormed) (value : setting.value? setting.graph.root = some result)
    {steps : List TaskStep} {state : RunState} (execution : Execution setting steps state) :
    (∀ step ∈ steps, setting.graph.Reachable step.task) ∧
    (∀ before id after, steps = before ++ ⟨.start, id⟩ :: after →
      ∀ input, setting.graph.Reads id input →
        ⟨.finish, input⟩ ∈ before) ∧
    (state.outcome? setting.graph.root = none →
      ∃ step next, state.after? setting step = some next) ∧
    steps.length ≤ 3 * setting.graph.order.length ∧
    (∀ outcome, state.outcome? setting.graph.root = some outcome →
      outcome = .ok result ∧
      (RunReport.ofState setting state).finish =
        .published (.ok (result.withWarnings setting.graph.warnings)) ∧
      (∀ id, setting.graph.Reachable id →
        steps.count ⟨.start, id⟩ = 1 ∧ steps.count ⟨.finish, id⟩ = 1) ∧
      state.received.Perm (setting.graph.stages.filterMap Stage.query?)) := by
  have consistent := execution.consistent formed
  have has_value : (setting.value? setting.graph.root).isSome := by rw [value]; rfl
  refine ⟨fun step => consistent.task_reachable formed, ?_, consistent.progress formed,
    consistent.steps_length_le formed, ?_⟩
  · intro before id after split
    exact consistent.inputsFinished before _ after split rfl
  · intro outcome published
    obtain ⟨other, rfl, same⟩ := consistent.outcome_is_value has_value .refl published
    obtain rfl : result = other := Option.some.inj (value.symm.trans same)
    have root_published : (state.outcome? setting.graph.root).isSome := by rw [published]; rfl
    refine ⟨rfl, ?_, ?_, consistent.received_perm formed has_value root_published⟩
    · simp [RunReport.ofState, published]
    · intro id reachable
      exact ⟨consistent.ran_once has_value root_published reachable .start,
        consistent.ran_once has_value root_published reachable .finish⟩

/-- A union that names one select twice. -/
def selectReadTwice : RunSetting where
  graph := ⟨#[⟨1, none, .select ⟨default, []⟩, [], [], none⟩,
    ⟨2, none, .aggregate .union .union, [1, 1], [], none⟩], 2⟩
  clock := .epoch
  store _ := ⟨0, .answered ⟨[⟨3, []⟩], []⟩⟩
  limit := 1

theorem selectReadTwice_value :
    selectReadTwice.value? 2 = some (.ofQueries [⟨3, []⟩]) := by
  have select : selectReadTwice.value? 1 = some (.ofQueries [⟨3, []⟩]) :=
    RunSetting.value?_eq_some_iff.mpr ⟨_, [], rfl, rfl, rfl⟩
  have inputs : (selectReadTwice.graph.inputsOf 2).eraseDups = [1] := rfl
  refine RunSetting.value?_eq_some_iff.mpr ⟨_, [.ofQueries [⟨3, []⟩]], rfl, ?_, rfl⟩
  simp [inputs, select]

theorem selectReadTwice_agrees : ∃ state, Execution selectReadTwice (TaskStep.allOf [1, 2]) state ∧
    state.outcome? 2 = some (.ok (.ofQueries [⟨3, []⟩])) ∧ state.received.Perm [⟨default, []⟩] := by
  have ended : ((RunState.replay? selectReadTwice (TaskStep.allOf [1, 2])).bind
      fun state => state.outcome? 2).isSome := by decide
  obtain ⟨outcome, ended⟩ := Option.isSome_iff_exists.mp ended
  obtain ⟨state, replayed, published⟩ := Option.bind_eq_some_iff.mp ended
  have execution := Execution.of_replay replayed
  obtain ⟨_, _, _, _, at_end⟩ :=
    execution_agrees_with_evaluation (by decide) selectReadTwice_value execution
  obtain ⟨rfl, _, _, received⟩ := at_end outcome published
  exact ⟨state, execution, published, received⟩

end MetricEngine
