import Mathlib.Data.List.Induction
import MetricEngine.Proofs.Execution.Step

/-!
Interleavings of the tasks of a run. An execution is any sequence of steps that the tasks can take one
after another, with time passing in between. `Consistent` is what every execution keeps: which steps each
task has taken, that outcomes agree with plain evaluation, and which queries the store has got.
-/
namespace MetricEngine
open Relation RunState

/-- The states that a run can come to, with the steps that led there. -/
inductive Execution (setting : RunSetting) : List TaskStep → RunState → Prop where
  | initial : Execution setting [] (.initial setting.graph)
  | step {steps state step next} : Execution setting steps state →
      state.after? setting step = some next → Execution setting (steps ++ [step]) next
  | pass {steps state} (time : Nat) : Execution setting steps state →
      Execution setting steps { state with now := time }

/-- The state after some steps, if each can be taken in its turn. -/
def RunState.replay? (setting : RunSetting) (steps : List TaskStep) : Option RunState :=
  steps.foldlM (fun state step => state.after? setting step) (.initial setting.graph)

theorem Execution.of_replay {setting : RunSetting} {steps : List TaskStep} {state : RunState}
    (replayed : RunState.replay? setting steps = some state) : Execution setting steps state := by
  induction steps using List.reverseRecOn generalizing state with
  | nil =>
    obtain rfl : .initial setting.graph = state := by simpa [RunState.replay?] using replayed
    exact .initial
  | append_singleton steps last ih =>
    rw [RunState.replay?, List.foldlM_append] at replayed
    obtain ⟨before, replayed, taken⟩ := Option.bind_eq_some_iff.mp replayed
    exact (ih replayed).step (by simpa using taken)

namespace TaskStep

/-- What a task has done, in order. -/
def takenBy (id : Nat) (steps : List TaskStep) : List TaskAction :=
  (steps.filter fun step => step.task = id).map (·.action)

theorem takenBy_concat (id : Nat) (steps : List TaskStep) (step : TaskStep) :
    takenBy id (steps ++ [step]) =
      if step.task = id then takenBy id steps ++ [step.action] else takenBy id steps := by
  simp only [takenBy, List.filter_append, List.map_append]
  by_cases same : step.task = id <;> simp [same]

theorem count_takenBy (action : TaskAction) (id : Nat) (steps : List TaskStep) :
    (takenBy id steps).count action = steps.count ⟨action, id⟩ := by
  induction steps with
  | nil => rfl
  | cons step steps ih =>
    obtain ⟨other, task⟩ := step
    by_cases same : task = id
    · subst same
      simpa [takenBy, List.count_cons] using ih
    · simpa [takenBy, List.count_cons, same] using ih

theorem mem_takenBy {step : TaskStep} {steps : List TaskStep} :
    step.action ∈ takenBy step.task steps ↔ step ∈ steps := by
  simp only [takenBy, List.mem_map, List.mem_filter, decide_eq_true_eq]
  constructor
  · rintro ⟨other, ⟨member, task⟩, action⟩
    obtain rfl : other = step := by cases other; cases step; simp_all
    exact member
  · intro member
    exact ⟨step, ⟨member, rfl⟩, rfl⟩

/-- The query that goes to the store when a task starts. -/
def sent? (setting : RunSetting) (step : TaskStep) : Option Query :=
  match step.action with
  | .start => (setting.graph.stage? step.task).bind Stage.query?
  | _ => none

end TaskStep

/-- What a task has done when it has come so far. -/
inductive History : Option Progress → List TaskAction → Prop where
  | absent : History none []
  | waiting : History (some .waiting) []
  | queued : History (some .queued) [.collect]
  | running {due} : History (some (.running due)) [.collect, .start]
  | ran {outcome} : History (some (.finished outcome)) [.collect, .start, .finish]
  | skipped {error} : History (some (.finished (.error error))) [.collect]

namespace History
variable {progress : Option Progress} {taken : List TaskAction}

theorem nodup (history : History progress taken) : taken.Nodup := by
  cases history <;> decide

theorem eq_nil (history : History none taken) : taken = [] := by
  cases history
  rfl

/-- A task with a result has taken all of its steps. -/
theorem of_result {result : Result} (history : History (some (.finished (.ok result))) taken) :
    taken = [.collect, .start, .finish] := by
  cases history
  rfl

theorem finished (history : History progress taken) (member : .finish ∈ taken) :
    ∃ outcome, progress = some (.finished outcome) := by
  cases history with
  | ran => exact ⟨_, rfl⟩
  | absent => simp at member
  | waiting => simp at member
  | queued => simp at member
  | running => simp at member
  | skipped => simp at member

end History

/-- An outcome agrees with plain evaluation: a result is the value of the stage, and an error is that of
a stage which fails by itself and which this one needs. -/
def RunSetting.Explains (setting : RunSetting) (id : Nat) : StageOutcome → Prop
  | .ok result => setting.value? id = some result
  | .error error => ∃ origin, ReflTransGen setting.graph.Reads id origin ∧ setting.Fails origin error

/-- The queue has the tasks that have asked for a permit and got none yet, each once. -/
structure RunState.Orderly (state : RunState) : Prop where
  queued : ∀ id, id ∈ state.queue ↔ state.progress? id = some .queued
  distinct : state.queue.Nodup

structure Consistent (setting : RunSetting) (steps : List TaskStep) (state : RunState) : Prop where
  stages : state.tasks.map (·.stage) = setting.graph.stages
  queued : ∀ id, id ∈ state.queue ↔ state.progress? id = some .queued
  distinct : state.queue.Nodup
  /-- A task that has asked for a permit has the results of all its inputs. -/
  supplied : ∀ id stage, setting.graph.stage? id = some stage →
    (state.progress? id = some .queued ∨ ∃ due, state.progress? id = some (.running due)) →
    ∃ inputs, state.inputs? stage = some (.ok inputs)
  explained : ∀ id outcome, state.outcome? id = some outcome → setting.Explains id outcome
  history : ∀ id, History (state.progress? id) (TaskStep.takenBy id steps)
  inputsFinished : ListFacts.EachAfter (fun before step => step.action = .start →
    ∀ input, setting.graph.Reads step.task input → ⟨.finish, input⟩ ∈ before) steps
  received : state.received = steps.filterMap (TaskStep.sent? setting)

namespace Consistent
variable {setting : RunSetting} {steps : List TaskStep} {state : RunState}

theorem orderly (consistent : Consistent setting steps state) : state.Orderly :=
  ⟨consistent.queued, consistent.distinct⟩

theorem task_stage (consistent : Consistent setting steps state)
    (formed : setting.graph.WellFormed) {id : Nat} {task : Task} (found : state.task? id = some task) :
    setting.graph.stage? id = some task.stage := by
  have member : task.stage ∈ setting.graph.stages :=
    consistent.stages ▸ List.mem_map_of_mem (List.mem_of_find?_eq_some found)
  have numbered : task.stage.id = id := by simpa using List.find?_some found
  exact numbered ▸ ((Graph.mem_stages_iff formed).mp member).2

theorem progress?_isSome_iff (consistent : Consistent setting steps state)
    (formed : setting.graph.WellFormed) {id : Nat} :
    (state.progress? id).isSome ↔ setting.graph.Reachable id := by
  have stages : (state.progress? id).isSome ↔ ∃ stage ∈ setting.graph.stages, stage.id = id := by
    simp [progress?, task?, ← consistent.stages]
  rw [stages]
  constructor
  · rintro ⟨stage, member, rfl⟩
    exact ((Graph.mem_stages_iff formed).mp member).1
  · intro reachable
    obtain ⟨stage, found⟩ := Option.isSome_iff_exists.mp (formed.reachable_isSome reachable)
    obtain rfl := formed.numbered found
    exact ⟨stage, (Graph.mem_stages_iff formed).mpr ⟨reachable, found⟩, rfl⟩

theorem task?_of_mem (consistent : Consistent setting steps state)
    (formed : setting.graph.WellFormed) {task : Task} (member : task ∈ state.tasks) :
    state.task? task.stage.id = some task := by
  have distinct : (state.tasks.map (·.stage.id)).Nodup := by
    have ids : state.tasks.map (·.stage.id) = setting.graph.stages.map (·.id) := by
      rw [← consistent.stages, List.map_map]
      rfl
    rw [ids]
    exact Graph.stages_distinct formed
  have found : (state.task? task.stage.id).isSome :=
    List.find?_isSome.mpr ⟨task, member, by simp⟩
  obtain ⟨other, found⟩ := Option.isSome_iff_exists.mp found
  have same : other.stage.id = task.stage.id := by simpa using List.find?_some found
  rw [found, List.inj_on_of_nodup_map distinct (List.mem_of_find?_eq_some found) member same]

theorem initial (setting : RunSetting) : Consistent setting [] (.initial setting.graph) := by
  have waiting : ∀ id progress, (RunState.initial setting.graph).progress? id = some progress →
      progress = .waiting := by
    intro id progress found
    obtain ⟨task, member, rfl⟩ := Option.map_eq_some_iff.mp found
    obtain ⟨stage, _, rfl⟩ := List.mem_map.mp (List.mem_of_find?_eq_some member)
    rfl
  refine ⟨?_, ?_, List.nodup_nil, ?_, ?_, ?_, .nil, rfl⟩
  · simp [RunState.initial, Function.comp_def]
  · intro id
    have := waiting id .queued
    simpa [RunState.initial] using this
  · rintro id stage _ (queued | ⟨due, running⟩)
    · simpa using waiting id _ queued
    · simpa using waiting id _ running
  · intro id outcome published
    simpa using waiting id _ (outcome?_eq_some_iff.mp published)
  · intro id
    cases found : (RunState.initial setting.graph).progress? id with
    | none => exact .absent
    | some progress => exact waiting id _ found ▸ .waiting

end Consistent

namespace RunState.Move
variable {setting : RunSetting} {steps : List TaskStep} {state : RunState} {stage : Stage} {id : Nat}
  {action : TaskAction} {old new : Progress} {queue : List Nat} {received : List Query}

/-- The task of a move has come as far as its action asks for. -/
theorem old_progress (orderly : state.Orderly) (found : state.task? id = some ⟨stage, old⟩)
    (move : Move setting state stage id action old new queue received) :
    match action with
    | .collect => old = .waiting
    | .start => old = .queued
    | .finish => ∃ due, old = .running due := by
  cases move with
  | skip => rfl
  | enqueue => rfl
  | finish => exact ⟨_, rfl⟩
  | start allowed =>
    have queued := (orderly.queued id).mp (mem_queue_of_startable allowed)
    simpa [task?_progress found] using queued

/-- A task that moves has not published yet. -/
theorem not_finished (orderly : state.Orderly) (found : state.task? id = some ⟨stage, old⟩)
    (move : Move setting state stage id action old new queue received) :
    state.outcome? id = none := by
  have old_progress := move.old_progress orderly found
  cases published : state.outcome? id with
  | none => rfl
  | some outcome =>
    have finished := outcome?_eq_some_iff.mp published
    rw [task?_progress found, Option.some.injEq] at finished
    cases action <;> simp [finished] at old_progress

theorem queued (orderly : state.Orderly) (found : state.task? id = some ⟨stage, old⟩)
    (move : Move setting state stage id action old new queue received) (other : Nat) :
    other ∈ queue ↔ (if other = id then some new else state.progress? other) = some .queued := by
  have before := orderly.queued
  have progress := task?_progress found
  have old_progress := move.old_progress orderly found
  by_cases same : other = id
  · subst same
    cases move with
    | skip => simp [before, progress]
    | enqueue => simp
    | start => simp [orderly.distinct.mem_erase_iff]
    | finish => simp [before, progress]
  · cases move with
    | skip => simp [before, same]
    | enqueue => simp [before, same]
    | start => simp [orderly.distinct.mem_erase_iff, before, same]
    | finish => simp [before, same]

theorem distinct (orderly : state.Orderly) (found : state.task? id = some ⟨stage, old⟩)
    (move : Move setting state stage id action old new queue received) : queue.Nodup := by
  cases move with
  | skip => exact orderly.distinct
  | finish => exact orderly.distinct
  | start => exact orderly.distinct.erase id
  | enqueue =>
    have fresh : id ∉ state.queue := by simp [orderly.queued, task?_progress found]
    exact List.nodup_append.mpr ⟨orderly.distinct, List.nodup_singleton id, by grind⟩

theorem history (consistent : Consistent setting steps state)
    (found : state.task? id = some ⟨stage, old⟩)
    (move : Move setting state stage id action old new queue received) :
    History (some new) (TaskStep.takenBy id steps ++ [action]) := by
  have before := consistent.history id
  rw [task?_progress found] at before
  have old_progress := move.old_progress consistent.orderly found
  generalize TaskStep.takenBy id steps = taken at before
  cases move with
  | skip => cases before; exact .skipped
  | enqueue => cases before; exact .queued
  | start => subst old_progress; cases before; exact .running
  | finish => cases before; exact .ran

theorem received_eq (consistent : Consistent setting steps state)
    (isStage : setting.graph.stage? id = some stage)
    (move : Move setting state stage id action old new queue received) :
    received = (steps ++ [TaskStep.mk action id]).filterMap (TaskStep.sent? setting) := by
  rw [List.filterMap_append, ← consistent.received]
  cases move with
  | skip => simp [TaskStep.sent?]
  | enqueue => simp [TaskStep.sent?]
  | finish => simp [TaskStep.sent?]
  | start =>
    cases query : stage.query? with
    | none => simp [TaskStep.sent?, isStage, query]
    | some query => simp [TaskStep.sent?, isStage, query]

end RunState.Move

namespace RunState.Orderly
variable {setting : RunSetting} {state next : RunState} {stage : Stage} {id : Nat}

/-- What has been published stays. -/
theorem outcome?_after (orderly : state.Orderly) {action : TaskAction}
    (taken : state.after? setting ⟨action, id⟩ = some next) {other : Nat} {outcome : StageOutcome}
    (published : state.outcome? other = some outcome) : next.outcome? other = some outcome := by
  obtain ⟨stage, old, new, found, ⟨_, _, move, _, _⟩, moved, _⟩ := after?_move taken
  have different : other ≠ id := by
    rintro rfl
    simp [move.not_finished orderly found] at published
  rw [outcome?_eq_some_iff, moved, if_neg different]
  exact outcome?_eq_some_iff.mp published

theorem inputs?_after (orderly : state.Orderly) {action : TaskAction}
    (taken : state.after? setting ⟨action, id⟩ = some next) {inputs : List Result}
    (succeeded : state.inputs? stage = some (.ok inputs)) :
    next.inputs? stage = some (.ok inputs) := by
  rw [← succeeded]
  apply inputs?_congr
  intro input member
  obtain ⟨result, _, published⟩ := input_succeeded succeeded member
  rw [published, orderly.outcome?_after taken published]

theorem after (orderly : state.Orderly) {action : TaskAction}
    (taken : state.after? setting ⟨action, id⟩ = some next) : next.Orderly := by
  obtain ⟨stage, old, new, found, ⟨queue, received, move, sameQueue, _⟩, moved, _⟩ := after?_move taken
  refine ⟨fun other => ?_, sameQueue ▸ move.distinct orderly found⟩
  rw [moved, sameQueue]
  exact move.queued orderly found other

end RunState.Orderly

namespace Consistent
variable {setting : RunSetting} {steps : List TaskStep} {state next : RunState} {stage : Stage}
  {id : Nat}

/-- The results that a task has collected are the values of its inputs. -/
theorem values_of_inputs (consistent : Consistent setting steps state)
    (formed : setting.graph.WellFormed) (isStage : setting.graph.stage? id = some stage)
    {inputs : List Result} (succeeded : state.inputs? stage = some (.ok inputs)) :
    (setting.graph.inputsOf id).eraseDups.mapM setting.value? = some inputs := by
  rw [ListFacts.mapM_eq_some_iff, formed.inputsOf_eq isStage]
  have outcomes := inputs?_eq_ok_iff.mp succeeded
  have results := congrArg (List.map fun outcome => outcome.bind (·.toOption)) outcomes
  simp only [List.map_map] at results
  calc stage.inputs.eraseDups.map setting.value?
      = stage.inputs.eraseDups.map ((fun outcome => outcome.bind (·.toOption)) ∘ state.outcome?) := by
        refine List.map_congr_left fun input member => ?_
        obtain ⟨result, _, published⟩ := input_succeeded succeeded (List.mem_eraseDups.mp member)
        have value : setting.value? input = some result := consistent.explained _ _ published
        simp [published, value, Except.toOption]
    _ = inputs.map some := by rw [results]; rfl

/-- What a task publishes agrees with plain evaluation if all that was published before does. -/
theorem explains_new (consistent : Consistent setting steps state)
    (formed : setting.graph.WellFormed) (isStage : setting.graph.stage? id = some stage)
    {action : TaskAction} {old : Progress} {outcome : StageOutcome} {queue : List Nat}
    {received : List Query}
    (move : Move setting state stage id action old (.finished outcome) queue received) :
    setting.Explains id outcome := by
  cases move with
  | skip failed =>
    obtain ⟨input, member, published⟩ := input_failed failed
    obtain ⟨origin, path, fails⟩ := consistent.explained input _ published
    have reads : setting.graph.Reads id input := by
      rwa [Graph.Reads, formed.inputsOf_eq isStage]
    exact ⟨origin, .head reads path, fails⟩
  | @finish inputs due succeeded =>
    have values := consistent.values_of_inputs formed isStage succeeded
    cases answer : stage.answer setting inputs with
    | ok result => exact RunSetting.value?_eq_some_iff.mpr ⟨stage, inputs, isStage, values, answer⟩
    | error error => exact ⟨id, .refl, stage, inputs, isStage, values, answer⟩

/-- A task that starts has seen all of its inputs finish. -/
theorem inputs_have_finished (consistent : Consistent setting steps state)
    (formed : setting.graph.WellFormed) (isStage : setting.graph.stage? id = some stage)
    {inputs : List Result} (succeeded : state.inputs? stage = some (.ok inputs)) {input : Nat}
    (reads : setting.graph.Reads id input) : ⟨.finish, input⟩ ∈ steps := by
  rw [Graph.Reads, formed.inputsOf_eq isStage] at reads
  obtain ⟨result, _, published⟩ := input_succeeded succeeded reads
  have history := consistent.history input
  rw [outcome?_eq_some_iff.mp published] at history
  apply TaskStep.mem_takenBy.mp
  simp [history.of_result]

/-- A task that asks for a permit or takes one has the results of its inputs. -/
theorem supplies_new (consistent : Consistent setting steps state)
    (isStage : setting.graph.stage? id = some stage) {action : TaskAction} {old new : Progress}
    {queue : List Nat} {received : List Query}
    (move : Move setting state stage id action old new queue received)
    (active : new = .queued ∨ ∃ due, new = .running due) :
    ∃ inputs, state.inputs? stage = some (.ok inputs) := by
  cases move with
  | skip => simp at active
  | enqueue succeeded => exact ⟨_, succeeded⟩
  | finish => simp at active
  | start allowed =>
    have queued := (consistent.queued id).mp (mem_queue_of_startable allowed)
    exact consistent.supplied id stage isStage (.inl queued)

theorem step (consistent : Consistent setting steps state) (formed : setting.graph.WellFormed)
    {action : TaskAction} (taken : state.after? setting ⟨action, id⟩ = some next) :
    Consistent setting (steps ++ [⟨action, id⟩]) next := by
  obtain ⟨stage, old, new, found, ⟨queue, received, move, _, sameReceived⟩, moved, kept⟩ :=
    after?_move taken
  have isStage : setting.graph.stage? id = some stage := consistent.task_stage formed found
  have orderly := consistent.orderly.after taken
  refine ⟨kept.trans consistent.stages, orderly.queued, orderly.distinct, ?_, ?_, ?_, ?_,
    sameReceived ▸ move.received_eq consistent isStage⟩
  · intro other reader isReader active
    rw [moved] at active
    by_cases same : other = id
    · subst same
      obtain rfl : stage = reader := Option.some.inj (isStage.symm.trans isReader)
      obtain ⟨inputs, succeeded⟩ := consistent.supplies_new isStage move (by simpa using active)
      exact ⟨inputs, consistent.orderly.inputs?_after taken succeeded⟩
    · rw [if_neg same] at active
      obtain ⟨inputs, succeeded⟩ := consistent.supplied other reader isReader active
      exact ⟨inputs, consistent.orderly.inputs?_after taken succeeded⟩
  · intro other outcome published
    rw [outcome?_eq_some_iff, moved] at published
    by_cases same : other = id
    · subst same
      rw [if_pos rfl, Option.some.injEq] at published
      subst published
      exact consistent.explains_new formed isStage move
    · rw [if_neg same] at published
      exact consistent.explained other outcome (outcome?_eq_some_iff.mpr published)
  · intro other
    rw [moved, TaskStep.takenBy_concat]
    by_cases same : other = id
    · subst same
      simpa using move.history consistent found
    · rw [if_neg same, if_neg (Ne.symm same)]
      exact consistent.history other
  · apply consistent.inputsFinished.concat
    rintro rfl input reads
    obtain ⟨inputs, succeeded⟩ := consistent.supplies_new isStage move (by cases move; simp)
    exact consistent.inputs_have_finished formed isStage succeeded reads

end Consistent

/-- Every execution of a well-formed graph is consistent. -/
theorem Execution.consistent {setting : RunSetting} (formed : setting.graph.WellFormed)
    {steps : List TaskStep} {state : RunState} (execution : Execution setting steps state) :
    Consistent setting steps state := by
  induction execution with
  | initial => exact .initial setting
  | step _ taken ih => exact ih.step formed taken
  | pass time _ ih =>
    exact ⟨ih.stages, ih.queued, ih.distinct, ih.supplied, ih.explained, ih.history,
      ih.inputsFinished, ih.received⟩

end MetricEngine
