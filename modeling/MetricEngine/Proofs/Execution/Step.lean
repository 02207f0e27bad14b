import MetricEngine.Proofs.Execution.Evaluation

/-!
Single steps of tasks, seen through the progress of each task. A step moves one task on, and
`Move` lists all that it can do: a task may be skipped because an input failed, join the queue, take a
permit, or publish the answer of its operation.
-/
namespace MetricEngine

inductive TaskAction where
  | collect
  | start
  | finish
deriving DecidableEq

structure TaskStep where
  action : TaskAction
  task : Nat
deriving DecidableEq

namespace RunState

/-- The state after a step, if the task can take it. -/
def after? (setting : RunSetting) (state : RunState) (step : TaskStep) : Option RunState :=
  match step.action with
  | .collect => state.collect? step.task
  | .start => state.start? setting step.task
  | .finish => state.finish? setting step.task

/-- How far the task of a stage has come. -/
def progress? (state : RunState) (id : Nat) : Option Progress :=
  (state.task? id).map (·.progress)

variable {setting : RunSetting} {state next : RunState} {id : Nat} {stage : Stage}

theorem task?_progress {progress : Progress} (found : state.task? id = some ⟨stage, progress⟩) :
    state.progress? id = some progress := by
  simp [progress?, found]

theorem outcome?_eq_some_iff {outcome : StageOutcome} :
    state.outcome? id = some outcome ↔ state.progress? id = some (.finished outcome) := by
  simp only [outcome?, progress?]
  cases state.task? id with
  | none => simp
  | some task => cases progress : task.progress <;> simp [Task.outcome?, progress]

theorem due?_eq_some_iff {due : Nat} :
    (state.task? id).bind (·.due?) = some due ↔ state.progress? id = some (.running due) := by
  simp only [progress?]
  cases state.task? id with
  | none => simp
  | some task => cases progress : task.progress <;> simp [Task.due?, progress]

theorem outcome?_congr {other : RunState} (same : other.progress? id = state.progress? id) :
    other.outcome? id = state.outcome? id := by
  ext outcome
  simp [outcome?_eq_some_iff, same]

theorem setProgress_stages (progress : Progress) :
    (state.setProgress id progress).tasks.map (·.stage) = state.tasks.map (·.stage) := by
  simp only [setProgress, List.map_map]
  refine List.map_congr_left fun task _ => ?_
  simp only [Function.comp]
  split <;> rfl

theorem progress?_setProgress (progress : Progress) (other : Nat) :
    (state.setProgress id progress).progress? other =
      if other = id then (state.progress? id).map fun _ => progress else state.progress? other := by
  have keepsStage : ((fun task : Task => decide (task.stage.id = other)) ∘ fun task =>
      if task.stage.id = id then { task with progress } else task) =
      fun task => decide (task.stage.id = other) := by
    funext task
    simp only [Function.comp]
    split <;> rfl
  simp only [progress?, task?, setProgress, List.find?_map, keepsStage, Option.map_map]
  by_cases same : other = id
  · subst same
    rw [if_pos rfl]
    refine Option.map_congr fun task member => ?_
    have := List.find?_some member
    simp_all
  · rw [if_neg same]
    refine Option.map_congr fun task member => ?_
    have := List.find?_some member
    simp_all

/-! The inputs of a task. -/

theorem firstFailure?_mem {inTurn : Bool} {outcomes : List (Option StageOutcome)}
    {error : ExecutionError} (failure : firstFailure? inTurn outcomes = some error) :
    some (.error error) ∈ outcomes := by
  induction outcomes with
  | nil => simp [firstFailure?] at failure
  | cons outcome rest ih =>
    unfold firstFailure? at failure
    split at failure
    next => simp at *
    next heq => obtain ⟨rfl, rfl⟩ := List.cons.inj heq; simp_all
    next heq => obtain ⟨rfl, rfl⟩ := List.cons.inj heq; simp_all
    next heq =>
      obtain ⟨rfl, rfl⟩ := List.cons.inj heq
      cases inTurn <;> simp_all

theorem firstFailure?_of_results (inTurn : Bool) (results : List Result) :
    firstFailure? inTurn (results.map fun result => some (.ok result)) = none := by
  induction results with
  | nil => rfl
  | cons result rest ih => simpa [firstFailure?] using ih

/-- Without a failure, outcomes that are all there are all results. -/
theorem results_of_no_failure {inTurn : Bool} {outcomes : List (Option StageOutcome)}
    (complete : ∀ outcome ∈ outcomes, outcome.isSome)
    (noFailure : firstFailure? inTurn outcomes = none) :
    ∃ results : List Result, outcomes = results.map fun result => some (.ok result) := by
  induction outcomes with
  | nil => exact ⟨[], rfl⟩
  | cons outcome rest ih =>
    match outcome with
    | none => simpa using complete none List.mem_cons_self
    | some (.error error) => simp [firstFailure?] at noFailure
    | some (.ok result) =>
      obtain ⟨results, rfl⟩ := ih (fun other member => complete other (List.mem_cons_of_mem _ member))
        (by simpa [firstFailure?] using noFailure)
      exact ⟨result :: results, rfl⟩

theorem inputs?_eq_ok_iff {inputs : List Result} :
    state.inputs? stage = some (.ok inputs) ↔
      stage.inputs.eraseDups.map state.outcome? = inputs.map fun result => some (.ok result) := by
  constructor
  · intro collected
    simp only [inputs?] at collected
    split at collected
    next => simp at collected
    next =>
      simp only [Option.map_eq_some_iff, Except.ok.injEq, exists_eq_right] at collected
      have results := ListFacts.mapM_eq_some_iff.mp collected
      clear collected
      generalize stage.inputs.eraseDups.map state.outcome? = outcomes at results
      induction outcomes generalizing inputs with
      | nil => cases inputs <;> simp_all
      | cons outcome rest ih =>
        cases inputs with
        | nil => simp at results
        | cons input inputs =>
          obtain ⟨head, tail⟩ := List.cons.inj results
          rw [List.map_cons, ih tail]
          congr 1
          match outcome with
          | none => simp at head
          | some (.error error) => simp [Except.toOption] at head
          | some (.ok result) => simpa [Except.toOption] using head
  · intro results
    simp only [inputs?]
    rw [results, firstFailure?_of_results]
    simp only [Option.map_eq_some_iff, Except.ok.injEq, exists_eq_right]
    rw [ListFacts.mapM_eq_some_iff, List.map_map]
    rfl

theorem input_succeeded {inputs : List Result} (collected : state.inputs? stage = some (.ok inputs))
    {input : Nat} (member : input ∈ stage.inputs) :
    ∃ result ∈ inputs, state.outcome? input = some (.ok result) := by
  have outcomes := inputs?_eq_ok_iff.mp collected
  have : state.outcome? input ∈ stage.inputs.eraseDups.map state.outcome? :=
    List.mem_map_of_mem (List.mem_eraseDups.mpr member)
  rw [outcomes] at this
  obtain ⟨result, found, same⟩ := List.mem_map.mp this
  exact ⟨result, found, same.symm⟩

theorem input_failed {error : ExecutionError} (failed : state.inputs? stage = some (.error error)) :
    ∃ input ∈ stage.inputs, state.outcome? input = some (.error error) := by
  simp only [inputs?] at failed
  split at failed
  next other failure =>
    obtain rfl : other = error := by simpa using failed
    obtain ⟨input, member, same⟩ := List.mem_map.mp (firstFailure?_mem failure)
    exact ⟨input, List.mem_eraseDups.mp member, same⟩
  next => simp at failed

theorem inputs?_isSome (finished : ∀ input ∈ stage.inputs, (state.outcome? input).isSome) :
    (state.inputs? stage).isSome := by
  cases collected : state.inputs? stage with
  | some _ => rfl
  | none =>
    simp only [inputs?] at collected
    split at collected
    next => simp at collected
    next noFailure =>
      have complete : ∀ outcome ∈ stage.inputs.eraseDups.map state.outcome?, outcome.isSome := by
        intro outcome member
        obtain ⟨input, found, rfl⟩ := List.mem_map.mp member
        exact finished input (List.mem_eraseDups.mp found)
      obtain ⟨results, same⟩ := results_of_no_failure complete noFailure
      rw [same, Option.map_eq_none_iff] at collected
      have all : ((results.map fun result => some (Except.ok result)).mapM
          fun outcome : Option StageOutcome => outcome.bind (·.toOption)).isSome := by
        rw [ListFacts.mapM_isSome_iff]
        simp [Except.toOption]
      simp [collected] at all

theorem inputs?_congr {other : RunState}
    (same : ∀ input ∈ stage.inputs, other.outcome? input = state.outcome? input) :
    other.inputs? stage = state.inputs? stage := by
  have outcomes : stage.inputs.eraseDups.map other.outcome? =
      stage.inputs.eraseDups.map state.outcome? :=
    List.map_congr_left fun input member => same input (List.mem_eraseDups.mp member)
  unfold inputs?
  rw [outcomes]

/-! What a step can do. -/

theorem collect?_eq_some (collected : state.collect? id = some next) :
    ∃ stage, state.task? id = some ⟨stage, .waiting⟩ ∧
      ((∃ error, state.inputs? stage = some (.error error) ∧
          next = state.setProgress id (.finished (.error error))) ∨
        ∃ inputs, state.inputs? stage = some (.ok inputs) ∧
          next = { state.setProgress id .queued with queue := state.queue ++ [id] }) := by
  rw [collect?] at collected
  simp only [Option.bind_eq_bind, Option.bind_eq_some_iff] at collected
  obtain ⟨⟨stage, progress⟩, found, collected⟩ := collected
  cases progress with
  | waiting =>
    refine ⟨stage, found, ?_⟩
    obtain ⟨known, inputs, collected⟩ := by
      simpa [Task.isWaiting, Option.bind_eq_some_iff] using collected
    cases known with
    | error error => exact .inl ⟨error, inputs, (Option.some.inj collected).symm⟩
    | ok results => exact .inr ⟨results, inputs, (Option.some.inj collected).symm⟩
  | queued => simp [Task.isWaiting] at collected
  | running due => simp [Task.isWaiting] at collected
  | finished outcome => simp [Task.isWaiting] at collected

theorem start?_eq_some (started : state.start? setting id = some next) :
    ∃ task due, state.task? id = some task ∧ id ∈ state.startable setting ∧
      next = { state.setProgress id (.running due) with
        queue := state.queue.erase id
        received := state.received ++ task.stage.query?.toList } := by
  rw [start?] at started
  simp only [Option.bind_eq_bind, Option.bind_eq_some_iff] at started
  obtain ⟨task, found, started⟩ := started
  split at started
  next => simp at started
  next allowed =>
    simp only [Decidable.not_not] at allowed
    cases work : task.stage.work with
    | select query =>
      refine ⟨task, state.now + (setting.store query).latencyMillis, found, allowed, ?_⟩
      simp [work] at started
      simp [← started, Stage.query?, work, setProgress]
    | aggregate kind operation =>
      refine ⟨task, state.now, found, allowed, ?_⟩
      simp [work] at started
      simp [← started, Stage.query?, work, setProgress]

theorem finish?_eq_some (finished : state.finish? setting id = some next) :
    ∃ stage due inputs, state.task? id = some ⟨stage, .running due⟩ ∧
      state.inputs? stage = some (.ok inputs) ∧
      next = (state.countAnswer setting stage inputs).setProgress id
        (.finished (stage.answer setting inputs)) := by
  rw [finish?] at finished
  simp only [Option.bind_eq_bind, Option.bind_eq_some_iff] at finished
  obtain ⟨⟨stage, progress⟩, found, due, running, known, inputs, finished⟩ := finished
  cases known with
  | error error => simp at finished
  | ok results =>
    cases progress with
    | running time => exact ⟨stage, time, results, found, inputs, (Option.some.inj finished).symm⟩
    | waiting => simp [Task.due?] at running
    | queued => simp [Task.due?] at running
    | finished outcome => simp [Task.due?] at running

theorem mem_queue_of_startable (allowed : id ∈ state.startable setting) : id ∈ state.queue := by
  rw [startable] at allowed
  split at allowed
  · exact allowed
  · exact List.mem_of_mem_take allowed

/-- Counting touches nothing but the counts. -/
theorem countAnswer_eq (setting : RunSetting) (state : RunState) (stage : Stage) (inputs : List Result) :
    ∃ tally, state.countAnswer setting stage inputs = { state with tally } := by
  rw [countAnswer]
  split
  · split
    · exact ⟨_, rfl⟩
    · exact ⟨_, rfl⟩
    · exact ⟨_, rfl⟩
  · split
    · exact ⟨_, rfl⟩
    · exact ⟨_, rfl⟩

/-- What one step does: the progress of the task before and after it, the queue, and the queries that
the store has got. -/
inductive Move (setting : RunSetting) (state : RunState) (stage : Stage) (id : Nat) :
    TaskAction → Progress → Progress → List Nat → List Query → Prop where
  | skip {error} : state.inputs? stage = some (.error error) →
      Move setting state stage id .collect .waiting (.finished (.error error))
        state.queue state.received
  | enqueue {inputs} : state.inputs? stage = some (.ok inputs) →
      Move setting state stage id .collect .waiting .queued (state.queue ++ [id]) state.received
  | start {progress due} : id ∈ state.startable setting →
      Move setting state stage id .start progress (.running due)
        (state.queue.erase id) (state.received ++ stage.query?.toList)
  | finish {inputs due} : state.inputs? stage = some (.ok inputs) →
      Move setting state stage id .finish (.running due) (.finished (stage.answer setting inputs))
        state.queue state.received

/-- A step moves one task on and leaves the progress of all others alone. -/
theorem after?_move {action : TaskAction} (taken : state.after? setting ⟨action, id⟩ = some next) :
    ∃ stage old new, state.task? id = some ⟨stage, old⟩ ∧
      (∃ queue received, Move setting state stage id action old new queue received ∧
        next.queue = queue ∧ next.received = received) ∧
      (∀ other, next.progress? other = if other = id then some new else state.progress? other) ∧
      next.tasks.map (·.stage) = state.tasks.map (·.stage) := by
  have moved : ∀ {stage old} new, state.task? id = some ⟨stage, old⟩ → ∀ other,
      (state.setProgress id new).progress? other =
        if other = id then some new else state.progress? other := by
    intro stage old new found other
    rw [progress?_setProgress, task?_progress found, Option.map_some]
  cases action with
  | collect =>
    obtain ⟨stage, found, ⟨error, failed, rfl⟩ | ⟨inputs, succeeded, rfl⟩⟩ := collect?_eq_some taken
    · exact ⟨stage, _, _, found, ⟨_, _, .skip failed, rfl, rfl⟩, moved _ found, setProgress_stages _⟩
    · exact ⟨stage, _, _, found, ⟨_, _, .enqueue succeeded, rfl, rfl⟩, moved _ found,
        setProgress_stages _⟩
  | start =>
    obtain ⟨⟨stage, old⟩, due, found, allowed, rfl⟩ := start?_eq_some taken
    exact ⟨stage, old, _, found, ⟨_, _, .start allowed, rfl, rfl⟩, moved _ found,
      setProgress_stages _⟩
  | finish =>
    obtain ⟨stage, due, inputs, found, succeeded, rfl⟩ := finish?_eq_some taken
    obtain ⟨tally, counted⟩ := countAnswer_eq setting state stage inputs
    rw [counted]
    exact ⟨stage, _, _, found, ⟨_, _, .finish succeeded, rfl, rfl⟩, moved _ found,
      setProgress_stages _⟩

/-! When a task can take a step. -/

theorem task?_of_progress {progress : Progress} (found : state.progress? id = some progress) :
    ∃ stage, state.task? id = some ⟨stage, progress⟩ := by
  obtain ⟨task, found, same⟩ := Option.map_eq_some_iff.mp found
  exact ⟨task.stage, by rw [found, ← same]⟩

theorem can_collect (found : state.task? id = some ⟨stage, .waiting⟩)
    (known : (state.inputs? stage).isSome) : ∃ next, state.collect? id = some next := by
  obtain ⟨inputs, known⟩ := Option.isSome_iff_exists.mp known
  cases inputs with
  | error error => exact ⟨_, by simp [collect?, found, Task.isWaiting, known]; rfl⟩
  | ok results => exact ⟨_, by simp [collect?, found, Task.isWaiting, known]; rfl⟩

theorem can_start {task : Task} (found : state.task? id = some task)
    (allowed : id ∈ state.startable setting) : ∃ next, state.start? setting id = some next := by
  cases work : task.stage.work with
  | select query => exact ⟨_, by simp [start?, found, allowed, work]; rfl⟩
  | aggregate kind operation => exact ⟨_, by simp [start?, found, allowed, work]; rfl⟩

theorem can_finish {due : Nat} {inputs : List Result}
    (found : state.task? id = some ⟨stage, .running due⟩)
    (known : state.inputs? stage = some (.ok inputs)) :
    ∃ next, state.finish? setting id = some next :=
  ⟨_, by simp [finish?, found, Task.due?, known]; rfl⟩

end RunState
end MetricEngine
