import MetricEngine.Execution.Error
import MetricEngine.Execution.Tally
import MetricEngine.Program.Graph
import MetricEngine.Store.Backend

/-!
Runs of a graph. Each stage is a task: it waits for its inputs, queues for a permit, runs, and
publishes one outcome. A task whose inputs have failed publishes the failure without running. The
functions of this module are the single steps of a task; an execution is a sequence of such steps.
-/
namespace MetricEngine

abbrev StageOutcome := Except ExecutionError Result

/-- How far a task has come. -/
inductive Progress where
  | waiting
  | queued
  /-- Holds a permit until the given time, in milliseconds since the run began. -/
  | running (due : Nat)
  | finished (outcome : StageOutcome)

structure Task where
  stage : Stage
  progress : Progress

namespace Task

def outcome? (task : Task) : Option StageOutcome :=
  match task.progress with
  | .finished outcome => some outcome
  | _ => none

def isWaiting (task : Task) : Bool :=
  match task.progress with
  | .waiting => true
  | _ => false

def due? (task : Task) : Option Nat :=
  match task.progress with
  | .running due => some due
  | _ => none

end Task

/-- What a run depends on and does not change. -/
structure RunSetting where
  graph : Graph
  /-- One instant for the whole run. Alerts read the clock when they run, so a clock that moves on while
  stages wait is not modelled. -/
  clock : Instant
  /-- The reply of the store to each query. -/
  store : Query → StoreReply
  /-- The number of tasks that may run at once; zero means no limit. An engine breaks down before any task
  exists if it is configured for more than `Engine.mostPermits`. -/
  limit : Nat

structure RunState where
  /-- Milliseconds since the run began. -/
  now : Nat
  /-- The tasks of all stages that run, inputs before their readers. -/
  tasks : List Task
  /-- Those that wait for a permit, in the order of their requests. -/
  queue : List Nat
  /-- The queries that the store got, in the order of their arrival. -/
  received : List Query
  tally : Tally

namespace RunState

def initial (graph : Graph) : RunState :=
  ⟨0, graph.stages.map fun stage => ⟨stage, .waiting⟩, [], [], .empty⟩

def task? (state : RunState) (id : Nat) : Option Task :=
  state.tasks.find? (·.stage.id = id)

def outcome? (state : RunState) (id : Nat) : Option StageOutcome :=
  (state.task? id).bind (·.outcome?)

def setProgress (state : RunState) (id : Nat) (progress : Progress) : RunState :=
  { state with
    tasks := state.tasks.map fun task =>
      if task.stage.id = id then { task with progress } else task }

def count (state : RunState) (counter : Counter) (amount : Nat) : RunState :=
  { state with tally := if amount = 0 then state.tally else state.tally.add counter amount }

/-- Counts one run of an operation. -/
def countRun (state : RunState) (operation : String) (success : Bool) : RunState :=
  (state.count (.stageRuns operation success) 1).count (.stageDurations operation) 1

/-- A task with more inputs than this looks at one after another and not at all of them together. -/
def mostWatched : Nat := 30

/-- The first failure in the order of the inputs; one behind a missing outcome does not count if the
inputs are looked at one after another. -/
def firstFailure? (inTurn : Bool) : List (Option StageOutcome) → Option ExecutionError
  | [] => none
  | some (.error error) :: _ => some error
  | some (.ok _) :: rest => firstFailure? inTurn rest
  | none :: rest => if inTurn then none else firstFailure? inTurn rest

/-- What a task learns of its inputs: the first failure, or all results, each input once. Nothing is
known while an input is missing and no failure shows. -/
def inputs? (state : RunState) (stage : Stage) : Option (Except ExecutionError (List Result)) :=
  let outcomes := stage.inputs.eraseDups.map state.outcome?
  match firstFailure? (mostWatched < stage.inputs.length) outcomes with
  | some error => some (.error error)
  | none =>
    let result? : Option StageOutcome → Option Result := fun outcome => outcome.bind (·.toOption)
    (outcomes.mapM result?).map .ok

def runningCount (state : RunState) : Nat :=
  state.tasks.countP fun task => task.due?.isSome

/-- Those in the queue for whom there is a permit. -/
def startable (setting : RunSetting) (state : RunState) : List Nat :=
  if setting.limit = 0 then state.queue
  else state.queue.take (setting.limit - state.runningCount)

/-- A waiting task takes in its inputs: it publishes a failure or asks for a permit. -/
def collect? (state : RunState) (id : Nat) : Option RunState := do
  let task ← state.task? id
  if !task.isWaiting then none
  match ← state.inputs? task.stage with
  | .error error => return state.setProgress id (.finished (.error error))
  | .ok _ => return { state.setProgress id .queued with queue := state.queue ++ [id] }

/-- A queued task takes a permit. A select sends its query, which takes the latency of the store. -/
def start? (setting : RunSetting) (state : RunState) (id : Nat) : Option RunState := do
  let task ← state.task? id
  if id ∉ state.startable setting then none
  let state := { state with queue := state.queue.erase id }
  match task.stage.work with
  | .select query =>
    let latency := (setting.store query).latencyMillis
    return { state.setProgress id (.running (state.now + latency)) with
      received := state.received ++ [query] }
  | .aggregate _ _ => return state.setProgress id (.running state.now)

/-- The result of a select: the answer of the store with every series in normal form. -/
def selected (response : Response) : Result :=
  (Result.ofQueries (response.queries.map fun query =>
    query.mapSeries fun series => series.withValues series.values)).withErrors response.errors

end RunState

namespace Stage

/-- What the operation of a stage makes of the results of its inputs. A stage whose store or operation
breaks down stops without a result. -/
def answer (setting : RunSetting) (stage : Stage) (inputs : List Result) : StageOutcome :=
  match stage.work with
  | .select query =>
    match (setting.store query).outcome with
    | .answered response => .ok (RunState.selected response)
    | .failed error => .error ((ExecutionError.ofStore error).atStage stage.id "select")
    | .broken => .error .stopped
  | .aggregate _ operation =>
    match operation.result? setting.clock inputs with
    | some result => .ok result
    | none => .error .stopped

end Stage

namespace RunState

/-- The counts of one run of the operation of a stage, which makes none if it breaks down. -/
def countAnswer (setting : RunSetting) (state : RunState) (stage : Stage) (inputs : List Result) :
    RunState :=
  match stage.work with
  | .select query =>
    match (setting.store query).outcome with
    | .answered _ => (state.count (.storeQueries true) 1).countRun "select" true
    | .failed _ => (state.count (.storeQueries false) 1).countRun "select" false
    | .broken => state
  | .aggregate _ operation =>
    match operation.result? setting.clock inputs with
    | some _ =>
      (state.count (.alertTriggers operation.name)
        (operation.newTriggers setting.clock inputs)).countRun operation.name true
    | none => state

/-- A running task publishes its outcome and gives its permit back. Its inputs have succeeded before
it asked for the permit. -/
def finish? (setting : RunSetting) (state : RunState) (id : Nat) : Option RunState := do
  let task ← state.task? id
  let _ ← task.due?
  match ← state.inputs? task.stage with
  | .error _ => none
  | .ok inputs =>
    let state := state.countAnswer setting task.stage inputs
    return state.setProgress id (.finished (task.stage.answer setting inputs))

end RunState
end MetricEngine
