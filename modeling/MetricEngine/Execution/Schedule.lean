import MetricEngine.Execution.Run

/-!
The schedule of a run over virtual time. Tasks that can take a step take turns in the order in which
they became ready, and time moves on only when none can. A run ends when its root has published, or
at a deadline.
-/
namespace MetricEngine

namespace RunState

/-- The readers of a stage that still wait for inputs. -/
def waitingReaders (state : RunState) (id : Nat) : List Nat :=
  (state.tasks.filter fun task => task.isWaiting && task.stage.inputs.contains id).map (·.stage.id)

def isFinished (state : RunState) (id : Nat) : Bool :=
  (state.outcome? id).isSome

/-- A task takes all the steps that it can take at this time. -/
def poll (setting : RunSetting) (state : RunState) (id : Nat) : RunState :=
  let state := (state.collect? id).getD state
  let state := (state.start? setting id).getD state
  match (state.task? id).bind (·.due?) with
  | some due => if due ≤ state.now then (state.finish? setting id).getD state else state
  | none => state

/-- Those to whom it matters that a task has finished: the ones a permit is free for, and the readers
of the result. -/
def woken (setting : RunSetting) (state : RunState) (id : Nat) : List Nat :=
  (state.startable setting ++ state.waitingReaders id).eraseDups

/-- Lets ready tasks take turns until none is left. -/
def settle (setting : RunSetting) : Nat → List Nat → RunState → RunState
  | fuel + 1, id :: ready, state =>
    let next := state.poll setting id
    let newly :=
      if !state.isFinished id && next.isFinished id then
        (next.woken setting id).filter fun other => !ready.contains other
      else []
    settle setting fuel (ready ++ newly) next
  | _, _, state => state

/-- Enough turns: each ready task takes one, and a task that finishes makes every other one ready at
most once. -/
def turns (state : RunState) (ready : List Nat) : Nat :=
  ready.length + state.tasks.length * state.tasks.countP fun task => task.outcome?.isNone

/-- The next time at which a running task is due. -/
def nextDue? (state : RunState) : Option Nat :=
  (state.tasks.filterMap (·.due?)).min?

def dueAt (state : RunState) (time : Nat) : List Nat :=
  (state.tasks.filter fun task => task.due? = some time).map (·.stage.id)

end RunState

/-- How a run ended: with the outcome of its root, or at its deadline. -/
inductive RunEnd where
  | published (outcome : StageOutcome)
  | timedOut

/-- The end of a run with the state at that time. -/
structure RunReport where
  finish : RunEnd
  state : RunState

namespace RunReport

def ofState (setting : RunSetting) (state : RunState) : RunReport :=
  match state.outcome? setting.graph.root with
  | some (.ok result) =>
    ⟨.published (.ok (result.withWarnings setting.graph.warnings)), state⟩
  | some (.error error) => ⟨.published (.error error), state⟩
  | none => ⟨.published (.error .stopped), state⟩

end RunReport

namespace RunState

/-- Goes from one time to the next. Nothing happens at the deadline any more. -/
def drive (setting : RunSetting) (deadline : Option Nat) :
    Nat → List Nat → RunState → RunReport
  | 0, _, state => .ofState setting state
  | instants + 1, ready, state =>
    match deadline.filter (· ≤ state.now) with
    | some time => ⟨.timedOut, { state with now := time }⟩
    | none =>
      let state := state.settle setting (state.turns ready) ready
      if state.isFinished setting.graph.root then .ofState setting state
      else
        match state.nextDue? with
        | some time =>
          drive setting deadline instants (state.dueAt time) { state with now := time }
        | none => .ofState setting state

/-- Runs a graph. There are no more times than tasks besides the first one. -/
def run (setting : RunSetting) (deadline : Option Nat) : RunReport :=
  let state := initial setting.graph
  state.drive setting deadline (state.tasks.length + 1) setting.graph.order

end RunState
end MetricEngine
