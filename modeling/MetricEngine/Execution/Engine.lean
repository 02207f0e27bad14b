import MetricEngine.Execution.Schedule
import MetricEngine.Program.Planner
import MetricEngine.Alert.Summary

/-!
The engine: a valid configuration, a store and a clock, with the counts of everything built and run
and the queries that the store has got.
-/
namespace MetricEngine

structure Engine where
  config : EngineConfig
  backend : Backend
  clock : Instant
  tally : Tally
  received : List Query

namespace Engine

/-- An engine is only made for a valid configuration. -/
def make (config : EngineConfig) (backend : Backend) (clock : Instant) :
    Except ConfigError Engine :=
  config.validate.map fun _ => ⟨config, backend, clock, .empty, []⟩

/-- Counts unless the configuration turns counting off. The switch and the counters belong to a process, which
is modelled with one engine: a second one would set the switch for both. -/
def record (engine : Engine) (tally : Tally) : Engine :=
  if engine.config.monitoring.metricsEnabled then
    { engine with tally := engine.tally.append tally }
  else engine

def planner (engine : Engine) : Planner where
  defaults := engine.config.defaults

/-- The counts of a build: its outcome, and every lift that was made before it ended. -/
def buildTally (plan : Plan) : Tally :=
  ⟨plan.lifted.map (fun kind => (.lifted kind, 1)) ++ [(.graphBuilds plan.outcome.isOk, 1)]⟩

def build (engine : Engine) (program : List StageSpec) : Except BuildError Graph × Engine :=
  let plan := engine.planner.plan engine.clock program
  (plan.outcome, engine.record (buildTally plan))

def setting (engine : Engine) (graph : Graph) : RunSetting :=
  ⟨graph, engine.clock, engine.backend.reply, engine.config.execution.maxConcurrentStages⟩

/-- The most permits that can be made for one run, an eighth of the largest machine word. -/
def mostPermits : Nat := (UInt64.size - 1) / 8

/-- Runs a graph, which breaks down at once if the configuration asks for too many permits. -/
def execute? (engine : Engine) (graph : Graph) (deadline : Option Nat) :
    Option (RunReport × Engine) := do
  if mostPermits < engine.config.execution.maxConcurrentStages then none
  let report := RunState.run (engine.setting graph) deadline
  let engine := engine.record report.state.tally
  return (report, { engine with received := engine.received ++ report.state.received })

/-- What a caller of `run` gets: a result or an error, the number of queries that the store got, and
the time in milliseconds that it took. -/
structure RunAnswer where
  outcome : Except EngineError Result
  storeQueries : Nat
  elapsedMillis : Nat

/-- Builds and runs a program, with a deadline in milliseconds if there is one. -/
def run? (engine : Engine) (program : List StageSpec) (deadline : Option Nat) :
    Option (RunAnswer × Engine) :=
  match engine.build program with
  | (.error error, engine) => some (⟨.error (.build error), 0, 0⟩, engine)
  | (.ok graph, engine) => do
    let (report, engine) ← engine.execute? graph deadline
    let outcome := match report.finish with
      | .published (.ok result) => .ok result
      | .published (.error error) => .error (.execution error)
      | .timedOut => .error (.timeout (1000000 * report.state.now))
    return (⟨outcome, report.state.received.length, report.state.now⟩, engine)

/-- The deadline that the configuration states, in milliseconds. -/
def configuredDeadline (engine : Engine) : Nat :=
  1000 * engine.config.execution.timeoutSeconds

/-- Sends one query to the store, past all stages. -/
def query (engine : Engine) (query : Query) : StoreOutcome × Engine :=
  ((engine.backend.reply query).outcome, { engine with received := engine.received ++ [query] })

/-- Moves the clock; there is no instant outside the range. -/
def advance? (engine : Engine) (span : Span) : Option Engine :=
  (engine.clock.add? span).map fun clock => { engine with clock }

/-- Changes the store if it is the one in memory. -/
def updateMemory (engine : Engine) (change : MemoryStore → MemoryStore) : Engine :=
  match engine.backend with
  | .memory store => { engine with backend := .memory (change store) }
  | .scripted _ => engine

end Engine
end MetricEngine
