import MetricEngine.Program.Graph
import MetricEngine.Program.Spec

/-!
Building graphs from programs, one stage per specification. A liftable aggregator whose only input is
a select that nothing else has aggregated is lifted: its stage is a copy of the select that asks the
store to aggregate as well.
-/
namespace MetricEngine

/-- What a program does not state. A planner that does not lift gives every aggregator a stage of its
own. -/
structure Planner where
  defaults : PlanDefaults
  lifting : Bool := true

/-- The stages built so far and what later specifications depend on. -/
structure Draft where
  stages : Array Stage
  bindings : List (String × Nat)
  /-- The range of the last select, which later selects take over. -/
  range : Option TimeRange
  /-- Selects that were aggregated already and cannot be lifted into. -/
  consumed : List Nat
  /-- The aggregators lifted so far. -/
  lifted : List AggregatorKind

namespace Draft

def empty : Draft := ⟨#[], [], none, [], []⟩

/-- The number of the stage built last. -/
def last? (draft : Draft) : Option Nat :=
  if draft.stages.isEmpty then none else some draft.stages.size

def stage? (draft : Draft) (id : Nat) : Option Stage :=
  (Graph.mk draft.stages id).stage? id

def lookup? (draft : Draft) (name : String) : Option Nat :=
  (draft.bindings.find? (·.1 = name)).map (·.2)

/-- Appends a stage under the next number. -/
def push (draft : Draft) (spec : StageSpec) (work : StageWork) (inputs : List Nat)
    (arguments : Arguments) (liftedFrom : Option Nat) : Draft :=
  { draft with
    stages := draft.stages.push {
      id := draft.stages.size + 1
      name := spec.binding
      work := work
      inputs := inputs
      unknownArgs := arguments.unknown
      liftedFrom := liftedFrom } }

/-- The stages that an aggregate reads: those it names, or the previous one. -/
def resolve (draft : Draft) (spec : StageSpec) : Except BuildError (List Nat) :=
  match spec.inputs with
  | some names => names.mapM fun name =>
    match draft.lookup? name with
    | some id => .ok id
    | none => .error (.undefinedStage name)
  | none => .ok draft.last?.toList

/-- The select, with its query, that an aggregator of some kind can be lifted into. -/
def liftable? (draft : Draft) (kind : AggregatorKind) (inputs : List Nat) : Option (Nat × Query) :=
  match inputs with
  | [only] =>
    if kind.isLiftable && !draft.consumed.contains only then
      ((draft.stage? only).bind Stage.query?).map (only, ·)
    else none
  | _ => none

/-- Binds the name of a specification to the stage built for it. -/
def bind (draft : Draft) (spec : StageSpec) : Except BuildError Draft :=
  match spec.binding with
  | none => .ok draft
  | some name =>
    if (draft.lookup? name).isSome then .error (.duplicateStage name)
    else .ok { draft with bindings := (name, draft.stages.size) :: draft.bindings }

end Draft

/-- The graph of a program or the reason why there is none, and what was lifted up to there. -/
structure Plan where
  outcome : Except BuildError Graph
  lifted : List AggregatorKind

namespace Planner

def readSelection (metric : String) : ArgumentReader Metric := do
  let tags ← ArgumentReader.tagFilter "tags"
  let groupBy ← ArgumentReader.strings "group_by"
  return ⟨metric, tags, groupBy, []⟩

/-- A select takes the range that it states, that of the select before it, or the default one. -/
def addSelect (planner : Planner) (now : Instant) (draft : Draft) (spec : StageSpec) :
    Except BuildError Draft := do
  if spec.inputs.isSome then throw (.invalidArgument "dependencies" .selectWithInputs)
  let (metric, arguments) := (readSelection spec.operation).on spec.args
  let metric ← metric
  let range := (spec.range.or draft.range).getD (.endingAt now planner.defaults.lookback)
  return { draft.push spec (.select ⟨range, [metric]⟩) [] arguments none with range := some range }

/-- Replaces a select by one whose query runs an aggregator too. -/
def lift (planner : Planner) (draft : Draft) (spec : StageSpec) (kind : AggregatorKind)
    (select : Nat) (query : Query) : Except BuildError Draft := do
  let (aggregation, arguments) :=
    (Aggregation.read kind planner.defaults.sampling).on spec.args
  let query := query.withAggregator (← aggregation).toAggregator
  let draft := draft.push spec (.select query) [] arguments (some select)
  return { draft with
    consumed := select :: draft.consumed
    lifted := draft.lifted ++ [kind] }

/-- Gives an aggregator a stage of its own, which uses up the selects it reads. -/
def addOwnStage (planner : Planner) (draft : Draft) (spec : StageSpec) (kind : AggregatorKind)
    (inputs : List Nat) : Except BuildError Draft := do
  let (operation, arguments) := (Operation.read kind planner.defaults).on spec.args
  let work := StageWork.aggregate kind (← operation)
  let selects := inputs.filter fun id => ((draft.stage? id).map Stage.isSelect).getD false
  return { draft.push spec work inputs arguments none with consumed := selects ++ draft.consumed }

def addAggregate (planner : Planner) (draft : Draft) (spec : StageSpec) :
    Except BuildError Draft := do
  let inputs ← draft.resolve spec
  match AggregatorKind.ofName? spec.operation with
  | none => throw (.unknownAggregator spec.operation)
  | some kind =>
    if inputs.isEmpty then throw (.noInput kind.name)
    match if planner.lifting then draft.liftable? kind inputs else none with
    | some (select, query) => planner.lift draft spec kind select query
    | none => planner.addOwnStage draft spec kind inputs

def addStage (planner : Planner) (now : Instant) (draft : Draft) (spec : StageSpec) :
    Except BuildError Draft :=
  match spec.kind with
  | .select => planner.addSelect now draft spec
  | .aggregate => planner.addAggregate draft spec

/-- Adds the stages of specifications until one fails. -/
def planFrom (planner : Planner) (now : Instant) (draft : Draft) : List StageSpec → Plan
  | [] =>
    match draft.last? with
    | some root => ⟨.ok ⟨draft.stages, root⟩, draft.lifted⟩
    | none => ⟨.error .emptyProgram, draft.lifted⟩
  | spec :: rest =>
    match planner.addStage now draft spec with
    | .error error => ⟨.error error, draft.lifted⟩
    | .ok added =>
      match added.bind spec with
      | .error error => ⟨.error error, added.lifted⟩
      | .ok bound => planner.planFrom now bound rest

def plan (planner : Planner) (now : Instant) (program : List StageSpec) : Plan :=
  planner.planFrom now .empty program

def build (planner : Planner) (now : Instant) (program : List StageSpec) : Except BuildError Graph :=
  (planner.plan now program).outcome

end Planner
end MetricEngine
