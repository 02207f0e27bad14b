import MetricEngine.Program.Operation

/-!
Graphs of stages. A stage names its inputs by their numbers, which are smaller than its own, so that
graphs have no cycles. The stages that run are those that the root can reach.
-/
namespace MetricEngine

inductive StageWork where
  | select (query : Query)
  | aggregate (kind : AggregatorKind) (operation : Operation)

structure Stage where
  id : Nat
  name : Option String
  work : StageWork
  inputs : List Nat
  unknownArgs : List String
  /-- The select whose query this stage extends. -/
  liftedFrom : Option Nat

namespace Stage

def operationName (stage : Stage) : String :=
  match stage.work with
  | .select _ => "select"
  | .aggregate _ operation => operation.name

def query? (stage : Stage) : Option Query :=
  match stage.work with
  | .select query => some query
  | .aggregate _ _ => none

def isSelect (stage : Stage) : Bool :=
  stage.query?.isSome

def aggregator? (stage : Stage) : Option AggregatorKind :=
  match stage.work with
  | .select _ => none
  | .aggregate kind _ => some kind

def label (stage : Stage) : String :=
  match stage.name with
  | some name => stage.operationName ++ " '" ++ name ++ "'"
  | none => stage.operationName

end Stage

structure Graph where
  /-- Every stage of the program; the one with number `n` stands at place `n - 1`. -/
  all : Array Stage
  root : Nat

namespace Graph

/-- Stages are numbered from one. -/
def stage? (graph : Graph) (id : Nat) : Option Stage :=
  match id with
  | 0 => none
  | index + 1 => graph.all[index]?

/-- The inputs of a stage that have smaller numbers, as all have in a graph that was built. -/
def inputsOf (graph : Graph) (id : Nat) : List Nat :=
  ((graph.stage? id).map (·.inputs)).getD [] |>.filter (· < id)

/-- Adds a stage behind the stages that it reads, each once; `depth` bounds the length of a path. -/
def visit (graph : Graph) : Nat → List Nat → Nat → List Nat
  | 0, visited, _ => visited
  | depth + 1, visited, id =>
    if id ∈ visited then visited
    else (graph.inputsOf id).foldl (graph.visit depth) visited ++ [id]

/-- The numbers of the stages that run, inputs before their readers. -/
def order (graph : Graph) : List Nat :=
  graph.visit graph.root [] graph.root

/-- The stages that run, inputs before their readers. -/
def stages (graph : Graph) : List Stage :=
  graph.order.filterMap graph.stage?

/-- A stage and the selects that it was lifted from, up to the first one already seen. -/
def ancestry (graph : Graph) : Nat → List Nat → Option Nat → List Nat
  | depth + 1, seen, some id =>
    if id ∈ seen then []
    else
      match graph.stage? id with
      | some stage => id :: graph.ancestry depth (id :: seen) stage.liftedFrom
      | none => []
  | _, _, _ => []

/-- The numbers of the stages that run and of the selects they were lifted from, each once. -/
def reported (graph : Graph) : List Nat :=
  graph.order.foldl (fun seen id => seen ++ graph.ancestry graph.root seen (some id)) []

/-- A warning for each unknown argument of a stage that runs or of a select that one was lifted from. -/
def warnings (graph : Graph) : List String :=
  (graph.reported.filterMap graph.stage?).flatMap fun stage =>
    stage.unknownArgs.map fun key => "Unknown argument " ++ key

end Graph
end MetricEngine
