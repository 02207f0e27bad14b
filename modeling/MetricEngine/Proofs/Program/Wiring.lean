import MetricEngine.Proofs.Program.Acceptance

/-!
How the stages of a program are connected. Which stages a stage uses follows from the names and the order
of the specifications alone; a planner that lifts only decides whether it reads them or extends one. So the
graph without lifting has the same stages, and reads what the other one reads or extends.
-/
namespace MetricEngine

/-- How a stage is connected for a specification behind those of a draft. -/
inductive Stage.Wired (lifting : Bool) (draft : Draft) (spec : StageSpec) : Stage → Prop where
  | select {id name query unknown} : spec.kind = .select →
      Wired lifting draft spec ⟨id, name, .select query, [], unknown, none⟩
  | own {id name kind operation inputs unknown} : spec.kind = .aggregate →
      draft.resolve spec = .ok inputs →
      Wired lifting draft spec ⟨id, name, .aggregate kind operation, inputs, unknown, none⟩
  | lifted {id name query unknown select} : spec.kind = .aggregate → lifting →
      draft.resolve spec = .ok [select] →
      Wired lifting draft spec ⟨id, name, .select query, [], unknown, some select⟩

/-- A stage beside the one in its place when nothing is lifted: that one reads what the first uses, and is
a select only if the first is one by its own specification. -/
structure Stage.Unfolds (stage other : Stage) : Prop where
  inputs : other.inputs = stage.uses
  select : other.isSelect ↔ stage.isSelect ∧ stage.liftedFrom = none

theorem Stage.Wired.unfolds {lifting : Bool} {draft plain : Draft} {spec : StageSpec}
    {stage other : Stage} (wired : stage.Wired lifting draft spec)
    (plainly : other.Wired false plain spec) (same : draft.resolve spec = plain.resolve spec) :
    stage.Unfolds other := by
  cases wired with
  | select kind =>
    cases plainly with
    | select => exact ⟨rfl, by simp [isSelect, query?]⟩
    | own aggregate => simp [kind] at aggregate
    | lifted _ lifting => simp at lifting
  | own kind resolved =>
    cases plainly with
    | select select => simp [kind] at select
    | own _ resolved' =>
      obtain rfl := Except.ok.inj (resolved.symm.trans (same.trans resolved'))
      exact ⟨by simp [uses], by simp [isSelect, query?]⟩
    | lifted _ lifting => simp at lifting
  | lifted kind _ resolved =>
    cases plainly with
    | select select => simp [kind] at select
    | own _ resolved' =>
      obtain rfl := Except.ok.inj (resolved.symm.trans (same.trans resolved'))
      exact ⟨by simp [uses], by simp [isSelect, query?]⟩
    | lifted _ lifting => simp at lifting

/-- Drafts of one program, the second one without lifting. -/
structure Draft.Unfolds (draft plain : Draft) : Prop where
  size : plain.stages.size = draft.stages.size
  bindings : plain.bindings = draft.bindings
  stages : ∀ {id stage}, draft.stage? id = some stage →
    ∃ other, plain.stage? id = some other ∧ stage.Unfolds other

/-- Graphs of one program, the second one without lifting. -/
structure Graph.Unfolds (graph plain : Graph) : Prop where
  root : plain.root = graph.root
  size : plain.all.size = graph.all.size
  stages : ∀ {id stage}, graph.stage? id = some stage →
    ∃ other, plain.stage? id = some other ∧ stage.Unfolds other

namespace Draft.Unfolds
variable {draft plain added plainly : Draft} {spec : StageSpec}

theorem empty : Draft.empty.Unfolds .empty where
  size := rfl
  bindings := rfl
  stages {id _} found := by cases id <;> simp [Draft.empty, stage?, Graph.stage?] at found

theorem last?_eq (unfolds : draft.Unfolds plain) : plain.last? = draft.last? := by
  simp only [last?, Array.isEmpty, decide_eq_true_eq, unfolds.size]

theorem resolve_eq (unfolds : draft.Unfolds plain) (spec : StageSpec) :
    draft.resolve spec = plain.resolve spec := by
  simp only [resolve, unfolds.last?_eq, lookup?, unfolds.bindings]

/-- Both drafts get a stage for one specification. -/
theorem push (unfolds : draft.Unfolds plain) {stage other : Stage}
    (stages : added.stages = draft.stages.push stage) (bindings : added.bindings = draft.bindings)
    (stages' : plainly.stages = plain.stages.push other) (bindings' : plainly.bindings = plain.bindings)
    (new : stage.Unfolds other) : added.Unfolds plainly := by
  constructor
  · rw [stages, stages', Array.size_push, Array.size_push, unfolds.size]
  · rw [bindings, bindings', unfolds.bindings]
  · intro id any found
    rcases (stage?_push_iff stages).mp found with ⟨rfl, rfl⟩ | found
    · exact ⟨other, (stage?_push_iff stages').mpr (.inl ⟨by rw [unfolds.size], rfl⟩), new⟩
    · obtain ⟨before, found, same⟩ := unfolds.stages found
      exact ⟨before, (stage?_push_iff stages').mpr (.inr found), same⟩

theorem bind (unfolds : draft.Unfolds plain) (bound : draft.bind spec = .ok added)
    (bound' : plain.bind spec = .ok plainly) : added.Unfolds plainly := by
  unfold Draft.bind at bound bound'
  cases name : spec.binding with
  | none =>
    rw [name] at bound bound'
    obtain rfl := Except.ok.inj bound
    obtain rfl := Except.ok.inj bound'
    exact unfolds
  | some name =>
    simp only [*] at bound bound'
    split at bound
    · simp at bound
    · split at bound'
      · simp at bound'
      · obtain rfl := Except.ok.inj bound
        obtain rfl := Except.ok.inj bound'
        refine ⟨unfolds.size, ?_, unfolds.stages⟩
        rw [unfolds.size, unfolds.bindings]

end Draft.Unfolds

namespace Planner
open Draft
variable {defaults : PlanDefaults} {lifting : Bool} {now : Instant} {draft plain added : Draft}
  {spec : StageSpec}

theorem addStage_wired {planner : Planner} (step : planner.addStage now draft spec = .ok added) :
    ∃ stage : Stage, added.stages = draft.stages.push stage ∧ added.bindings = draft.bindings ∧
      stage.Wired planner.lifting draft spec := by
  rw [addStage] at step
  split at step
  next kind =>
    rw [addSelect_eq] at step
    split at step
    · simp at step
    · obtain ⟨query, _, rfl⟩ := except_map_eq_ok step
      exact ⟨_, rfl, rfl, .select kind⟩
  next kind =>
    obtain ⟨inputs, aggregator, resolved, _, own | ⟨lifting, select, query, liftable, lifts⟩⟩ :=
      addAggregate_ok step
    · rw [addOwnStage_eq] at own
      obtain ⟨operation, _, rfl⟩ := except_map_eq_ok own
      exact ⟨_, rfl, rfl, .own kind resolved⟩
    · rw [lift_eq] at lifts
      obtain ⟨aggregation, _, rfl⟩ := except_map_eq_ok lifts
      obtain ⟨rfl, _⟩ := liftable?_eq_some liftable
      exact ⟨_, rfl, rfl, .lifted kind lifting resolved⟩

theorem planFrom_unfolds {program : List StageSpec} (unfolds : draft.Unfolds plain)
    {graph other : Graph}
    (built : (planFrom ⟨defaults, lifting⟩ now draft program).outcome = .ok graph)
    (built' : (planFrom ⟨defaults, false⟩ now plain program).outcome = .ok other) :
    graph.Unfolds other := by
  induction program generalizing draft plain with
  | nil =>
    rw [planFrom] at built built'
    rw [unfolds.last?_eq] at built'
    split at built
    next root _ =>
      obtain rfl := Except.ok.inj built
      simp only [*] at built'
      obtain rfl := Except.ok.inj built'
      exact ⟨rfl, unfolds.size, unfolds.stages⟩
    next => simp at built
  | cons spec rest ih =>
    rw [planFrom_cons] at built built'
    obtain ⟨bound, step, goes_on⟩ := except_bind_eq_ok built
    obtain ⟨bound', step', goes_on'⟩ := except_bind_eq_ok built'
    obtain ⟨added, adds, binds⟩ := except_bind_eq_ok step
    obtain ⟨added', adds', binds'⟩ := except_bind_eq_ok step'
    obtain ⟨stage, stages, bindings, wired⟩ := addStage_wired adds
    obtain ⟨other, stages', bindings', plainly⟩ := addStage_wired adds'
    have new : stage.Unfolds other := wired.unfolds plainly (unfolds.resolve_eq spec)
    have next := unfolds.push stages bindings stages' bindings' new
    exact ih (next.bind binds binds') goes_on goes_on'

/-- A program that has a graph has one without lifting too, with the same stages. -/
theorem build_unfolds {program : List StageSpec} {graph : Graph}
    (built : build ⟨defaults, lifting⟩ now program = .ok graph) :
    ∃ plain, build ⟨defaults, false⟩ now program = .ok plain ∧ graph.Unfolds plain := by
  cases other : build ⟨defaults, false⟩ now program with
  | ok plain => exact ⟨plain, rfl, planFrom_unfolds .empty built other⟩
  | error error =>
    have reason := (build_eq_error_iff ⟨defaults, false⟩ now program error).mp other
    have refused := (build_eq_error_iff ⟨defaults, lifting⟩ now program error).mpr reason
    simp [built] at refused

end Planner

namespace Graph
open Relation
variable {graph plain : Graph}

/-- Without lifting, a stage reads what the stage in its place reads or extends. -/
theorem Unfolds.reads_iff (unfolds : graph.Unfolds plain) (formed : graph.WellFormed)
    (plain_formed : plain.WellFormed) {id input : Nat} :
    plain.Reads id input ↔ graph.Needs id input := by
  have places : (plain.stage? id).isSome ↔ (graph.stage? id).isSome := by
    rw [stage?_isSome_iff, stage?_isSome_iff, unfolds.size]
  cases found : graph.stage? id with
  | none =>
    have absent : plain.stage? id = none := by simpa [found] using places
    simp [Reads, Needs, Origin, inputsOf, found, absent]
  | some stage =>
    obtain ⟨other, at_place, same⟩ := unfolds.stages found
    rw [Needs, Reads, Reads, plain_formed.inputsOf_eq at_place, formed.inputsOf_eq found, same.inputs]
    simp [Stage.uses, Origin, found]

/-- Without lifting, the stages that run are those that the root needs. -/
theorem Unfolds.reachable_iff (unfolds : graph.Unfolds plain) (formed : graph.WellFormed)
    (plain_formed : plain.WellFormed) {id : Nat} :
    plain.Reachable id ↔ ReflTransGen graph.Needs graph.root id := by
  have same : plain.Reads = graph.Needs := by
    funext reader input
    exact propext (unfolds.reads_iff formed plain_formed)
  rw [Reachable, same, unfolds.root]

/-- Without lifting, the selects are those that were not lifted from another one. -/
theorem Unfolds.select_iff (unfolds : graph.Unfolds plain) {id : Nat} :
    (plain.stage? id).any Stage.isSelect ↔
      (graph.stage? id).any Stage.isSelect ∧ ∀ origin, ¬graph.Origin id origin := by
  have places : (plain.stage? id).isSome ↔ (graph.stage? id).isSome := by
    rw [stage?_isSome_iff, stage?_isSome_iff, unfolds.size]
  cases found : graph.stage? id with
  | none =>
    have absent : plain.stage? id = none := by simpa [found] using places
    simp [absent]
  | some stage =>
    obtain ⟨other, at_place, same⟩ := unfolds.stages found
    rw [at_place, Option.any_some, Option.any_some, same.select]
    simp [Origin, found, Option.eq_none_iff_forall_ne_some]

end Graph
end MetricEngine
