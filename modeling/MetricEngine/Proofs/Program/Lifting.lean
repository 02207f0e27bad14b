import MetricEngine.Proofs.Aggregation.BackendForm
import MetricEngine.Proofs.Graph.Reports
import MetricEngine.Proofs.Program.Planner

/-!
Planning with and without lifting, specification by specification. The two planners refuse the same
programs, and where one gives an aggregate a stage of its own, the other may extend the query of the
select that it reads.
-/
namespace MetricEngine
open ArgumentReader

namespace Aggregation

/-- The operation of a stage of its own for an aggregation that a store can apply. -/
def toOperation (aggregation : Aggregation) : Operation :=
  if aggregation.function.kind = .diff then .diff else .aggregate aggregation

/-- Both planners read the same aggregation from the same arguments. -/
theorem read_operation {kind : AggregatorKind} (liftable : kind.isLiftable) (defaults : PlanDefaults)
    (given : Table Json) :
    (Operation.read kind defaults).on given =
      (((read kind defaults.sampling).on given).1.map toOperation,
        ((read kind defaults.sampling).on given).2) := by
  by_cases same : kind = .diff
  · subst same
    rfl
  · have own : Operation.read kind defaults = Operation.aggregate <$> read kind defaults.sampling := by
      cases kind with
      | diff => exact absurd rfl same
      | threshold => simp [AggregatorKind.isLiftable] at liftable
      | dataAbsent => simp [AggregatorKind.isLiftable] at liftable
      | union => simp [AggregatorKind.isLiftable] at liftable
      | top => simp [AggregatorKind.isLiftable] at liftable
      | bottom => simp [AggregatorKind.isLiftable] at liftable
      | _ => rfl
    rw [own, on_map]
    have ensures : Ensures (read kind defaults.sampling) fun aggregation =>
        aggregation.function.kind = kind :=
      .bind (readFunction_ensures kind) fun function same => by
        subst same
        split
        · refine .bind .any fun given _ => ?_
          dsimp only
          split
          · refine .bind ?_ fun _ (none : False) => none.elim
            exact .refuse
          · exact .pure rfl
        · exact .pure rfl
    cases found : (read kind defaults.sampling).on given with
    | mk outcome arguments =>
      cases outcome with
      | error error => rfl
      | ok aggregation =>
        have kind_eq := ensures.on found
        simp [Except.map, toOperation, kind_eq, same]

end Aggregation

/-- Two outcomes are the same error, or values that are related. -/
inductive Agree {ε α β : Type} (related : α → β → Prop) : Except ε α → Except ε β → Prop where
  | ok {a b} : related a b → Agree related (.ok a) (.ok b)
  | error {error} : Agree related (.error error) (.error error)

theorem Agree.inv {ε α β : Type} {related : α → β → Prop} {first : Except ε α} {second : Except ε β}
    (agree : Agree related first second) :
    (∃ a b, first = .ok a ∧ second = .ok b ∧ related a b) ∨
      ∃ error, first = .error error ∧ second = .error error := by
  cases agree with
  | ok values => exact .inl ⟨_, _, rfl, rfl, values⟩
  | error => exact .inr ⟨_, rfl, rfl⟩

/-- How the stages of two graphs for one program correspond: they are the same, or one is lifted from a
select and the other one reads that select. -/
inductive Lifting (stage? : Nat → Option Stage) : Stage → Stage → Prop where
  | same {stage : Stage} : stage.liftedFrom = none →
      (∀ query, stage.query? = some query → ∃ metric, query.metrics = [metric] ∧
        metric.aggregators = []) →
      Lifting stage? stage stage
  | lifted {id name unknown select base query} {aggregation : Aggregation} :
      stage? select = some base → base.query? = some query → aggregation.Statable →
      Lifting stage?
        ⟨id, name, .select (query.withAggregator aggregation.toAggregator), [], unknown, some select⟩
        ⟨id, name, .aggregate aggregation.function.kind aggregation.toOperation, [select], unknown, none⟩

theorem Lifting.mono {old new : Nat → Option Stage} {stage own : Stage}
    (kept : ∀ {id stage}, old id = some stage → new id = some stage)
    (lifting : Lifting old stage own) : Lifting new stage own := by
  cases lifting with
  | same plain selects => exact .same plain selects
  | lifted found query statable => exact .lifted (kept found) query statable

namespace Draft

/-- Drafts of one program with and without lifting. -/
structure Alike (lifted own : Draft) : Prop where
  size : lifted.stages.size = own.stages.size
  bindings : lifted.bindings = own.bindings
  range : lifted.range = own.range
  stages : ∀ {id stage}, lifted.stage? id = some stage →
    ∃ other, own.stage? id = some other ∧ Lifting lifted.stage? stage other

namespace Alike
variable {lifted own : Draft}

theorem empty : Alike .empty .empty where
  size := rfl
  bindings := rfl
  range := rfl
  stages {id _} found := by cases id <;> simp [Draft.empty, stage?, Graph.stage?] at found

theorem last?_eq (alike : Alike lifted own) : lifted.last? = own.last? := by
  simp only [last?, Array.isEmpty, decide_eq_true_eq, alike.size]

theorem lookup?_eq (alike : Alike lifted own) (name : String) :
    lifted.lookup? name = own.lookup? name := by
  simp only [lookup?, alike.bindings]

theorem resolve_eq (alike : Alike lifted own) (spec : StageSpec) :
    lifted.resolve spec = own.resolve spec := by
  simp only [resolve, alike.last?_eq, alike.lookup?_eq]

theorem push (alike : Alike lifted own) {lifted' own' : Draft} {stage other : Stage}
    (stages : lifted'.stages = lifted.stages.push stage) (stages' : own'.stages = own.stages.push other)
    (bindings : lifted'.bindings = lifted.bindings) (bindings' : own'.bindings = own.bindings)
    (range : lifted'.range = own'.range) (lifting : Lifting lifted.stage? stage other) :
    Alike lifted' own' := by
  have kept : ∀ {id stage}, lifted.stage? id = some stage → lifted'.stage? id = some stage :=
    fun found => (stage?_push_iff stages).mpr (.inr found)
  refine ⟨?_, ?_, range, ?_⟩
  · rw [stages, stages', Array.size_push, Array.size_push, alike.size]
  · rw [bindings, bindings', alike.bindings]
  · intro id added found
    rcases (stage?_push_iff stages).mp found with ⟨rfl, rfl⟩ | found
    · exact ⟨other, (stage?_push_iff stages').mpr (.inl ⟨by rw [alike.size], rfl⟩), lifting.mono kept⟩
    · obtain ⟨before, found, lifting⟩ := alike.stages found
      exact ⟨before, (stage?_push_iff stages').mpr (.inr found), lifting.mono kept⟩

theorem bind (alike : Alike lifted own) (spec : StageSpec) :
    Agree Alike (lifted.bind spec) (own.bind spec) := by
  unfold Draft.bind
  split
  next => exact .ok alike
  next name _ =>
    rw [alike.lookup?_eq]
    split
    · exact .error
    · refine .ok ⟨alike.size, ?_, alike.range, alike.stages⟩
      dsimp only
      rw [alike.size, alike.bindings]

end Alike
end Draft

namespace Planner
open Draft
variable {defaults : PlanDefaults} {now : Instant} {lifted own : Draft} {spec : StageSpec}

theorem readSelection_ensures (metric : String) :
    Ensures (readSelection metric) fun read => read.name = metric ∧ read.aggregators = [] :=
  .bind .any fun _ _ => .bind .any fun _ _ => .pure ⟨rfl, rfl⟩

theorem addSelect_agree (alike : Alike lifted own) :
    Agree Alike (addSelect ⟨defaults, true⟩ now lifted spec)
      (addSelect ⟨defaults, false⟩ now own spec) := by
  rw [addSelect_eq, addSelect_eq, alike.range]
  split
  · exact .error
  · have same : selection ⟨defaults, false⟩ now own.range spec =
        selection ⟨defaults, true⟩ now own.range spec := rfl
    rw [same]
    rw [selection]
    cases found : (readSelection spec.operation).on spec.args with
    | mk metric arguments =>
      cases metric with
      | error error => exact .error
      | ok metric =>
        have ⟨_, plain⟩ := (readSelection_ensures spec.operation).on found
        refine .ok (alike.push rfl rfl rfl rfl rfl ?_)
        rw [alike.size]
        refine .same rfl fun query select => ?_
        obtain rfl := Option.some.inj select
        exact ⟨metric, rfl, plain⟩

theorem addOwnStage_agree (alike : Alike lifted own) (kind : AggregatorKind) (inputs : List Nat) :
    Agree Alike (addOwnStage ⟨defaults, true⟩ lifted spec kind inputs)
      (addOwnStage ⟨defaults, false⟩ own spec kind inputs) := by
  rw [addOwnStage_eq, addOwnStage_eq]
  dsimp only
  cases (Operation.read kind defaults).on spec.args with
  | mk operation arguments =>
    cases operation with
    | error error => exact .error
    | ok operation =>
      refine .ok (alike.push rfl rfl rfl rfl alike.range ?_)
      rw [alike.size]
      exact .same rfl fun query select => by simp [Stage.query?] at select

/-- An aggregator that is lifted into a select gets a stage that reads it from the other planner. -/
theorem lift_agree (bounds : Period.InBounds defaults.sampling) (alike : Alike lifted own)
    {kind : AggregatorKind} {inputs : List Nat} {select : Nat} {query : Query}
    (liftable : lifted.liftable? kind inputs = some (select, query)) :
    Agree Alike (lift ⟨defaults, true⟩ lifted spec kind select query)
      (addOwnStage ⟨defaults, false⟩ own spec kind inputs) := by
  obtain ⟨rfl, is_liftable, _, found⟩ := liftable?_eq_some liftable
  obtain ⟨base, found, query_found⟩ := Option.bind_eq_some_iff.mp found
  rw [lift_eq, addOwnStage_eq, Aggregation.read_operation is_liftable]
  dsimp only
  cases read : (Aggregation.read kind defaults.sampling).on spec.args with
  | mk aggregation arguments =>
    cases aggregation with
    | error error => exact .error
    | ok aggregation =>
      obtain ⟨rfl, statable⟩ := (Aggregation.read_ensures bounds).on read
      refine .ok (alike.push rfl rfl rfl rfl alike.range ?_)
      rw [alike.size]
      exact .lifted found query_found statable

theorem addAggregate_agree (bounds : Period.InBounds defaults.sampling) (alike : Alike lifted own) :
    Agree Alike (addAggregate ⟨defaults, true⟩ lifted spec)
      (addAggregate ⟨defaults, false⟩ own spec) := by
  unfold addAggregate
  rw [alike.resolve_eq]
  cases own.resolve spec with
  | error error => exact .error
  | ok inputs =>
    cases AggregatorKind.ofName? spec.operation with
    | none => exact .error
    | some kind =>
      simp only [Bind.bind, Except.bind]
      split
      · exact .error
      · simp only [if_true, Bool.false_eq_true, if_false]
        cases liftable : lifted.liftable? kind inputs with
        | none => exact addOwnStage_agree alike kind inputs
        | some found => exact lift_agree bounds alike liftable

theorem addStage_agree (bounds : Period.InBounds defaults.sampling) (alike : Alike lifted own) :
    Agree Alike (addStage ⟨defaults, true⟩ now lifted spec)
      (addStage ⟨defaults, false⟩ now own spec) := by
  unfold addStage
  cases spec.kind with
  | select => exact addSelect_agree alike
  | aggregate => exact addAggregate_agree bounds alike

end Planner

/-- Graphs of one program with and without lifting. -/
structure Graph.Lifts (lifted own : Graph) : Prop where
  root : lifted.root = own.root
  size : lifted.all.size = own.all.size
  stages : ∀ {id stage}, lifted.stage? id = some stage →
    ∃ other, own.stage? id = some other ∧ Lifting lifted.stage? stage other

namespace Planner
variable {defaults : PlanDefaults} {now : Instant}

theorem planFrom_agree (bounds : Period.InBounds defaults.sampling) (program : List StageSpec) :
    ∀ {lifted own : Draft}, lifted.Alike own →
      Agree Graph.Lifts (planFrom ⟨defaults, true⟩ now lifted program).outcome
        (planFrom ⟨defaults, false⟩ now own program).outcome := by
  induction program with
  | nil =>
    intro lifted own alike
    unfold planFrom
    rw [alike.last?_eq]
    cases own.last? with
    | none => exact .error
    | some root => exact .ok ⟨rfl, alike.size, alike.stages⟩
  | cons spec rest ih =>
    intro lifted own alike
    unfold planFrom
    rcases (addStage_agree bounds alike).inv with ⟨added, other, step, step', alike⟩ | ⟨error, step, step'⟩
    · rw [step, step']
      dsimp only
      rcases (alike.bind spec).inv with ⟨bound, bound', binding, binding', alike⟩ |
        ⟨error, binding, binding'⟩
      · rw [binding, binding']
        exact ih alike
      · rw [binding, binding']
        exact .error
    · rw [step, step']
      exact .error

/-- A program is refused by both planners with the same error, or it has a graph from each. -/
theorem build_agree (bounds : Period.InBounds defaults.sampling) (program : List StageSpec) :
    Agree Graph.Lifts (build ⟨defaults, true⟩ now program) (build ⟨defaults, false⟩ now program) :=
  planFrom_agree bounds program .empty

theorem build_originsFirst {planner : Planner} {graph : Graph} {program : List StageSpec}
    (built : planner.build now program = .ok graph) : graph.OriginsFirst := by
  obtain ⟨final, sound, _, stages⟩ := planFrom_ok built .empty
  rintro id origin ⟨stage, found, lifted⟩
  rw [Draft.stage?_of_all stages] at found
  exact sound.earlier found origin (List.mem_append_right _ (by simp [lifted]))

end Planner
end MetricEngine
