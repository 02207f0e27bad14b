import MetricEngine.Proofs.Program.ArgumentRules
import MetricEngine.Proofs.Program.Lifting

/-!
Which programs can be built. A specification is checked against those before it, and building a program
fails with the error of the first check that fails at the first specification where one does. Lifting has no
part in this.
-/
namespace MetricEngine
open ArgumentReader ListFacts

theorem AggregatorKind.ofName?_eq_some_iff {name : String} {kind : AggregatorKind} :
    ofName? name = some kind ↔ Text.keyword name = kind.name := by
  constructor
  · intro found
    unfold ofName? at found
    split at found
    all_goals first
      | exact Option.some.inj found ▸ ‹Text.keyword name = _›
      | simp at found
  · intro same
    rw [ofName?, same]
    cases kind <;> rfl

/-- The names that specifications bind. -/
def boundNames (specs : List StageSpec) : List String :=
  specs.filterMap (·.binding)

/-- A check with the error that it ends in unless a condition holds. -/
def failsUnless (holds : Prop) [Decidable holds] (error : BuildError) : Option BuildError :=
  if holds then none else some error

@[simp]
theorem failsUnless_eq_none {holds : Prop} [Decidable holds] {error : BuildError} :
    failsUnless holds error = none ↔ holds := by
  simp [failsUnless]

namespace StageSpec
variable {defaults : PlanDefaults} {before : List StageSpec} {spec : StageSpec}

/-- An aggregate names its inputs or reads the stage before it. -/
def HasInput (before : List StageSpec) (spec : StageSpec) : Prop :=
  match spec.inputs with
  | some names => names ≠ []
  | none => before ≠ []

instance : Decidable (spec.HasInput before) := by
  unfold HasInput
  cases spec.inputs <;> infer_instance

/-- The checks of a select: it names no inputs, not even none of them, and its arguments are fine. -/
def selectChecks (spec : StageSpec) : List (Option BuildError) :=
  failsUnless (spec.inputs = none) (.invalidArgument "dependencies" .selectWithInputs) ::
    ArgumentRule.ofSelect.map (·.error? spec.args)

/-- The checks of the inputs of an aggregate: each of their names is bound. -/
def inputChecks (before : List StageSpec) (spec : StageSpec) : List (Option BuildError) :=
  (spec.inputs.getD []).map fun name => failsUnless (name ∈ boundNames before) (.undefinedStage name)

/-- The checks of an aggregate with its inputs: it has a known name and an input, and its arguments are
fine. -/
def kindChecks (defaults : PlanDefaults) (before : List StageSpec) (spec : StageSpec) :
    List (Option BuildError) :=
  match AggregatorKind.ofName? spec.operation with
  | none => [some (.unknownAggregator spec.operation)]
  | some kind =>
    failsUnless (spec.HasInput before) (.noInput kind.name) ::
      (ArgumentRule.ofKind defaults kind).map (·.error? spec.args)

/-- The checks before a stage is built, in the order in which they are made. -/
def stageChecks (defaults : PlanDefaults) (before : List StageSpec) (spec : StageSpec) :
    List (Option BuildError) :=
  match spec.kind with
  | .select => spec.selectChecks
  | .aggregate => spec.inputChecks before ++ spec.kindChecks defaults before

/-- The last check: the name of the stage is new. -/
def nameCheck (before : List StageSpec) (spec : StageSpec) : Option BuildError :=
  spec.binding.bind fun name => failsUnless (name ∉ boundNames before) (.duplicateStage name)

/-- The error of the first check of a specification behind others that fails. -/
def fault? (defaults : PlanDefaults) (before : List StageSpec) (spec : StageSpec) : Option BuildError :=
  (spec.stageChecks defaults before ++ [spec.nameCheck before]).findSome? id

/-- A specification can be built behind others. -/
structure Acceptable (defaults : PlanDefaults) (before : List StageSpec) (spec : StageSpec) : Prop where
  fresh : ∀ name, spec.binding = some name → name ∉ boundNames before
  select : spec.kind = .select → spec.inputs = none ∧
    ∀ rule ∈ ArgumentRule.ofSelect, rule.error? spec.args = none
  aggregate : spec.kind = .aggregate →
    (∀ names, spec.inputs = some names → ∀ name ∈ names, name ∈ boundNames before) ∧
    spec.HasInput before ∧
    ∃ kind : AggregatorKind, Text.keyword spec.operation = kind.name ∧
      ∀ rule ∈ ArgumentRule.ofKind defaults kind, rule.error? spec.args = none

theorem acceptable_iff : spec.Acceptable defaults before ↔ spec.fault? defaults before = none := by
  have passes : spec.fault? defaults before = none ↔
      (∀ check ∈ spec.stageChecks defaults before, check = none) ∧ spec.nameCheck before = none := by
    simp [fault?, List.findSome?_eq_none_iff]
  have fresh : spec.nameCheck before = none ↔
      ∀ name, spec.binding = some name → name ∉ boundNames before := by
    simp [nameCheck, Option.bind_eq_none_iff]
  rw [passes, fresh, stageChecks]
  cases kind : spec.kind with
  | select =>
    have select : (∀ check ∈ spec.selectChecks, check = none) ↔
        spec.inputs = none ∧ ∀ rule ∈ ArgumentRule.ofSelect, rule.error? spec.args = none := by
      simp [selectChecks]
    dsimp only
    rw [select]
    constructor
    · intro acceptable
      exact ⟨acceptable.select kind, acceptable.fresh⟩
    · rintro ⟨passed, fresh⟩
      exact ⟨fresh, fun _ => passed, fun other => by simp [kind] at other⟩
  | aggregate =>
    have inputs : (∀ check ∈ spec.inputChecks before, check = none) ↔
        ∀ names, spec.inputs = some names → ∀ name ∈ names, name ∈ boundNames before := by
      cases given : spec.inputs <;> simp [inputChecks, given]
    have kinds : (∀ check ∈ spec.kindChecks defaults before, check = none) ↔
        spec.HasInput before ∧ ∃ kind : AggregatorKind, Text.keyword spec.operation = kind.name ∧
          ∀ rule ∈ ArgumentRule.ofKind defaults kind, rule.error? spec.args = none := by
      simp only [← AggregatorKind.ofName?_eq_some_iff]
      cases named : AggregatorKind.ofName? spec.operation <;> simp [kindChecks, named]
    simp only [List.mem_append, or_imp, forall_and, inputs, kinds]
    constructor
    · intro acceptable
      exact ⟨acceptable.aggregate kind, acceptable.fresh⟩
    · rintro ⟨passed, fresh⟩
      exact ⟨fresh, fun other => by simp [kind] at other, fun _ => passed⟩

end StageSpec

/-- The error of the first specification that cannot be built behind those before it. -/
def FirstFault (defaults : PlanDefaults) (program : List StageSpec) (error : BuildError) : Prop :=
  ∃ before spec after, program = before ++ spec :: after ∧
    EachAfter (StageSpec.Acceptable defaults) before ∧ spec.fault? defaults before = some error

namespace FirstFault
variable {defaults : PlanDefaults} {program front before after : List StageSpec} {spec : StageSpec}
  {error other : BuildError}

/-- The fronts of a program in which everything is acceptable end before a specification at fault. -/
theorem front_le (acceptable : EachAfter (StageSpec.Acceptable defaults) front)
    (fails : spec.fault? defaults before = some error) (front_of : front <+: before ++ spec :: after) :
    front.length ≤ before.length := by
  obtain ⟨rest, split⟩ := front_of
  rcases List.append_eq_append_iff.mp split with ⟨more, rfl, _⟩ | ⟨more, rfl, same⟩
  · simp
  · cases more with
    | nil => simp
    | cons head tail =>
      obtain ⟨rfl, _⟩ := List.cons.inj same
      have passes := StageSpec.acceptable_iff.mp (acceptable before spec tail rfl)
      simp [fails] at passes

theorem not_eachAfter (fault : FirstFault defaults program error) :
    ¬EachAfter (StageSpec.Acceptable defaults) program := by
  intro acceptable
  obtain ⟨before, spec, after, rfl, _, fails⟩ := fault
  have short := front_le acceptable fails (List.prefix_refl _)
  rw [List.length_append, List.length_cons] at short
  omega

theorem ne_nil (fault : FirstFault defaults program error) : program ≠ [] := by
  obtain ⟨before, spec, after, rfl, _⟩ := fault
  simp

theorem unique (first : FirstFault defaults program error) (second : FirstFault defaults program other) :
    error = other := by
  obtain ⟨before, spec, after, rfl, acceptable, fails⟩ := first
  obtain ⟨before', spec', after', split, acceptable', fails'⟩ := second
  have front : before <+: before' ++ spec' :: after' := split ▸ List.prefix_append ..
  have front' : before' <+: before ++ spec :: after := split ▸ List.prefix_append ..
  have same : before.length = before'.length :=
    Nat.le_antisymm (front_le acceptable fails' front) (front_le acceptable' fails front')
  obtain ⟨rfl, rest⟩ := List.append_inj split same
  obtain ⟨rfl, _⟩ := List.cons.inj rest
  exact Option.some.inj (fails.symm.trans fails')

end FirstFault

namespace Draft

/-- A draft has been made from some specifications. -/
structure Follows (before : List StageSpec) (draft : Draft) : Prop where
  size : draft.stages.size = before.length
  names : ∀ name, (draft.lookup? name).isSome ↔ name ∈ boundNames before

variable {before : List StageSpec} {draft added : Draft}

namespace Follows

theorem empty : Follows [] .empty :=
  ⟨rfl, by simp [Draft.empty, lookup?, boundNames]⟩

theorem last?_eq_none_iff (follows : draft.Follows before) : draft.last? = none ↔ before = [] := by
  rw [last?, ← List.length_eq_zero_iff, ← follows.size]
  simp [Array.isEmpty]

end Follows

/-- A draft has one stage more than another and the same names. -/
structure Adds (draft added : Draft) : Prop where
  size : added.stages.size = draft.stages.size + 1
  bindings : added.bindings = draft.bindings

/-- Names are resolved from left to right, so the first one that is not bound is reported. -/
theorem resolve_outcome (follows : draft.Follows before) (spec : StageSpec) :
    Outcome (fun inputs => inputs = [] ↔ ¬spec.HasInput before)
      ((spec.inputChecks before).findSome? id) (draft.resolve spec) := by
  rw [Draft.resolve, StageSpec.inputChecks, StageSpec.HasInput]
  cases spec.inputs with
  | none =>
    refine .ok ?_
    cases last : draft.last? with
    | none => simp [follows.last?_eq_none_iff.mp last]
    | some id =>
      have filled : before ≠ [] := fun empty => by simp [follows.last?_eq_none_iff.mpr empty] at last
      simp [filled]
  | some names =>
    refine (Outcome.mapM (fun name => ?_) names).weaken fun inputs same => ?_
    · cases found : draft.lookup? name with
      | none =>
        have unbound : name ∉ boundNames before := by simp [← follows.names, found]
        simpa [failsUnless, unbound] using Outcome.error
      | some id =>
        have bound : name ∈ boundNames before := by simp [← follows.names, found]
        simpa [failsUnless, bound] using Outcome.ok trivial
    · simp [← List.length_eq_zero_iff, same]

theorem bind_outcome (follows : draft.Follows before) (adds : draft.Adds added) (spec : StageSpec) :
    Outcome (Follows (before ++ [spec])) (spec.nameCheck before) (added.bind spec) := by
  have same : ∀ name, added.lookup? name = draft.lookup? name := by
    intro name
    simp only [lookup?, adds.bindings]
  rw [Draft.bind, StageSpec.nameCheck]
  cases binding : spec.binding with
  | none =>
    refine .ok ⟨?_, ?_⟩
    · simp [adds.size, follows.size]
    · simp [same, follows.names, boundNames, binding]
  | some name =>
    simp only [Option.bind_some, failsUnless, same, follows.names]
    by_cases bound : name ∈ boundNames before
    · simp only [bound, not_true_eq_false, if_true, if_false]
      exact .error
    · simp only [bound, not_false_eq_true, if_true, if_false]
      refine .ok ⟨?_, ?_⟩
      · simp [adds.size, follows.size]
      · intro other
        rw [lookup?_cons, boundNames, List.filterMap_append, List.mem_append, ← boundNames, ← follows.names,
          ← same other]
        by_cases here : name = other
        · simp [here, binding]
        · simp [here, binding, Ne.symm here]

end Draft

namespace Planner
open Draft
variable {planner : Planner} {now : Instant} {before program : List StageSpec} {draft : Draft}

theorem addSelect_outcome (spec : StageSpec) :
    Outcome draft.Adds (spec.selectChecks.findSome? id) (planner.addSelect now draft spec) := by
  rw [addSelect_eq, StageSpec.selectChecks, findSome?_cons_or]
  cases given : spec.inputs with
  | some names => exact .error
  | none =>
    have read := (ArgumentRule.ofSelect_enforced spec.operation).outcome spec.args
    have asked : Outcome (fun _ : Query => True) _ (planner.selection now draft.range spec).1 :=
      read.map fun _ known => known
    simp only [failsUnless, if_true, id_eq, Option.none_or, List.findSome?_map, Option.isSome_none,
      Bool.false_eq_true, if_false]
    exact asked.map fun _ _ => ⟨Array.size_push .., rfl⟩

/-- The arguments of an aggregator are read alike when it is lifted. -/
theorem lift_outcome {kind : AggregatorKind} (liftable : kind.isLiftable) (spec : StageSpec)
    (select : Nat) (query : Query) :
    Outcome draft.Adds (ArgumentRule.firstError? (ArgumentRule.ofKind planner.defaults kind) spec.args)
      (planner.lift draft spec kind select query) := by
  have read := (ArgumentRule.ofKind_enforced planner.defaults kind).outcome spec.args
  rw [Aggregation.read_operation liftable] at read
  rw [lift_eq]
  exact read.of_map.map fun _ _ => ⟨Array.size_push .., rfl⟩

theorem addOwnStage_outcome (spec : StageSpec) (kind : AggregatorKind) (inputs : List Nat) :
    Outcome draft.Adds (ArgumentRule.firstError? (ArgumentRule.ofKind planner.defaults kind) spec.args)
      (planner.addOwnStage draft spec kind inputs) := by
  rw [addOwnStage_eq]
  exact ((ArgumentRule.ofKind_enforced planner.defaults kind).outcome spec.args).map fun _ _ =>
    ⟨Array.size_push .., rfl⟩

theorem addAggregate_outcome (follows : draft.Follows before) (spec : StageSpec) :
    Outcome draft.Adds
      ((spec.inputChecks before ++ spec.kindChecks planner.defaults before).findSome? id)
      (planner.addAggregate draft spec) := by
  rw [List.findSome?_append, addAggregate]
  refine (resolve_outcome follows spec).bind fun inputs unread => ?_
  rw [StageSpec.kindChecks]
  cases AggregatorKind.ofName? spec.operation with
  | none => exact .error
  | some kind =>
    dsimp only
    rw [findSome?_cons_or]
    by_cases filled : spec.HasInput before
    · have some_input : inputs.isEmpty = false := by simpa [unread] using filled
      simp only [failsUnless, filled, if_true, id_eq, Option.none_or, List.findSome?_map, some_input,
        Bool.false_eq_true, if_false]
      split
      next select query found =>
        split at found
        · exact lift_outcome (liftable?_eq_some found).2.1 spec select query
        · simp at found
      next => exact addOwnStage_outcome spec kind inputs
    · obtain rfl : inputs = [] := unread.mpr filled
      simp only [failsUnless, filled, if_false]
      exact .error

theorem addStage_outcome (follows : draft.Follows before) (spec : StageSpec) :
    Outcome draft.Adds ((spec.stageChecks planner.defaults before).findSome? id)
      (planner.addStage now draft spec) := by
  rw [addStage, StageSpec.stageChecks]
  cases spec.kind with
  | select => exact addSelect_outcome spec
  | aggregate => exact addAggregate_outcome follows spec

/-- A specification that can be built is, and otherwise planning ends with its fault. -/
theorem step_outcome (planner : Planner) (now : Instant) (follows : draft.Follows before)
    (spec : StageSpec) :
    Outcome (Follows (before ++ [spec])) (spec.fault? planner.defaults before)
      (planner.addStage now draft spec >>= fun added => added.bind spec) := by
  rw [StageSpec.fault?, List.findSome?_append]
  refine (addStage_outcome follows spec).bind fun added adds => ?_
  simpa using bind_outcome follows adds spec

/-- What is to come of a program: a graph, or an error if it is empty or a specification is at fault. -/
def Verdict (defaults : PlanDefaults) (program : List StageSpec) : Except BuildError Graph → Prop
  | .ok _ => program ≠ [] ∧ EachAfter (StageSpec.Acceptable defaults) program
  | .error error => program = [] ∧ error = .emptyProgram ∨ FirstFault defaults program error

theorem planFrom_cons (planner : Planner) (now : Instant) (draft : Draft) (spec : StageSpec)
    (rest : List StageSpec) :
    (planner.planFrom now draft (spec :: rest)).outcome =
      (planner.addStage now draft spec >>= fun added => added.bind spec) >>= fun bound =>
        (planner.planFrom now bound rest).outcome := by
  rw [planFrom]
  cases planner.addStage now draft spec with
  | error error => rfl
  | ok added =>
    simp only [Bind.bind, Except.bind]
    cases added.bind spec <;> rfl

theorem planFrom_verdict (planner : Planner) (now : Instant) (follows : draft.Follows before)
    (acceptable : EachAfter (StageSpec.Acceptable planner.defaults) before) :
    Verdict planner.defaults (before ++ program) (planner.planFrom now draft program).outcome := by
  -- A program ends at its first fault, so all that has been planned is acceptable.
  induction program generalizing before draft with
  | nil =>
    rw [List.append_nil, planFrom]
    cases last : draft.last? with
    | none => exact .inl ⟨follows.last?_eq_none_iff.mp last, rfl⟩
    | some root =>
      have filled : before ≠ [] := fun empty => by simp [follows.last?_eq_none_iff.mpr empty] at last
      exact ⟨filled, acceptable⟩
  | cons spec rest ih =>
    have step := step_outcome planner now follows spec
    rw [planFrom_cons]
    generalize fault : spec.fault? planner.defaults before = fault? at step
    generalize (planner.addStage now draft spec >>= fun added => added.bind spec) = stepped at step ⊢
    cases step with
    | error => exact .inr ⟨before, spec, rest, rfl, acceptable, fault⟩
    | ok follows =>
      have verdict := ih follows (acceptable.concat (StageSpec.acceptable_iff.mpr fault))
      rwa [List.append_assoc] at verdict

theorem build_verdict (planner : Planner) (now : Instant) (program : List StageSpec) :
    Verdict planner.defaults program (planner.build now program) :=
  planFrom_verdict planner now .empty .nil

theorem build_eq_error_iff (planner : Planner) (now : Instant) (program : List StageSpec)
    (error : BuildError) :
    planner.build now program = .error error ↔
      program = [] ∧ error = .emptyProgram ∨ FirstFault planner.defaults program error := by
  have verdict := build_verdict planner now program
  constructor
  · intro failed
    rwa [failed] at verdict
  · intro reason
    cases built : planner.build now program with
    | ok graph =>
      rw [built] at verdict
      rcases reason with ⟨empty, _⟩ | fault
      · exact absurd empty verdict.1
      · exact absurd verdict.2 fault.not_eachAfter
    | error other =>
      rw [built] at verdict
      have same : other = error := by
        rcases verdict with ⟨empty, rfl⟩ | fault <;> rcases reason with ⟨empty', rfl⟩ | fault'
        · rfl
        · exact absurd empty fault'.ne_nil
        · exact absurd empty' fault.ne_nil
        · exact fault.unique fault'
      rw [same]

/-- A program has a graph exactly if it is not empty and each specification is acceptable behind those
before it. Otherwise the error is that of the first check that fails at the first specification that is
not acceptable. Whether aggregators are lifted makes no difference to either. -/
theorem build_outcome (planner : Planner) (now : Instant) (program : List StageSpec) :
    ((∃ graph, planner.build now program = .ok graph) ↔
      program ≠ [] ∧ EachAfter (StageSpec.Acceptable planner.defaults) program) ∧
    (∀ error, planner.build now program = .error error ↔
      program = [] ∧ error = .emptyProgram ∨ FirstFault planner.defaults program error) ∧
    ∀ lifting error, build { planner with lifting } now program = .error error ↔
      planner.build now program = .error error := by
  refine ⟨⟨?_, ?_⟩, build_eq_error_iff planner now program, ?_⟩
  · rintro ⟨graph, built⟩
    have verdict := build_verdict planner now program
    rwa [built] at verdict
  · rintro ⟨filled, acceptable⟩
    cases built : planner.build now program with
    | ok graph => exact ⟨graph, rfl⟩
    | error error =>
      rcases (build_eq_error_iff planner now program error).mp built with ⟨empty, _⟩ | fault
      · exact absurd empty filled
      · exact absurd acceptable fault.not_eachAfter
  · intro lifting error
    rw [build_eq_error_iff, build_eq_error_iff]

end Planner
end MetricEngine
