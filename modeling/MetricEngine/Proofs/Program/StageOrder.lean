import MetricEngine.Proofs.Program.Lineage

/-!
The list of the stages that run. It is a complete topological order: it has every stage that the last
specification depends on, each once and behind its inputs, and nothing else.
-/
namespace MetricEngine
open Relation ListFacts

namespace Graph
variable {graph : Graph}

/-- A stage depends on those among its inputs. -/
def DependsOn (graph : Graph) (reader input : Nat) : Prop :=
  ∃ stage, graph.stage? reader = some stage ∧ input ∈ stage.inputs

/-- In a well-formed graph no input is passed over. -/
theorem WellFormed.reads_iff (formed : graph.WellFormed) {reader input : Nat} :
    graph.Reads reader input ↔ graph.DependsOn reader input := by
  constructor
  · exact Reads.of_stage
  · rintro ⟨stage, found, member⟩
    rwa [Reads, formed.inputsOf_eq found]

theorem WellFormed.reachable_iff (formed : graph.WellFormed) {id : Nat} :
    graph.Reachable id ↔ ReflTransGen graph.DependsOn graph.root id := by
  have same : graph.Reads = graph.DependsOn := by
    funext reader input
    exact propext formed.reads_iff
  rw [Reachable, same]

/-- The root comes behind all that it reads. -/
theorem order_getLast? (formed : graph.WellFormed) : graph.order.getLast? = some graph.root := by
  obtain ⟨depth, positive⟩ := Nat.exists_eq_succ_of_ne_zero (Nat.ne_of_gt formed.root_pos)
  rw [order, positive, Nat.succ_eq_add_one, visit, if_neg (List.not_mem_nil), List.getLast?_concat]

theorem stages_inputsFirst (formed : graph.WellFormed) :
    EachAfter (fun before stage => ∀ input ∈ stage.inputs, input ∈ before.map (·.id))
      graph.stages := by
  intro before stage after split input member
  have listed : stage ∈ graph.stages := by simp [split]
  have found := ((mem_stages_iff formed).mp listed).2
  have ids : graph.order = before.map (·.id) ++ stage.id :: after.map (·.id) := by
    rw [← stages_ids formed, split, List.map_append, List.map_cons]
  exact order_inputsFirst formed _ _ _ ids input (formed.reads_iff.mpr ⟨stage, found, member⟩)

end Graph

namespace Planner
variable {planner : Planner} {now : Instant} {draft next : Draft} {spec : StageSpec}

theorem addAggregate_inputs_ne_nil (added : planner.addAggregate draft spec = .ok next)
    {inputs : List Nat} (resolved : draft.resolve spec = .ok inputs) : inputs ≠ [] := by
  rintro rfl
  rw [addAggregate, resolved] at added
  simp only [bind, Except.bind] at added
  split at added <;> simp [throw, throwThe, MonadExceptOf.throw] at added

/-- A stage that is no select has an input. -/
theorem addStage_inputs_ne_nil (added : planner.addStage now draft spec = .ok next) :
    ∃ stage : Stage, next.stages = draft.stages.push stage ∧
      (stage.isSelect = false → stage.inputs ≠ []) := by
  rw [addStage] at added
  split at added
  next =>
    rw [addSelect_eq] at added
    split at added
    · simp at added
    · obtain ⟨query, _, rfl⟩ := except_map_eq_ok added
      exact ⟨_, rfl, by simp [Stage.isSelect, Stage.query?]⟩
  next =>
    obtain ⟨inputs, kind, resolved, _, own | ⟨_, select, query, _, lifts⟩⟩ := addAggregate_ok added
    · rw [addOwnStage_eq] at own
      obtain ⟨operation, _, rfl⟩ := except_map_eq_ok own
      exact ⟨_, rfl, fun _ => addAggregate_inputs_ne_nil added resolved⟩
    · rw [lift_eq] at lifts
      obtain ⟨aggregation, _, rfl⟩ := except_map_eq_ok lifts
      exact ⟨_, rfl, by simp [Stage.isSelect, Stage.query?]⟩

theorem build_inputs_ne_nil {graph : Graph} {program : List StageSpec}
    (built : planner.build now program = .ok graph) {id : Nat} {stage : Stage}
    (found : graph.stage? id = some stage) (aggregate : stage.isSelect = false) : stage.inputs ≠ [] := by
  obtain ⟨final, _, filled, _, stages⟩ :=
    planFrom_keeps (fun _ draft => ∀ id stage, draft.stage? id = some stage →
        stage.isSelect = false → stage.inputs ≠ [])
      (by
        intro _ draft spec added bound _ filled step binding id stage found
        obtain ⟨new, stages, new_filled⟩ := addStage_inputs_ne_nil step
        rcases (Draft.stage?_push_iff ((Draft.bind_keeps binding).1.trans stages)).mp found with
          ⟨_, rfl⟩ | before
        · exact new_filled
        · exact filled id stage before)
      [] built .empty (by
        intro id stage found
        cases id <;> simp [Draft.empty, Draft.stage?, Graph.stage?] at found)
  rw [Draft.stage?_of_all stages] at found
  exact filled id stage found aggregate

/-- The root is the stage of the last specification. -/
theorem build_root {graph : Graph} {program : List StageSpec}
    (built : planner.build now program = .ok graph) : graph.root = program.length := by
  obtain ⟨final, _, last, stages⟩ := planFrom_ok built .empty
  obtain ⟨size, _⟩ := build_recorded built
  rw [Draft.last?] at last
  split at last
  · simp at last
  · rw [← size, stages]
    exact (Option.some.inj last).symm

end Planner

/-- Of a program that has a graph, the stages listed are those that the last specification depends on,
directly or through others: each once, behind all its inputs, and the one of the last specification at the
end. Each stage reads stages of earlier specifications; a select reads none and an aggregate at least one. A
stage that the last specification does not depend on is not listed, even if a name is bound to it. -/
theorem stages_in_topological_order {planner : Planner} {now : Instant} {program : List StageSpec}
    {graph : Graph} (built : planner.build now program = .ok graph) :
    (∀ stage, stage ∈ graph.stages ↔
      graph.stage? stage.id = some stage ∧ ReflTransGen graph.DependsOn program.length stage.id) ∧
    (∀ id, ReflTransGen graph.DependsOn program.length id → ∃ stage ∈ graph.stages, stage.id = id) ∧
    (graph.stages.map (·.id)).Nodup ∧
    EachAfter (fun before stage => ∀ input ∈ stage.inputs, input ∈ before.map (·.id)) graph.stages ∧
    graph.stages.getLast?.map (·.id) = some program.length ∧
    (∀ id stage, graph.stage? id = some stage → stage.id = id ∧
      (∀ input ∈ stage.inputs, input < id ∧ (graph.stage? input).isSome) ∧
      (stage.inputs = [] ↔ stage.isSelect)) ∧
    ∀ place spec name, program[place]? = some spec → spec.binding = some name →
      ¬ReflTransGen graph.DependsOn program.length (place + 1) →
      ∀ stage ∈ graph.stages, stage.id ≠ place + 1 := by
  have formed := Planner.build_wellFormed built
  have listed : ∀ stage, stage ∈ graph.stages ↔ graph.stage? stage.id = some stage ∧
      ReflTransGen graph.DependsOn program.length stage.id := by
    intro stage
    rw [Graph.mem_stages_iff formed, formed.reachable_iff, Planner.build_root built, and_comm]
  refine ⟨listed, ?_, ?_, Graph.stages_inputsFirst formed, ?_, ?_, ?_⟩
  · intro id depends
    have reachable : graph.Reachable id := by
      rwa [formed.reachable_iff, Planner.build_root built]
    obtain ⟨stage, found⟩ := Option.isSome_iff_exists.mp (formed.reachable_isSome reachable)
    obtain rfl := formed.numbered found
    exact ⟨stage, (listed stage).mpr ⟨found, depends⟩, rfl⟩
  · rw [Graph.stages_ids formed]
    exact Graph.order_nodup formed
  · rw [← List.getLast?_map, Graph.stages_ids formed, Graph.order_getLast? formed,
      Planner.build_root built]
  · intro id stage found
    refine ⟨formed.numbered found, ?_, ?_, Planner.build_select_inputs built found⟩
    · intro input member
      have reads := formed.reads_iff.mpr ⟨stage, found, member⟩
      exact ⟨reads.lt, formed.input_isSome reads⟩
    · intro none
      cases select : stage.isSelect with
      | true => rfl
      | false => exact absurd none (Planner.build_inputs_ne_nil built found select)
  · rintro place spec name _ _ apart stage member same
    exact apart (same ▸ ((listed stage).mp member).2)

/-- A union that reads one select twice and the maximum lifted from it, with a select beside it that nothing
reads. -/
def loadTwice : List StageSpec :=
  [{ StageSpec.ofKind .select "load" with binding := some "raw" },
    { StageSpec.ofKind .select "faults" with binding := some "beside" },
    { StageSpec.ofKind .aggregate "max" with binding := some "peak", inputs := some ["raw"] },
    { StageSpec.ofKind .aggregate "union" with inputs := some ["raw", "peak", "raw"] }]

theorem loadTwice_in_order : ∃ graph,
    Planner.build ⟨EngineConfig.standard.defaults, true⟩ .epoch loadTwice = .ok graph ∧
    graph.stages.map (·.id) = [1, 3, 4] ∧
    EachAfter (fun before stage => ∀ input ∈ stage.inputs, input ∈ before.map (·.id)) graph.stages ∧
    ¬ReflTransGen graph.DependsOn 4 2 := by
  have built : ∃ graph,
      Planner.build ⟨EngineConfig.standard.defaults, true⟩ .epoch loadTwice = .ok graph ∧
      graph.stages.map (·.id) = [1, 3, 4] := ⟨_, rfl, rfl⟩
  obtain ⟨graph, built, ids⟩ := built
  obtain ⟨_, complete, _, ordered, _⟩ := stages_in_topological_order built
  refine ⟨graph, built, ids, ordered, fun depends => ?_⟩
  obtain ⟨stage, member, second⟩ := complete 2 depends
  have listed := List.mem_map_of_mem (f := (·.id)) member
  rw [ids, second] at listed
  simp at listed

end MetricEngine
