import MetricEngine.Proofs.Execution.Agreement
import MetricEngine.Proofs.Program.Ranking

/-!
What operations make of the results of their inputs. Results are recorded by the number of their stage,
and a stage that is given more than once counts once.
-/
namespace MetricEngine

/-- The first result that is given for a stage. -/
def firstResult? (given : List (Nat × Result)) (id : Nat) : Option Result :=
  (given.find? (·.1 = id)).map (·.2)

/-- One result for each stage, in the order in which the stages first come. -/
def recorded (given : List (Nat × Result)) : List Result :=
  (given.map (·.1)).eraseDups.filterMap (firstResult? given)

theorem firstResult?_of_mem {given : List (Nat × Result)} {entry : Nat × Result}
    (listed : entry ∈ given) : ∃ result, firstResult? given entry.1 = some result ∧
      (entry.1, result) ∈ given := by
  have found : (given.find? (·.1 = entry.1)).isSome := List.find?_isSome.mpr ⟨entry, listed, by simp⟩
  obtain ⟨⟨id, result⟩, found⟩ := Option.isSome_iff_exists.mp found
  obtain rfl : id = entry.1 := by simpa using List.find?_some found
  exact ⟨result, by rw [firstResult?, found, Option.map_some], List.mem_of_find?_eq_some found⟩

theorem firstResult?_append (given more : List (Nat × Result)) (id : Nat) :
    firstResult? (given ++ more) id = (firstResult? given id).or (firstResult? more id) := by
  rw [firstResult?, List.find?_append, Option.map_or]
  rfl

/-- A result that is recorded for a stage counts unless there is one for that stage already. -/
theorem recorded_concat (given : List (Nat × Result)) (id : Nat) (result : Result) :
    recorded (given ++ [(id, result)]) =
      if id ∈ given.map (·.1) then recorded given else recorded given ++ [result] := by
  -- Stages that are known keep the results that they have.
  have same : (given.map (·.1)).eraseDups.filterMap (firstResult? (given ++ [(id, result)])) =
      recorded given := by
    refine List.filterMap_congr fun other member => ?_
    obtain ⟨entry, listed, rfl⟩ := List.mem_map.mp (List.mem_eraseDups.mp member)
    obtain ⟨first, found, _⟩ := firstResult?_of_mem listed
    rw [firstResult?_append, found, Option.some_or]
  rw [recorded, List.map_append, List.map_cons, List.map_nil, ListFacts.eraseDups_concat]
  by_cases known : id ∈ given.map (·.1)
  · rw [if_pos known, if_pos known, same]
  · have missing : firstResult? given id = none := by
      rw [firstResult?, Option.map_eq_none_iff, List.find?_eq_none]
      intro entry listed here
      exact known (List.mem_map.mpr ⟨entry, listed, by simpa using here⟩)
    have last : firstResult? (given ++ [(id, result)]) id = some result := by
      rw [firstResult?_append, missing, Option.none_or]
      simp [firstResult?]
    rw [if_neg known, if_neg known, List.filterMap_append, same, List.filterMap_cons_some last,
      List.filterMap_nil]

/-- A stage whose inputs have succeeded takes in their results as they are recorded. -/
theorem RunState.inputs?_eq_recorded {state : RunState} {stage : Stage} {given : List (Nat × Result)}
    (inputs : given.map (·.1) = stage.inputs)
    (succeeded : ∀ entry ∈ given, state.outcome? entry.1 = some (.ok entry.2)) :
    state.inputs? stage = some (.ok (recorded given)) := by
  rw [inputs?_eq_ok_iff, recorded, inputs]
  have known : ∀ id ∈ stage.inputs.eraseDups, ∃ result, firstResult? given id = some result ∧
      state.outcome? id = some (.ok result) := by
    intro id member
    rw [List.mem_eraseDups, ← inputs, List.mem_map] at member
    obtain ⟨entry, listed, rfl⟩ := member
    obtain ⟨result, found, given_for⟩ := firstResult?_of_mem listed
    exact ⟨result, found, succeeded _ given_for⟩
  generalize stage.inputs.eraseDups = ids at known ⊢
  induction ids with
  | nil => rfl
  | cons id rest ih =>
    obtain ⟨result, found, outcome⟩ := known id List.mem_cons_self
    have others := ih fun id member => known id (List.mem_cons_of_mem _ member)
    rw [List.map_cons, outcome, others, List.filterMap_cons_some found, List.map_cons]

theorem RunState.exists_given {state : RunState} {ids : List Nat}
    (succeeded : ∀ id ∈ ids, ∃ result, state.outcome? id = some (.ok result)) :
    ∃ given : List (Nat × Result), given.map (·.1) = ids ∧
      ∀ entry ∈ given, state.outcome? entry.1 = some (.ok entry.2) := by
  induction ids with
  | nil => exact ⟨[], rfl, by simp⟩
  | cons id rest ih =>
    obtain ⟨⟨result, published⟩, others⟩ := List.forall_mem_cons.mp succeeded
    obtain ⟨given, same, known⟩ := ih others
    exact ⟨(id, result) :: given, by rw [List.map_cons, same], List.forall_mem_cons.mpr ⟨published, known⟩⟩

/-- The result that a stage of a run has published is that of its operation on the results that are recorded
for its inputs, all of which have been published. -/
theorem Execution.published_eq_recorded {setting : RunSetting} {steps : List TaskStep} {state : RunState}
    (formed : setting.graph.WellFormed) (execution : Execution setting steps state) {id : Nat}
    {stage : Stage} {kind : AggregatorKind} {operation : Operation}
    (isStage : setting.graph.stage? id = some stage) (work : stage.work = .aggregate kind operation)
    {result : Result} (published : state.outcome? id = some (.ok result)) :
    ∃ given : List (Nat × Result), given.map (·.1) = stage.inputs ∧
      (∀ entry ∈ given, state.outcome? entry.1 = some (.ok entry.2)) ∧
      operation.result? setting.clock (recorded given) = some result := by
  have consistent := execution.consistent formed
  have inputs_published : ∀ input ∈ stage.inputs, ∃ result, state.outcome? input = some (.ok result) := by
    intro input member
    refine consistent.result_of_input published ?_
    rwa [Graph.Reads, formed.inputsOf_eq isStage]
  obtain ⟨given, inputs, known⟩ := RunState.exists_given inputs_published
  refine ⟨given, inputs, known, ?_⟩
  have values := consistent.values_of_inputs formed isStage (RunState.inputs?_eq_recorded inputs known)
  have value : setting.value? id = some result := consistent.explained _ _ published
  rw [RunSetting.value?_eq isStage, values, Option.bind_some, Stage.answer, work] at value
  cases answer : operation.result? setting.clock (recorded given) with
  | some _ => simpa [answer, Except.toOption] using value
  | none => simp [answer, Except.toOption] at value

/-- A ranking answers one query, whose series are the best ones of all series of its inputs as they stand,
whatever ties there are; the sample size is the number of their samples. So the scores are the first of all
scores in the order of the ranking. -/
theorem ranking_answers_best (ranking : Ranking) (now : Instant) (given : List (Nat × Result)) :
    ∃ kept omitted,
      (Operation.rank ranking).result? now (recorded given) =
        some (.ofQueries [⟨(kept.flatMap (·.values)).length, kept⟩]) ∧
      ranking.Best ((recorded given).flatMap (·.series)) kept omitted ∧
      kept.map (·.sum) =
        ((((recorded given).flatMap (·.series)).map (·.sum)).mergeSort fun x y =>
          ranking.place x ≤ ranking.place y).take ranking.count := by
  obtain ⟨omitted, best⟩ := ranking.select_best ((recorded given).flatMap (·.series))
  refine ⟨_, omitted, ?_, best, best.scores⟩
  have together : ((recorded given).flatMap (·.queries)).flatMap (·.series) =
      (recorded given).flatMap (·.series) := List.flatMap_assoc
  have answer : (Operation.rank ranking).queries? now ((recorded given).flatMap (·.queries)) =
      some [.ofSeries (ranking.select (((recorded given).flatMap (·.queries)).flatMap (·.series)))] := rfl
  rw [Operation.result?, answer, together]
  rfl

end MetricEngine
