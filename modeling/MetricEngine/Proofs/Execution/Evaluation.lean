import MetricEngine.Execution.Run
import MetricEngine.Proofs.Graph.Order
import MetricEngine.Proofs.ListFacts

/-!
Evaluation of a graph by plain recursion: the value of a stage is the answer of its operation to the
values of its inputs, each of which is evaluated anew. Runs of a graph are measured against it.
-/
namespace MetricEngine.RunSetting
open Relation

/-- The value of a stage, if its operation and those of all stages that it needs succeed. -/
def value? (setting : RunSetting) (id : Nat) : Option Result := do
  let stage ← setting.graph.stage? id
  let inputs ← (setting.graph.inputsOf id).eraseDups.attach.mapM fun input => setting.value? input.1
  (stage.answer setting inputs).toOption
termination_by id
decreasing_by exact Graph.Reads.lt (List.mem_eraseDups.mp input.2)

/-- A stage fails by itself: its inputs have values, and its operation answers them with an error. -/
def Fails (setting : RunSetting) (id : Nat) (error : ExecutionError) : Prop :=
  ∃ stage inputs, setting.graph.stage? id = some stage ∧
    (setting.graph.inputsOf id).eraseDups.mapM setting.value? = some inputs ∧
    stage.answer setting inputs = .error error

variable {setting : RunSetting}

theorem value?_eq {id : Nat} {stage : Stage} (found : setting.graph.stage? id = some stage) :
    setting.value? id =
      ((setting.graph.inputsOf id).eraseDups.mapM setting.value?).bind fun inputs =>
        (stage.answer setting inputs).toOption := by
  have values : (setting.graph.inputsOf id).eraseDups.attach.mapM (fun input => setting.value? input.1) =
      (setting.graph.inputsOf id).eraseDups.mapM setting.value? := by
    simp
  rw [value?, found, Option.bind_eq_bind, Option.bind_some, values]
  rfl

theorem value?_eq_some_iff {id : Nat} {result : Result} :
    setting.value? id = some result ↔ ∃ stage inputs, setting.graph.stage? id = some stage ∧
      (setting.graph.inputsOf id).eraseDups.mapM setting.value? = some inputs ∧
      stage.answer setting inputs = .ok result := by
  cases found : setting.graph.stage? id with
  | none => rw [value?, found]; simp
  | some stage =>
    rw [value?_eq found, Option.bind_eq_some_iff]
    constructor
    · rintro ⟨inputs, values, answer⟩
      refine ⟨stage, inputs, rfl, values, ?_⟩
      cases outcome : stage.answer setting inputs with
      | ok _ => simpa [outcome, Except.toOption] using answer
      | error _ => simp [outcome, Except.toOption] at answer
    · rintro ⟨_, inputs, same, values, answer⟩
      obtain rfl := Option.some.inj same
      exact ⟨inputs, values, by rw [answer]; rfl⟩

/-- Stages whose operations answer alike have the same value if their inputs have, under whatever numbers
they stand. -/
theorem value?_eq_of_inputs {setting' : RunSetting} {rename : Nat → Nat}
    (injective : Function.Injective rename) {id id' : Nat} {stage other : Stage}
    (found : setting.graph.stage? id = some stage) (found' : setting'.graph.stage? id' = some other)
    (reads : setting'.graph.inputsOf id' = (setting.graph.inputsOf id).map rename)
    (alike : ∀ inputs, (other.answer setting' inputs).toOption = (stage.answer setting inputs).toOption)
    (same : ∀ input, setting.graph.Reads id input → setting'.value? (rename input) = setting.value? input) :
    setting'.value? id' = setting.value? id := by
  have values : ((setting.graph.inputsOf id).map rename).eraseDups.mapM setting'.value? =
      (setting.graph.inputsOf id).eraseDups.mapM setting.value? := by
    rw [ListFacts.eraseDups_map injective, List.mapM_map]
    exact ListFacts.mapM_congr fun input member => same input (List.mem_eraseDups.mp member)
  rw [value?_eq found, value?_eq found', reads, values]
  exact Option.bind_congr fun inputs _ => alike inputs

theorem input_has_value {reader input : Nat} (reads : setting.graph.Reads reader input)
    (value : (setting.value? reader).isSome) : (setting.value? input).isSome := by
  obtain ⟨result, value⟩ := Option.isSome_iff_exists.mp value
  obtain ⟨_, inputs, _, values, _⟩ := value?_eq_some_iff.mp value
  have all := ListFacts.mapM_isSome_iff.mp (Option.isSome_iff_exists.mpr ⟨inputs, values⟩)
  exact all input (List.mem_eraseDups.mpr reads)

theorem has_value_of_path {reader input : Nat} (path : ReflTransGen setting.graph.Reads reader input)
    (value : (setting.value? reader).isSome) : (setting.value? input).isSome := by
  induction path with
  | refl => exact value
  | tail _ reads ih => exact input_has_value reads ih

theorem Fails.value?_eq_none {id : Nat} {error : ExecutionError} (fails : setting.Fails id error) :
    setting.value? id = none := by
  obtain ⟨stage, inputs, found, values, answer⟩ := fails
  simp [value?_eq found, values, answer, Except.toOption]

/-- Nothing that needs a failing stage has a value. -/
theorem Fails.no_value {reader id : Nat} {error : ExecutionError} (fails : setting.Fails id error)
    (path : ReflTransGen setting.graph.Reads reader id) : setting.value? reader = none := by
  cases value : setting.value? reader with
  | none => rfl
  | some result =>
    have := has_value_of_path path (Option.isSome_iff_exists.mpr ⟨result, value⟩)
    simp [fails.value?_eq_none] at this

end MetricEngine.RunSetting
