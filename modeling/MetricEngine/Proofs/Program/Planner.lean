import MetricEngine.Program.Planner
import MetricEngine.Proofs.Graph.Order

/-!
What planning keeps. Each specification adds one stage, which uses earlier stages only, and names are
bound to stages that were built. So the graph of every program is well formed.
-/
namespace MetricEngine

/-- The stages that a stage reads or extends. -/
def Stage.uses (stage : Stage) : List Nat :=
  stage.inputs ++ stage.liftedFrom.toList

theorem Stage.isSelect_of_query? {stage : Stage} {query : Query} (asks : stage.query? = some query) :
    stage.isSelect := by
  simp [isSelect, asks]

theorem Stage.work_of_query? {stage : Stage} {query : Query} (asks : stage.query? = some query) :
    stage.work = .select query := by
  cases work : stage.work with
  | select other => simpa [query?, work] using asks
  | aggregate kind operation => simp [query?, work] at asks

namespace Draft
variable {draft : Draft}

/-- Whether a stage has been built. -/
def Has (draft : Draft) (id : Nat) : Prop :=
  0 < id ∧ id ≤ draft.stages.size

structure Sound (draft : Draft) : Prop where
  numbered : ∀ {id stage}, draft.stage? id = some stage → stage.id = id
  earlier : ∀ {id stage}, draft.stage? id = some stage →
    ∀ used ∈ stage.uses, 0 < used ∧ used < id
  alone : ∀ {id stage}, draft.stage? id = some stage → stage.isSelect → stage.inputs = []
  bound : ∀ {name id}, draft.lookup? name = some id → draft.Has id

theorem stage?_isSome_iff {id : Nat} : (draft.stage? id).isSome ↔ draft.Has id :=
  Graph.stage?_isSome_iff

/-- The stages of a draft are those of the graph that is made of it. -/
theorem stage?_of_all {graph : Graph} (stages : graph.all = draft.stages) (id : Nat) :
    graph.stage? id = draft.stage? id := by
  simp only [stage?, Graph.stage?, stages]

theorem stage?_push {next : Draft} {stage : Stage} (stages : next.stages = draft.stages.push stage)
    (id : Nat) :
    next.stage? id = if id = draft.stages.size + 1 then some stage else draft.stage? id := by
  cases id with
  | zero => simp [stage?, Graph.stage?]
  | succ index =>
    simp only [stage?, Graph.stage?, stages, Array.getElem?_push, Nat.add_right_cancel_iff]

theorem has_of_stage? {id : Nat} {stage : Stage} (found : draft.stage? id = some stage) : draft.Has id :=
  stage?_isSome_iff.mp (Option.isSome_iff_exists.mpr ⟨stage, found⟩)

/-- The stages after a push are the new one and the old ones. -/
theorem stage?_push_iff {next : Draft} {stage any : Stage} (stages : next.stages = draft.stages.push stage)
    {id : Nat} :
    next.stage? id = some any ↔
      id = draft.stages.size + 1 ∧ stage = any ∨ draft.stage? id = some any := by
  rw [stage?_push stages]
  split
  next same =>
    subst same
    have absent : draft.stage? (draft.stages.size + 1) ≠ some any :=
      fun found => absurd (has_of_stage? found).2 (Nat.not_succ_le_self _)
    simp [absent]
  next different => simp [different]

/-- The selects among the stages of a list. -/
def selectsAmong (draft : Draft) (ids : List Nat) : List Nat :=
  ids.filter fun id => ((draft.stage? id).map Stage.isSelect).getD false

theorem mem_selectsAmong_iff {id : Nat} {ids : List Nat} :
    id ∈ draft.selectsAmong ids ↔
      id ∈ ids ∧ ∃ stage, draft.stage? id = some stage ∧ stage.isSelect := by
  rw [selectsAmong, List.mem_filter]
  cases draft.stage? id <;> simp

theorem last?_has {id : Nat} (last : draft.last? = some id) : draft.Has id := by
  rw [last?] at last
  split at last
  · simp at last
  next filled =>
    obtain rfl := Option.some.inj last
    refine ⟨Nat.pos_of_ne_zero fun empty => filled ?_, Nat.le_refl _⟩
    simpa [Array.isEmpty] using empty

theorem last?_of_pos (filled : 0 < draft.stages.size) : draft.last? = some draft.stages.size := by
  rw [last?, if_neg]
  simpa [Array.isEmpty] using Nat.ne_of_gt filled

theorem lookup?_cons (draft : Draft) (name other : String) (id : Nat) :
    ({ draft with bindings := (name, id) :: draft.bindings } : Draft).lookup? other =
      if name = other then some id else draft.lookup? other := by
  unfold lookup?
  rw [List.find?_cons]
  by_cases same : name = other <;> simp [same]

namespace Sound

theorem empty : Draft.empty.Sound := by
  have none : ∀ id, Draft.empty.stage? id = none := by
    intro id
    cases id <;> simp [Draft.empty, stage?, Graph.stage?]
  refine ⟨?_, ?_, ?_, ?_⟩
  · simp [none]
  · simp [none]
  · simp [none]
  · simp [Draft.empty, lookup?]

theorem push (sound : draft.Sound) {next : Draft} {stage : Stage}
    (stages : next.stages = draft.stages.push stage) (bindings : next.bindings = draft.bindings)
    (numbered : stage.id = draft.stages.size + 1) (uses : ∀ used ∈ stage.uses, draft.Has used)
    (alone : stage.isSelect → stage.inputs = []) : next.Sound := by
  refine ⟨?_, ?_, ?_, ?_⟩
  · intro id other found
    rcases (stage?_push_iff stages).mp found with ⟨rfl, rfl⟩ | before
    · exact numbered
    · exact sound.numbered before
  · intro id other found used member
    rcases (stage?_push_iff stages).mp found with ⟨rfl, rfl⟩ | before
    · obtain ⟨positive, built⟩ := uses used member
      exact ⟨positive, Nat.lt_succ_of_le built⟩
    · exact sound.earlier before used member
  · intro id other found
    rcases (stage?_push_iff stages).mp found with ⟨rfl, rfl⟩ | before
    · exact alone
    · exact sound.alone before
  · intro name id found
    have was_found : draft.lookup? name = some id := by simpa only [lookup?, bindings] using found
    obtain ⟨positive, built⟩ := sound.bound was_found
    refine ⟨positive, Nat.le_trans built ?_⟩
    rw [stages, Array.size_push]
    exact Nat.le_succ _

theorem bind {next : Draft} {spec : StageSpec} (sound : draft.Sound) (filled : 0 < draft.stages.size)
    (bound : draft.bind spec = .ok next) : next.Sound := by
  rw [Draft.bind] at bound
  split at bound
  next => exact Except.ok.inj bound ▸ sound
  next name _ =>
    split at bound
    · simp at bound
    · obtain rfl := Except.ok.inj bound
      refine ⟨sound.numbered, sound.earlier, sound.alone, ?_⟩
      intro other id found
      rw [lookup?_cons] at found
      split at found
      · exact Option.some.inj found ▸ ⟨filled, Nat.le_refl _⟩
      · exact sound.bound found

theorem resolve (sound : draft.Sound) {spec : StageSpec} {inputs : List Nat}
    (resolved : draft.resolve spec = .ok inputs) : ∀ input ∈ inputs, draft.Has input := by
  rw [Draft.resolve] at resolved
  split at resolved
  next names _ =>
    clear * - sound resolved
    induction names generalizing inputs with
    | nil =>
      obtain rfl := Except.ok.inj resolved
      simp
    | cons name names ih =>
      rw [List.mapM_cons] at resolved
      cases found : draft.lookup? name with
      | none => simp [found, Bind.bind, Except.bind] at resolved
      | some id =>
        simp only [found, Bind.bind, Except.bind, Pure.pure, Except.pure] at resolved
        split at resolved
        · simp at resolved
        next rest others =>
          obtain rfl := Except.ok.inj resolved
          intro input member
          rcases List.mem_cons.mp member with rfl | member
          · exact sound.bound found
          · exact ih others input member
  next =>
    obtain rfl := Except.ok.inj resolved
    intro input member
    exact last?_has (Option.mem_toList.mp member)

end Sound
end Draft

theorem except_map_eq_ok {ε α β : Type} {f : α → β} {result : Except ε α} {b : β}
    (mapped : result.map f = .ok b) : ∃ a, result = .ok a ∧ f a = b := by
  cases result with
  | error error => simp [Except.map] at mapped
  | ok a => exact ⟨a, rfl, Except.ok.inj mapped⟩

theorem except_bind_eq_ok {ε α β : Type} {result : Except ε α} {f : α → Except ε β} {b : β}
    (bound : result >>= f = .ok b) : ∃ a, result = .ok a ∧ f a = .ok b := by
  cases result with
  | error error => simp [Bind.bind, Except.bind] at bound
  | ok a => exact ⟨a, rfl, bound⟩

namespace Planner
variable {planner : Planner} {now : Instant} {draft next : Draft} {spec : StageSpec}

/-- The query of a select and the arguments that it was read from. -/
def selection (planner : Planner) (now : Instant) (range : Option TimeRange) (spec : StageSpec) :
    Except BuildError Query × Arguments :=
  let (metric, arguments) := (readSelection spec.operation).on spec.args
  let range := (spec.range.or range).getD (.endingAt now planner.defaults.lookback)
  (metric.map fun metric => ⟨range, [metric]⟩, arguments)

theorem addSelect_eq (planner : Planner) (now : Instant) (draft : Draft) (spec : StageSpec) :
    planner.addSelect now draft spec =
      if spec.inputs.isSome then .error (.invalidArgument "dependencies" .selectWithInputs)
      else
        let (query, arguments) := planner.selection now draft.range spec
        query.map fun query =>
          { draft.push spec (.select query) [] arguments none with range := some query.range } := by
  unfold addSelect selection
  by_cases given : spec.inputs.isSome
  · simp only [given, if_true]
    rfl
  · simp only [given]
    cases (readSelection spec.operation).on spec.args with
    | mk metric arguments => cases metric <;> rfl

theorem lift_eq (planner : Planner) (draft : Draft) (spec : StageSpec) (kind : AggregatorKind)
    (select : Nat) (query : Query) :
    planner.lift draft spec kind select query =
      let (aggregation, arguments) := (Aggregation.read kind planner.defaults.sampling).on spec.args
      aggregation.map fun aggregation =>
        { draft.push spec (.select (query.withAggregator aggregation.toAggregator)) [] arguments
            (some select) with
          consumed := select :: draft.consumed
          lifted := draft.lifted ++ [kind] } := by
  rw [lift]
  cases (Aggregation.read kind planner.defaults.sampling).on spec.args with
  | mk aggregation arguments => cases aggregation <;> rfl

theorem addOwnStage_eq (planner : Planner) (draft : Draft) (spec : StageSpec) (kind : AggregatorKind)
    (inputs : List Nat) :
    planner.addOwnStage draft spec kind inputs =
      let (operation, arguments) := (Operation.read kind planner.defaults).on spec.args
      operation.map fun operation =>
        { draft.push spec (.aggregate kind operation) inputs arguments none with
          consumed := draft.selectsAmong inputs ++ draft.consumed } := by
  rw [addOwnStage]
  cases (Operation.read kind planner.defaults).on spec.args with
  | mk operation arguments => cases operation <;> rfl

theorem addAggregate_ok (added : planner.addAggregate draft spec = .ok next) :
    ∃ inputs kind, draft.resolve spec = .ok inputs ∧
      AggregatorKind.ofName? spec.operation = some kind ∧
      (planner.addOwnStage draft spec kind inputs = .ok next ∨
        planner.lifting ∧ ∃ select query, draft.liftable? kind inputs = some (select, query) ∧
          planner.lift draft spec kind select query = .ok next) := by
  rw [addAggregate] at added
  cases resolved : draft.resolve spec with
  | error error => simp [resolved, bind, Except.bind] at added
  | ok inputs =>
    refine ⟨inputs, ?_⟩
    simp only [resolved, bind, Except.bind] at added
    split at added
    · simp [throw, throwThe, MonadExceptOf.throw] at added
    next kind named =>
      refine ⟨kind, rfl, named, ?_⟩
      split at added
      · simp [throw, throwThe, MonadExceptOf.throw] at added
      · split at added
        next select query found =>
          split at found
          next lifting => exact .inr ⟨lifting, select, query, found, added⟩
          next => simp at found
        next => exact .inl added

theorem liftable?_eq_some {kind : AggregatorKind} {inputs : List Nat} {select : Nat} {query : Query}
    (liftable : draft.liftable? kind inputs = some (select, query)) :
    inputs = [select] ∧ kind.isLiftable ∧ select ∉ draft.consumed ∧
      (draft.stage? select).bind Stage.query? = some query := by
  unfold Draft.liftable? at liftable
  split at liftable
  next only =>
    split at liftable
    next allowed =>
      obtain ⟨found, query_found, same⟩ := Option.map_eq_some_iff.mp liftable
      obtain ⟨rfl, rfl⟩ := Prod.mk.inj same
      simp only [Bool.and_eq_true, Bool.not_eq_true', List.contains_eq_mem,
        decide_eq_false_iff_not] at allowed
      exact ⟨rfl, allowed.1, allowed.2, query_found⟩
    next => simp at liftable
  next => simp at liftable

theorem addStage_sound (sound : draft.Sound) (added : planner.addStage now draft spec = .ok next) :
    next.Sound ∧ 0 < next.stages.size := by
  have pushed : ∀ {stage : Stage}, next.stages = draft.stages.push stage →
      next.bindings = draft.bindings → stage.id = draft.stages.size + 1 →
      (∀ used ∈ stage.uses, draft.Has used) → (stage.isSelect → stage.inputs = []) →
      next.Sound ∧ 0 < next.stages.size := by
    intro stage stages bindings numbered uses alone
    refine ⟨sound.push stages bindings numbered uses alone, ?_⟩
    rw [stages, Array.size_push]
    exact Nat.succ_pos _
  rw [addStage] at added
  split at added
  next =>
    rw [addSelect_eq] at added
    split at added
    · simp at added
    · obtain ⟨query, _, rfl⟩ := except_map_eq_ok added
      exact pushed rfl rfl rfl (by simp [Stage.uses]) fun _ => rfl
  next =>
    obtain ⟨inputs, kind, resolved, _, own | ⟨_, select, query, liftable, lifted⟩⟩ :=
      addAggregate_ok added
    · rw [addOwnStage_eq] at own
      obtain ⟨operation, _, rfl⟩ := except_map_eq_ok own
      refine pushed rfl rfl rfl ?_ fun select => by simp [Stage.isSelect, Stage.query?] at select
      simpa [Stage.uses] using sound.resolve resolved
    · rw [lift_eq] at lifted
      obtain ⟨aggregation, _, rfl⟩ := except_map_eq_ok lifted
      obtain ⟨rfl, _, _, _⟩ := liftable?_eq_some liftable
      refine pushed rfl rfl rfl ?_ fun _ => rfl
      simpa [Stage.uses] using sound.resolve resolved

theorem graph_wellFormed (sound : draft.Sound) {root : Nat} (last : draft.last? = some root) :
    (Graph.mk draft.stages root).WellFormed where
  numbered := sound.numbered
  inputs found input member := sound.earlier found input (List.mem_append_left _ member)
  root := Draft.stage?_isSome_iff.mpr (Draft.last?_has last)

/-- A property of drafts that each step keeps holds of the draft that a graph is made of. The property may
speak of the specifications that the draft was made from. -/
theorem planFrom_keeps (property : List StageSpec → Draft → Prop)
    (keeps : ∀ {before draft spec added bound}, draft.Sound → property before draft →
      planner.addStage now draft spec = .ok added → added.bind spec = .ok bound →
      property (before ++ [spec]) bound)
    {graph : Graph} (before : List StageSpec) {program : List StageSpec}
    (built : (planner.planFrom now draft program).outcome = .ok graph) (sound : draft.Sound)
    (holds : property before draft) :
    ∃ final : Draft, final.Sound ∧ property (before ++ program) final ∧
      final.last? = some graph.root ∧ graph.all = final.stages := by
  induction program generalizing before draft with
  | nil =>
    rw [planFrom] at built
    split at built
    next root last =>
      obtain rfl := Except.ok.inj built
      exact ⟨draft, sound, by simpa using holds, last, rfl⟩
    next => simp at built
  | cons spec rest ih =>
    rw [planFrom] at built
    split at built
    · simp at built
    next added step =>
      obtain ⟨added_sound, filled⟩ := addStage_sound sound step
      split at built
      · simp at built
      next bound binding =>
        have final := ih _ built (added_sound.bind filled binding) (keeps sound holds step binding)
        simpa using final

theorem planFrom_ok {graph : Graph} {program : List StageSpec}
    (built : (planner.planFrom now draft program).outcome = .ok graph) (sound : draft.Sound) :
    ∃ final : Draft, final.Sound ∧ final.last? = some graph.root ∧ graph.all = final.stages := by
  obtain ⟨final, sound, _, last, stages⟩ :=
    planFrom_keeps (fun _ _ => True) (fun _ _ _ _ => trivial) [] built sound trivial
  exact ⟨final, sound, last, stages⟩

/-- The graph of every program is well formed. -/
theorem build_wellFormed {graph : Graph} {program : List StageSpec}
    (built : planner.build now program = .ok graph) : graph.WellFormed := by
  obtain ⟨final, sound, last, stages⟩ := planFrom_ok built .empty
  have formed := graph_wellFormed sound last
  rwa [← stages] at formed

theorem build_select_inputs {graph : Graph} {program : List StageSpec}
    (built : planner.build now program = .ok graph) {id : Nat} {stage : Stage}
    (found : graph.stage? id = some stage) (select : stage.isSelect) : stage.inputs = [] := by
  obtain ⟨final, sound, _, stages⟩ := planFrom_ok built .empty
  rw [Draft.stage?_of_all stages] at found
  exact sound.alone found select

end Planner
end MetricEngine
