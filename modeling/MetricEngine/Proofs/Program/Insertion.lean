import MetricEngine.Proofs.Program.Acceptance
import MetricEngine.Proofs.Program.Lineage

/-!
Planning a program with one more aggregate in it, on which no later specification depends. The stages behind
it get the next number and are the same otherwise, but for those that were lifted from a select that the new
stage uses: these read the select by themselves, and so do those that were lifted from them.
-/
namespace MetricEngine

/-- The number of a stage after one more was put behind the first `k`. -/
def shifted (k id : Nat) : Nat :=
  if id ≤ k then id else id + 1

section Shifted
variable {k id other : Nat}

theorem shifted_of_le (le : id ≤ k) : shifted k id = id :=
  if_pos le

theorem shifted_of_lt (lt : k < id) : shifted k id = id + 1 :=
  if_neg (Nat.not_le.mpr lt)

theorem shifted_injective (k : Nat) : Function.Injective (shifted k) := by
  intro id other same
  unfold shifted at same
  split at same <;> split at same <;> omega

theorem shifted_le (k id : Nat) : shifted k id ≤ id + 1 := by
  unfold shifted
  split <;> omega

end Shifted

/-- No stage can be lifted from a select any more: the new stage uses it, or it is no select now. -/
def Taken (k : Nat) (stage'? : Nat → Option Stage) (select : Nat) : Prop :=
  (∃ extra, stage'? (k + 1) = some extra ∧ select ∈ extra.uses) ∨
    ∃ other, stage'? (shifted k select) = some other ∧ other.query? = none

/-- What becomes of a stage of a program when one is put behind the first `k`. -/
inductive Shift (k : Nat) (stage? stage'? : Nat → Option Stage) : Stage → Stage → Prop where
  | same {id name work inputs unknown liftedFrom} :
      Shift k stage? stage'? ⟨id, name, work, inputs, unknown, liftedFrom⟩
        ⟨shifted k id, name, work, inputs.map (shifted k), unknown, liftedFrom.map (shifted k)⟩
  | unlifted {id name unknown select base query} {aggregation : Aggregation} :
      k < id → stage? select = some base → base.query? = some query → aggregation.Statable →
      Taken k stage'? select →
      Shift k stage? stage'?
        ⟨id, name, .select (query.withAggregator aggregation.toAggregator), [], unknown, some select⟩
        ⟨shifted k id, name, .aggregate aggregation.function.kind aggregation.toOperation,
          [shifted k select], unknown, none⟩

section Shift
variable {k : Nat} {old new old' new' : Nat → Option Stage} {stage other : Stage}

theorem Taken.mono {select : Nat} (kept : ∀ {id stage}, old' id = some stage → new' id = some stage)
    (taken : Taken k old' select) : Taken k new' select := by
  rcases taken with ⟨extra, found, uses⟩ | ⟨other, found, none⟩
  · exact .inl ⟨extra, kept found, uses⟩
  · exact .inr ⟨other, kept found, none⟩

theorem Shift.mono (kept : ∀ {id stage}, old id = some stage → new id = some stage)
    (kept' : ∀ {id stage}, old' id = some stage → new' id = some stage)
    (shift : Shift k old old' stage other) : Shift k new new' stage other := by
  cases shift with
  | same => exact .same
  | unlifted behind found asks statable taken =>
    exact .unlifted behind (kept found) asks statable (taken.mono kept')

/-- Selects stay what they are or cease to be selects. -/
theorem Shift.query?_eq (shift : Shift k old old' stage other) :
    other.query? = stage.query? ∨ other.query? = none := by
  cases shift with
  | same => exact .inl rfl
  | unlifted => exact .inr rfl

/-- The stages up to the place of the new one stay what they are. -/
theorem Shift.of_le (number : stage.id ≤ k) (uses : ∀ used ∈ stage.uses, used ≤ k) :
    Shift k old old' stage stage := by
  obtain ⟨id, name, work, inputs, unknown, liftedFrom⟩ := stage
  have same_number : shifted k id = id := shifted_of_le number
  have same_inputs : inputs.map (shifted k) = inputs := by
    refine (List.map_congr_left fun input member => ?_).trans (List.map_id _)
    exact shifted_of_le (uses input (List.mem_append_left _ member))
  have same_origin : liftedFrom.map (shifted k) = liftedFrom := by
    cases liftedFrom with
    | none => rfl
    | some origin => rw [Option.map_some, shifted_of_le (uses origin (by simp [Stage.uses]))]
  have shift : Shift k old old' ⟨id, name, work, inputs, unknown, liftedFrom⟩ _ := .same
  rwa [same_number, same_inputs, same_origin] at shift

/-- No stage becomes a select. -/
theorem Shift.query?_of_asks (shift : Shift k old old' stage other) {query : Query}
    (asks : other.query? = some query) : stage.query? = some query := by
  rcases shift.query?_eq with unchanged | none
  · exact unchanged ▸ asks
  · simp [none] at asks

theorem Shift.isSelect (shift : Shift k old old' stage other) (select : other.isSelect) :
    stage.isSelect := by
  obtain ⟨query, asks⟩ := Option.isSome_iff_exists.mp select
  exact Stage.isSelect_of_query? (shift.query?_of_asks asks)

end Shift

namespace Draft

/-- Only stages that have been built can be consumed. -/
def ConsumesBuilt (draft : Draft) : Prop :=
  ∀ id ∈ draft.consumed, draft.Has id

/-- Drafts of one program without and with one more stage behind the first `k`. -/
structure Inserted (k : Nat) (binding : Option String) (draft draft' : Draft) : Prop where
  size : draft'.stages.size = draft.stages.size + 1
  behind : k ≤ draft.stages.size
  range : draft'.range = draft.range
  lookup : ∀ name, binding ≠ some name →
    draft'.lookup? name = (draft.lookup? name).map (shifted k)
  stages : ∀ {id stage}, draft.stage? id = some stage →
    ∃ other, draft'.stage? (shifted k id) = some other ∧
      Shift k draft.stage? draft'.stage? stage other
  built : draft.ConsumesBuilt
  kept : ∀ {id other}, id ∈ draft.consumed → draft'.stage? (shifted k id) = some other →
    other.isSelect → shifted k id ∈ draft'.consumed
  fresh : ∀ {id}, shifted k id ∈ draft'.consumed →
    id ∈ draft.consumed ∨ Taken k draft'.stage? id

/-- The drafts after one more specification. -/
abbrev StillInserted (k : Nat) (binding : Option String) (draft draft' : Draft) : Prop :=
  Inserted k binding draft draft' ∧ k < draft.stages.size

namespace Inserted
variable {k : Nat} {binding : Option String} {draft draft' next next' : Draft}

theorem new_number (inserted : Inserted k binding draft draft') :
    draft'.stages.size + 1 = shifted k (draft.stages.size + 1) := by
  rw [shifted_of_lt (Nat.lt_succ_of_le inserted.behind), inserted.size]

/-- What stands at the new number of a stage has become of it. -/
theorem of_shifted (inserted : Inserted k binding draft draft') {id : Nat} {other : Stage}
    (has : draft.Has id) (found' : draft'.stage? (shifted k id) = some other) :
    ∃ stage, draft.stage? id = some stage ∧ Shift k draft.stage? draft'.stage? stage other := by
  obtain ⟨stage, found⟩ := Option.isSome_iff_exists.mp (stage?_isSome_iff.mpr has)
  obtain ⟨_, same, shift⟩ := inserted.stages found
  obtain rfl := Option.some.inj (found'.symm.trans same)
  exact ⟨stage, found, shift⟩

theorem push (inserted : Inserted k binding draft draft') {stage other : Stage}
    (stages : next.stages = draft.stages.push stage) (stages' : next'.stages = draft'.stages.push other)
    (bindings : next.bindings = draft.bindings) (bindings' : next'.bindings = draft'.bindings)
    (range : next'.range = next.range) (shift : Shift k draft.stage? draft'.stage? stage other)
    (built : ∀ id ∈ next.consumed, draft.Has id)
    (kept : ∀ {id other}, id ∈ next.consumed → draft'.stage? (shifted k id) = some other →
      other.isSelect → shifted k id ∈ next'.consumed)
    (fresh : ∀ {id}, shifted k id ∈ next'.consumed →
      id ∈ next.consumed ∨ Taken k draft'.stage? id) :
    StillInserted k binding next next' := by
  have keeps : ∀ {id old}, draft.stage? id = some old → next.stage? id = some old :=
    fun found => (stage?_push_iff stages).mpr (.inr found)
  have keeps' : ∀ {id old}, draft'.stage? id = some old → next'.stage? id = some old :=
    fun found => (stage?_push_iff stages').mpr (.inr found)
  have size : next.stages.size = draft.stages.size + 1 := by rw [stages, Array.size_push]
  have behind : k < next.stages.size := size ▸ Nat.lt_succ_of_le inserted.behind
  refine ⟨⟨?_, Nat.le_of_lt behind, range, ?_, ?_, ?_, ?_, ?_⟩, behind⟩
  · rw [stages', Array.size_push, inserted.size, size]
  · intro name different
    simpa only [lookup?, bindings, bindings'] using inserted.lookup name different
  · intro id added found
    rcases (stage?_push_iff stages).mp found with ⟨rfl, rfl⟩ | found
    · exact ⟨other, (stage?_push_iff stages').mpr (.inl ⟨inserted.new_number.symm, rfl⟩),
        shift.mono keeps keeps'⟩
    · obtain ⟨before, found, shift⟩ := inserted.stages found
      exact ⟨before, keeps' found, shift.mono keeps keeps'⟩
  · intro id used
    obtain ⟨positive, within⟩ := built id used
    exact ⟨positive, by omega⟩
  · intro id later used found select
    rcases (stage?_push_iff stages').mp found with ⟨last, _⟩ | found
    · have := (built id used).2
      have := shifted_le k id
      have := inserted.size
      omega
    · exact kept used found select
  · intro id used
    exact (fresh used).imp_right (Taken.mono keeps')

/-! Names. -/

theorem bind (inserted : Inserted k binding draft draft') (behind : k < draft.stages.size)
    {spec : StageSpec} (different : ∀ name, binding = some name → spec.binding ≠ some name) :
    Agree (StillInserted k binding) (draft.bind spec) (draft'.bind spec) := by
  unfold Draft.bind
  split
  next => exact .ok ⟨inserted, behind⟩
  next name named =>
    have lookup := inserted.lookup name fun same => different name same named
    rw [lookup, Option.isSome_map]
    split
    · exact .error
    · refine .ok ⟨⟨inserted.size, inserted.behind, inserted.range, ?_, inserted.stages, inserted.built,
        inserted.kept, inserted.fresh⟩, behind⟩
      intro other different
      rw [lookup?_cons, lookup?_cons]
      split
      · rw [Option.map_some, shifted_of_lt behind, inserted.size]
      · exact inserted.lookup other different

/-- A later aggregate that names its inputs, the new stage not among them, reads the same stages. -/
theorem resolve_eq (inserted : Inserted k binding draft draft') {spec : StageSpec} {names : List String}
    (given : spec.inputs = some names) (unused : ∀ name, binding = some name → name ∉ names) :
    draft'.resolve spec = (draft.resolve spec).map (·.map (shifted k)) := by
  rw [Draft.resolve, Draft.resolve, given]
  refine ListFacts.mapM_map_eq fun name member => ?_
  rw [inserted.lookup name fun same => unused name same member]
  cases draft.lookup? name <;> rfl

/-! What can be lifted. -/

theorem liftable?_eq_some_iff {kind : AggregatorKind} {inputs : List Nat} {select : Nat}
    {query : Query} :
    draft.liftable? kind inputs = some (select, query) ↔
      inputs = [select] ∧ kind.isLiftable ∧ select ∉ draft.consumed ∧
        (draft.stage? select).bind Stage.query? = some query := by
  constructor
  · exact Planner.liftable?_eq_some
  · rintro ⟨rfl, liftable, unused, asks⟩
    simp [liftable?, liftable, unused, asks]

/-- The new stage makes no more aggregators liftable. -/
theorem liftable?_eq_none (inserted : Inserted k binding draft draft') {kind : AggregatorKind}
    {inputs : List Nat} (built : ∀ input ∈ inputs, draft.Has input)
    (plain : draft.liftable? kind inputs = none) :
    draft'.liftable? kind (inputs.map (shifted k)) = none := by
  refine Option.eq_none_iff_forall_ne_some.mpr fun ⟨select', query⟩ liftable => ?_
  obtain ⟨only, is_liftable, unused, asks⟩ := liftable?_eq_some_iff.mp liftable
  obtain ⟨select, rfl, rfl⟩ := List.map_eq_singleton_iff.mp only
  obtain ⟨other, found', asks⟩ := Option.bind_eq_some_iff.mp asks
  obtain ⟨stage, found, shift⟩ := inserted.of_shifted (built select List.mem_cons_self) found'
  have was_liftable : draft.liftable? kind [select] = some (select, query) := by
    refine liftable?_eq_some_iff.mpr ⟨rfl, is_liftable, fun used => unused ?_, ?_⟩
    · exact inserted.kept used found' (Stage.isSelect_of_query? asks)
    · rw [found, Option.bind_some, shift.query?_of_asks asks]
  simp [was_liftable] at plain

/-- An aggregator stays liftable unless its select is taken. -/
theorem liftable?_eq_some (inserted : Inserted k binding draft draft') {kind : AggregatorKind}
    {inputs : List Nat} {select : Nat} {query : Query}
    (liftable : draft.liftable? kind inputs = some (select, query)) :
    draft'.liftable? kind (inputs.map (shifted k)) = some (shifted k select, query) ∨
      draft'.liftable? kind (inputs.map (shifted k)) = none ∧ Taken k draft'.stage? select := by
  obtain ⟨rfl, is_liftable, unused, asks⟩ := liftable?_eq_some_iff.mp liftable
  obtain ⟨base, found, asks⟩ := Option.bind_eq_some_iff.mp asks
  obtain ⟨other, found', shift⟩ := inserted.stages found
  by_cases used : shifted k select ∈ draft'.consumed
  · refine .inr ⟨?_, (inserted.fresh used).resolve_left unused⟩
    simp [liftable?, used]
  · rcases shift.query?_eq with unchanged | none
    · refine .inl (liftable?_eq_some_iff.mpr ⟨rfl, is_liftable, used, ?_⟩)
      rw [found', Option.bind_some, unchanged, asks]
    · refine .inr ⟨?_, .inr ⟨other, found', none⟩⟩
      simp [liftable?, found', none]

end Inserted
end Draft

/-- An aggregate behind the first specifications of a program. It can be built there, and no later
specification depends on it: there is one, later aggregates name their inputs, and none uses its name. -/
structure Insertion (defaults : PlanDefaults) (before : List StageSpec) (extra : StageSpec)
    (after : List StageSpec) : Prop where
  aggregate : extra.kind = .aggregate
  acceptable : extra.Acceptable defaults before
  goes_on : after ≠ []
  named : ∀ spec ∈ after, spec.kind = .aggregate → spec.inputs.isSome
  unused : ∀ spec ∈ after, ∀ name, extra.binding = some name →
    spec.binding ≠ some name ∧ name ∉ spec.inputs.getD []

namespace Planner
open Draft
variable {planner : Planner} {now : Instant} {k : Nat} {binding : Option String}
  {draft draft' added bound : Draft} {spec : StageSpec}

theorem addSelect_inserted (inserted : Inserted k binding draft draft') :
    Agree (StillInserted k binding) (planner.addSelect now draft spec)
      (planner.addSelect now draft' spec) := by
  rw [addSelect_eq, addSelect_eq, inserted.range]
  split
  · exact .error
  · cases planner.selection now draft.range spec with
    | mk query arguments =>
      cases query with
      | error error => exact .error
      | ok query =>
        refine .ok (inserted.push rfl rfl rfl rfl rfl ?_ inserted.built inserted.kept inserted.fresh)
        rw [inserted.new_number]
        exact .same

theorem addOwnStage_inserted (inserted : Inserted k binding draft draft') (kind : AggregatorKind)
    {inputs : List Nat} (built : ∀ input ∈ inputs, draft.Has input) :
    Agree (StillInserted k binding) (planner.addOwnStage draft spec kind inputs)
      (planner.addOwnStage draft' spec kind (inputs.map (shifted k))) := by
  rw [addOwnStage_eq, addOwnStage_eq]
  cases (Operation.read kind planner.defaults).on spec.args with
  | mk operation arguments =>
    cases operation with
    | error error => exact .error
    | ok operation =>
      refine .ok (inserted.push rfl rfl rfl rfl inserted.range ?_ ?_ ?_ ?_)
      · rw [inserted.new_number]
        exact .same
      · exact List.forall_mem_append.mpr
          ⟨fun id reads => built id (mem_selectsAmong_iff.mp reads).1, inserted.built⟩
      · intro id other used found select
        refine List.mem_append.mpr ?_
        refine (List.mem_append.mp used).imp (fun reads => ?_) fun before =>
          inserted.kept before found select
        have read := (mem_selectsAmong_iff.mp reads).1
        exact mem_selectsAmong_iff.mpr ⟨List.mem_map_of_mem read, other, found, select⟩
      · intro id used
        rcases List.mem_append.mp used with reads | before
        · obtain ⟨member, other, found', select⟩ := mem_selectsAmong_iff.mp reads
          have read : id ∈ inputs := (List.mem_map_of_injective (shifted_injective k)).mp member
          obtain ⟨stage, found, shift⟩ := inserted.of_shifted (built id read) found'
          have was_select := shift.isSelect select
          exact .inl (List.mem_append_left _
            (mem_selectsAmong_iff.mpr ⟨read, stage, found, was_select⟩))
        · exact (inserted.fresh before).imp_left (List.mem_append_right _)

theorem lift_inserted (inserted : Inserted k binding draft draft') (kind : AggregatorKind)
    {select : Nat} (built : draft.Has select) (query : Query) :
    Agree (StillInserted k binding) (planner.lift draft spec kind select query)
      (planner.lift draft' spec kind (shifted k select) query) := by
  rw [lift_eq, lift_eq]
  cases (Aggregation.read kind planner.defaults.sampling).on spec.args with
  | mk aggregation arguments =>
    cases aggregation with
    | error error => exact .error
    | ok aggregation =>
      refine .ok (inserted.push rfl rfl rfl rfl inserted.range ?_ ?_ ?_ ?_)
      · rw [inserted.new_number]
        exact .same
      · exact List.forall_mem_cons.mpr ⟨built, inserted.built⟩
      · intro id other used found is_select
        rcases List.mem_cons.mp used with rfl | before
        · exact List.mem_cons_self
        · exact List.mem_cons_of_mem _ (inserted.kept before found is_select)
      · intro id used
        rcases List.mem_cons.mp used with same | before
        · exact .inl (shifted_injective k same ▸ List.mem_cons_self)
        · exact (inserted.fresh before).imp_left (List.mem_cons_of_mem _)

/-- An aggregator whose select is taken gets a stage that reads it. -/
theorem unlift_inserted (bounds : Period.InBounds planner.defaults.sampling)
    (inserted : Inserted k binding draft draft') {kind : AggregatorKind} {inputs : List Nat}
    {select : Nat} {query : Query}
    (liftable : draft.liftable? kind inputs = some (select, query))
    (taken : Taken k draft'.stage? select) :
    Agree (StillInserted k binding) (planner.lift draft spec kind select query)
      (planner.addOwnStage draft' spec kind (inputs.map (shifted k))) := by
  obtain ⟨rfl, is_liftable, _, asks⟩ := Inserted.liftable?_eq_some_iff.mp liftable
  obtain ⟨base, found, asks⟩ := Option.bind_eq_some_iff.mp asks
  rw [lift_eq, addOwnStage_eq, Aggregation.read_operation is_liftable]
  cases read : (Aggregation.read kind planner.defaults.sampling).on spec.args with
  | mk aggregation arguments =>
    cases aggregation with
    | error error => exact .error
    | ok aggregation =>
      obtain ⟨rfl, statable⟩ := (Aggregation.read_ensures bounds).on read
      refine .ok (inserted.push rfl rfl rfl rfl inserted.range ?_ ?_ ?_ ?_)
      · rw [inserted.new_number]
        exact .unlifted (Nat.lt_succ_of_le inserted.behind) found asks statable taken
      · exact List.forall_mem_cons.mpr ⟨has_of_stage? found, inserted.built⟩
      · intro id other used found' is_select
        refine List.mem_append.mpr ?_
        rcases List.mem_cons.mp used with rfl | before
        · exact .inl (mem_selectsAmong_iff.mpr ⟨List.mem_singleton_self _, other, found', is_select⟩)
        · exact .inr (inserted.kept before found' is_select)
      · intro id used
        rcases List.mem_append.mp used with reads | before
        · have same := List.mem_singleton.mp (mem_selectsAmong_iff.mp reads).1
          exact .inl (shifted_injective k same ▸ List.mem_cons_self)
        · exact (inserted.fresh before).imp_left (List.mem_cons_of_mem _)

theorem addAggregate_inserted (bounds : Period.InBounds planner.defaults.sampling)
    (sound : draft.Sound) (inserted : Inserted k binding draft draft') {names : List String}
    (given : spec.inputs = some names) (unused : ∀ name, binding = some name → name ∉ names) :
    Agree (StillInserted k binding) (planner.addAggregate draft spec)
      (planner.addAggregate draft' spec) := by
  unfold addAggregate
  rw [inserted.resolve_eq given unused]
  cases resolved : draft.resolve spec with
  | error error => exact .error
  | ok inputs =>
    have built := sound.resolve resolved
    cases AggregatorKind.ofName? spec.operation with
    | none => exact .error
    | some kind =>
      simp only [Bind.bind, Except.bind, Except.map, List.isEmpty_map]
      split
      · exact .error
      · cases planner.lifting with
        | false => exact addOwnStage_inserted inserted kind built
        | true =>
          simp only [if_true]
          cases liftable : draft.liftable? kind inputs with
          | none =>
            rw [inserted.liftable?_eq_none built liftable]
            exact addOwnStage_inserted inserted kind built
          | some found =>
            obtain ⟨select, query⟩ := found
            obtain ⟨only, _⟩ := Inserted.liftable?_eq_some_iff.mp liftable
            have has : draft.Has select := built select (by simp [only])
            rcases inserted.liftable?_eq_some liftable with lifted | ⟨own, taken⟩
            · rw [lifted]
              exact lift_inserted inserted kind has query
            · rw [own]
              exact unlift_inserted bounds inserted liftable taken

theorem addStage_inserted (bounds : Period.InBounds planner.defaults.sampling) (sound : draft.Sound)
    (inserted : Inserted k binding draft draft')
    (named : spec.kind = .aggregate → spec.inputs.isSome)
    (unused : ∀ name, binding = some name → name ∉ spec.inputs.getD []) :
    Agree (StillInserted k binding) (planner.addStage now draft spec)
      (planner.addStage now draft' spec) := by
  unfold addStage
  cases kind : spec.kind with
  | select => exact addSelect_inserted inserted
  | aggregate =>
    obtain ⟨names, given⟩ := Option.isSome_iff_exists.mp (named kind)
    exact addAggregate_inserted bounds sound inserted given (by simpa [given] using unused)

/-! The step that makes the difference. -/

/-- An aggregate adds one stage and consumes selects that this one uses. -/
theorem addAggregate_adds (step : planner.addAggregate draft spec = .ok added) :
    ∃ stage, added.stages = draft.stages.push stage ∧ added.bindings = draft.bindings ∧
      added.range = draft.range ∧ (∀ id ∈ draft.consumed, id ∈ added.consumed) ∧
      ∀ id ∈ added.consumed, id ∈ draft.consumed ∨ id ∈ stage.uses := by
  obtain ⟨inputs, kind, _, _, own | ⟨_, select, query, _, lifted⟩⟩ := addAggregate_ok step
  · rw [addOwnStage_eq] at own
    obtain ⟨operation, _, rfl⟩ := except_map_eq_ok own
    refine ⟨_, rfl, rfl, rfl, fun _ used => List.mem_append_right _ used, fun id used => ?_⟩
    refine (List.mem_append.mp used).symm.imp_right fun reads => ?_
    exact List.mem_append_left _ (mem_selectsAmong_iff.mp reads).1
  · rw [lift_eq] at lifted
    obtain ⟨aggregation, _, rfl⟩ := except_map_eq_ok lifted
    refine ⟨_, rfl, rfl, rfl, fun _ used => List.mem_cons_of_mem _ used, fun id used => ?_⟩
    refine (List.mem_cons.mp used).symm.imp_right fun same => ?_
    simp [same, Stage.uses]

/-- A stage consumes selects that it uses, and these have been built before. -/
theorem addStage_built (sound : draft.Sound) (built : draft.ConsumesBuilt)
    (step : planner.addStage now draft spec = .ok added) : ∀ id ∈ added.consumed, draft.Has id := by
  have added_sound := (addStage_sound sound step).1
  rw [addStage] at step
  split at step
  next =>
    rw [addSelect_eq] at step
    split at step
    · simp at step
    · obtain ⟨query, _, rfl⟩ := except_map_eq_ok step
      exact built
  next =>
    obtain ⟨stage, stages, _, _, _, fresh⟩ := addAggregate_adds step
    intro id used
    rcases fresh id used with before | uses
    · exact built id before
    · have new := (stage?_push_iff stages).mpr (.inl ⟨rfl, rfl⟩)
      have smaller := added_sound.earlier new id uses
      exact ⟨smaller.1, Nat.le_of_lt_succ smaller.2⟩

theorem bind_built (built : ∀ id ∈ added.consumed, draft.Has id)
    (adds : added.stages.size = draft.stages.size + 1) (binding : added.bind spec = .ok bound) :
    bound.ConsumesBuilt := by
  obtain ⟨stages, consumed⟩ := bind_keeps binding
  intro id used
  obtain ⟨positive, within⟩ := built id (consumed ▸ used)
  refine ⟨positive, ?_⟩
  rw [stages, adds]
  exact Nat.le_succ_of_le within

end Planner

/-- The new stage has just been put behind all others. -/
theorem Draft.Inserted.start {planner : Planner} {now : Instant} {draft added bound : Draft}
    {extra : StageSpec} (sound : draft.Sound) (built : draft.ConsumesBuilt)
    (aggregate : extra.kind = .aggregate) (step : planner.addStage now draft extra = .ok added)
    (binding : added.bind extra = .ok bound) :
    Inserted draft.stages.size extra.binding draft bound := by
  have consumes := Planner.addStage_built sound built step
  rw [Planner.addStage, aggregate] at step
  obtain ⟨stage, stages, bindings, range, kept, fresh⟩ := Planner.addAggregate_adds step
  obtain ⟨same_stages, same_consumed⟩ := bind_keeps binding
  obtain ⟨same_range, same_lookup⟩ := bind_range_lookup binding
  have pushed : bound.stages = draft.stages.push stage := same_stages.trans stages
  have same : ∀ {id}, draft.Has id → shifted draft.stages.size id = id :=
    fun has => shifted_of_le has.2
  have found_iff : ∀ {id any}, bound.stage? id = some any ↔
      id = draft.stages.size + 1 ∧ stage = any ∨ draft.stage? id = some any :=
    stage?_push_iff pushed
  refine ⟨by rw [pushed, Array.size_push], Nat.le_refl _, same_range.trans range, ?_, ?_, built, ?_, ?_⟩
  · intro name different
    have before : added.lookup? name = draft.lookup? name := by simp only [lookup?, bindings]
    rw [same_lookup name different, before]
    cases found : draft.lookup? name with
    | none => rfl
    | some id => rw [Option.map_some, same (sound.bound found)]
  · intro id old found
    have has := has_of_stage? found
    refine ⟨old, found_iff.mpr (.inr (by rwa [same has])), .of_le ?_ fun used member => ?_⟩
    · rw [sound.numbered found]
      exact has.2
    · exact Nat.le_trans (Nat.le_of_lt (sound.earlier found used member).2) has.2
  · intro id other used _ _
    rw [same (built id used), same_consumed]
    exact kept id used
  · intro id used
    rw [same_consumed] at used
    have within : id ≤ draft.stages.size := by
      have := (consumes _ used).2
      by_contra beyond
      rw [shifted_of_lt (Nat.lt_of_not_le beyond)] at this
      omega
    rw [shifted_of_le within] at used
    exact (fresh id used).imp_right fun uses =>
      .inl ⟨stage, found_iff.mpr (.inl ⟨rfl, rfl⟩), uses⟩

/-- Graphs of one program without and with one more stage behind the first `k`. -/
structure Graph.Inserts (k : Nat) (graph graph' : Graph) : Prop where
  root : graph'.root = shifted k graph.root
  stages : ∀ {id stage}, graph.stage? id = some stage →
    ∃ other, graph'.stage? (shifted k id) = some other ∧
      Shift k graph.stage? graph'.stage? stage other

namespace Planner
open Draft
variable {planner : Planner} {now : Instant} {k : Nat} {draft draft' : Draft} {extra : StageSpec}
  {before after : List StageSpec}

theorem planFrom_inserted (bounds : Period.InBounds planner.defaults.sampling) {binding : Option String}
    (named : ∀ spec ∈ after, spec.kind = .aggregate → spec.inputs.isSome)
    (unused : ∀ spec ∈ after, ∀ name, binding = some name →
      spec.binding ≠ some name ∧ name ∉ spec.inputs.getD [])
    (sound : draft.Sound) (inserted : Inserted k binding draft draft')
    (goes_on : k < draft.stages.size ∨ after ≠ []) :
    Agree (Graph.Inserts k) (planner.planFrom now draft after).outcome
      (planner.planFrom now draft' after).outcome := by
  induction after generalizing draft draft' with
  | nil =>
    have behind := goes_on.resolve_right fun filled => filled rfl
    have last' : draft'.last? = some (shifted k draft.stages.size) := by
      rw [last?_of_pos (inserted.size ▸ Nat.succ_pos _), shifted_of_lt behind, inserted.size]
    unfold planFrom
    rw [last?_of_pos (Nat.zero_lt_of_lt behind), last']
    exact .ok ⟨rfl, inserted.stages⟩
  | cons spec rest ih =>
    have here := unused spec List.mem_cons_self
    have stepped : Agree (StillInserted k binding) (planner.addStage now draft spec)
        (planner.addStage now draft' spec) :=
      addStage_inserted bounds sound inserted (named spec List.mem_cons_self)
        fun name same => (here name same).2
    unfold planFrom
    rcases stepped.inv with ⟨added, added', step, step', still, behind⟩ | ⟨error, step, step'⟩
    · rw [step, step']
      dsimp only
      obtain ⟨added_sound, filled⟩ := addStage_sound sound step
      rcases (still.bind behind fun name same => (here name same).1).inv with
        ⟨bound, bound', binds, binds', still, behind⟩ | ⟨error, binds, binds'⟩
      · rw [binds, binds']
        exact ih (fun other member => named other (List.mem_cons_of_mem _ member))
          (fun other member => unused other (List.mem_cons_of_mem _ member))
          (added_sound.bind filled binds) still (.inl behind)
      · rw [binds, binds']
        exact .error
    · rw [step, step']
      exact .error

/-- Both programs begin alike. Behind their common front the new specification can be built. -/
theorem planFrom_insert (bounds : Period.InBounds planner.defaults.sampling) {front : List StageSpec}
    (insertion : Insertion planner.defaults (front ++ before) extra after) (sound : draft.Sound)
    (built : draft.ConsumesBuilt) (follows : draft.Follows front) :
    Agree (Graph.Inserts (front ++ before).length) (planner.planFrom now draft (before ++ after)).outcome
      (planner.planFrom now draft (before ++ extra :: after)).outcome := by
  induction before generalizing front draft with
  | nil =>
    rw [List.append_nil] at insertion ⊢
    have stepped := step_outcome planner now follows extra
    rw [StageSpec.acceptable_iff.mp insertion.acceptable] at stepped
    obtain ⟨bound, stepped, _⟩ := stepped.passes
    obtain ⟨added, step, binds⟩ := except_bind_eq_ok stepped
    have inserted := Inserted.start sound built insertion.aggregate step binds
    rw [follows.size] at inserted
    rw [List.nil_append, List.nil_append, planFrom_cons planner now draft extra, stepped]
    exact planFrom_inserted bounds insertion.named insertion.unused sound inserted
      (.inr insertion.goes_on)
  | cons spec rest ih =>
    have outcome := step_outcome planner now follows spec
    rw [List.cons_append, List.cons_append, planFrom_cons, planFrom_cons]
    cases stepped : planner.addStage now draft spec >>= fun added => added.bind spec with
    | error error => exact .error
    | ok bound =>
      obtain ⟨added, step, binds⟩ := except_bind_eq_ok stepped
      obtain ⟨added_sound, filled⟩ := addStage_sound sound step
      have adds : draft.Adds added := (step ▸ addStage_outcome follows spec).holds
      rw [stepped] at outcome
      have front_eq : front ++ spec :: rest = (front ++ [spec]) ++ rest := by simp
      rw [front_eq] at insertion ⊢
      exact ih insertion (added_sound.bind filled binds)
        (bind_built (addStage_built sound built step) adds.size binds) outcome.holds

/-- A program can be built with one more aggregate in it exactly if it can without, and nothing behind the
new stage changes but what was lifted from a select that it takes. -/
theorem build_insert (bounds : Period.InBounds planner.defaults.sampling)
    (insertion : Insertion planner.defaults before extra after) :
    Agree (Graph.Inserts before.length) (planner.build now (before ++ after))
      (planner.build now (before ++ extra :: after)) := by
  have whole : Insertion planner.defaults ([] ++ before) extra after := insertion
  exact planFrom_insert bounds whole .empty (by simp [ConsumesBuilt, Draft.empty]) .empty

end Planner
end MetricEngine
