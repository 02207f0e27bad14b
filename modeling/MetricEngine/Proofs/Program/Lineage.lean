import MetricEngine.Proofs.Program.Lifting

/-!
Where the selects of a graph come from. Every stage was built from the specification at its place. The
query of a lifted select extends that of the select which it was lifted from by one aggregator, so that the
way back leads to a select whose query has none. No select is lifted from twice, nor behind a stage that
reads it.
-/
namespace MetricEngine
open ArgumentReader

namespace Query

/-- Appends some aggregators to every metric. -/
def withAggregators (query : Query) (aggregators : List Aggregator) : Query :=
  { query with
    metrics := query.metrics.map fun metric =>
      { metric with aggregators := metric.aggregators ++ aggregators } }

@[simp]
theorem withAggregators_nil (query : Query) : query.withAggregators [] = query := by
  simp [withAggregators]

@[simp]
theorem withAggregators_concat (query : Query) (aggregators : List Aggregator)
    (aggregator : Aggregator) :
    (query.withAggregators aggregators).withAggregator aggregator =
      query.withAggregators (aggregators ++ [aggregator]) := by
  simp [withAggregators, withAggregator]

end Query

namespace StageSpec

/-- A query is what a select specification asks for: one metric, which is not aggregated. -/
structure Selects (spec : StageSpec) (query : Query) : Prop where
  kind : spec.kind = .select
  metric : ∃ metric, ((Planner.readSelection spec.operation).on spec.args).1 = .ok metric ∧
    query.metrics = [metric] ∧ metric.name = spec.operation ∧ metric.aggregators = []

/-- An aggregation is what an aggregate specification asks for. Only differences have no sampling. -/
structure Aggregates (spec : StageSpec) (defaultPeriod : Span) (aggregation : Aggregation) : Prop where
  kind : spec.kind = .aggregate
  read : ∃ kind, AggregatorKind.ofName? spec.operation = some kind ∧ kind.isLiftable ∧
    ((Aggregation.read kind defaultPeriod).on spec.args).1 = .ok aggregation ∧
    (aggregation.toAggregator.sampling = none ↔ kind = .diff)

end StageSpec

/-- Functions with buckets are read with a period, and others without one. -/
theorem Aggregation.read_sampled (kind : AggregatorKind) (defaultPeriod : Span) :
    Ensures (read kind defaultPeriod) fun aggregation =>
      aggregation.toAggregator.sampling.isSome = kind.hasSampling := by
  refine .bind .any fun function _ => ?_
  split
  next sampled =>
    refine .bind .any fun given _ => ?_
    dsimp only
    split
    · exact .bind .refuse fun _ (none : False) => none.elim
    · exact .pure (by simp [toAggregator, sampled])
  next plain => exact .pure (by simpa [toAggregator] using plain)

theorem StageSpec.Aggregates.of_read {spec : StageSpec} {kind : AggregatorKind} {defaultPeriod : Span}
    {aggregation : Aggregation} {arguments : Arguments} (aggregate : spec.kind = .aggregate)
    (named : AggregatorKind.ofName? spec.operation = some kind) (liftable : kind.isLiftable)
    (read : (Aggregation.read kind defaultPeriod).on spec.args = (.ok aggregation, arguments)) :
    spec.Aggregates defaultPeriod aggregation := by
  refine ⟨aggregate, kind, named, liftable, by rw [read], ?_⟩
  have sampled := (Aggregation.read_sampled kind defaultPeriod).on read
  rw [← Option.not_isSome_iff_eq_none, sampled, AggregatorKind.hasSampling, liftable]
  simp

/-- How a stage is built from its specification, in a draft or graph with the given stages. -/
inductive BuiltFrom (defaultPeriod : Span) (stage? : Nat → Option Stage) (spec : StageSpec) :
    Stage → Prop where
  | select {id name query unknown} : spec.Selects query →
      BuiltFrom defaultPeriod stage? spec ⟨id, name, .select query, [], unknown, none⟩
  | lifted {id name unknown select base query} {aggregation : Aggregation} :
      stage? select = some base → base.query? = some query →
      spec.Aggregates defaultPeriod aggregation →
      BuiltFrom defaultPeriod stage? spec
        ⟨id, name, .select (query.withAggregator aggregation.toAggregator), [], unknown, some select⟩
  | own {id name kind operation inputs unknown} :
      BuiltFrom defaultPeriod stage? spec ⟨id, name, .aggregate kind operation, inputs, unknown, none⟩

theorem BuiltFrom.mono {defaultPeriod : Span} {old new : Nat → Option Stage} {spec : StageSpec}
    {stage : Stage} (kept : ∀ {id stage}, old id = some stage → new id = some stage)
    (built : BuiltFrom defaultPeriod old spec stage) : BuiltFrom defaultPeriod new spec stage := by
  cases built with
  | select selects => exact .select selects
  | lifted found asks aggregates => exact .lifted (kept found) asks aggregates
  | own => exact .own

/-- What the stages of a draft or graph record of the specifications that they were built from. -/
structure Recorded (defaultPeriod : Span) (specs : List StageSpec) (stage? : Nat → Option Stage) :
    Prop where
  built : ∀ {id stage}, stage? id = some stage →
    ∃ spec, specs[id - 1]? = some spec ∧ BuiltFrom defaultPeriod stage? spec stage
  once : ∀ {id other stage next select}, stage? id = some stage → stage? other = some next →
    stage.liftedFrom = some select → next.liftedFrom = some select → id = other
  unread : ∀ {reader id stage next select}, stage? reader = some stage → select ∈ stage.inputs →
    stage? id = some next → next.liftedFrom = some select → id < reader

namespace Draft

/-- A draft has one stage for each specification, and knows which selects were read or lifted from. -/
structure Records (defaultPeriod : Span) (specs : List StageSpec) (draft : Draft) : Prop
    extends Recorded defaultPeriod specs draft.stage? where
  size : draft.stages.size = specs.length
  lifted : ∀ {id stage select}, draft.stage? id = some stage → stage.liftedFrom = some select →
    select ∈ draft.consumed
  read : ∀ {id stage select base}, draft.stage? id = some stage → select ∈ stage.inputs →
    draft.stage? select = some base → base.isSelect → select ∈ draft.consumed

/-- Binding a name leaves the stages alone. -/
theorem bind_keeps {draft next : Draft} {spec : StageSpec} (bound : draft.bind spec = .ok next) :
    next.stages = draft.stages ∧ next.consumed = draft.consumed := by
  rw [Draft.bind] at bound
  split at bound
  · exact Except.ok.inj bound ▸ ⟨rfl, rfl⟩
  · split at bound
    · simp at bound
    · exact Except.ok.inj bound ▸ ⟨rfl, rfl⟩

/-- Binding a name changes the number of this name and nothing else. -/
theorem bind_range_lookup {draft next : Draft} {spec : StageSpec} (bound : draft.bind spec = .ok next) :
    next.range = draft.range ∧
      ∀ name, spec.binding ≠ some name → next.lookup? name = draft.lookup? name := by
  rw [Draft.bind] at bound
  split at bound
  next => exact Except.ok.inj bound ▸ ⟨rfl, fun _ _ => rfl⟩
  next other named =>
    split at bound
    · simp at bound
    · refine Except.ok.inj bound ▸ ⟨rfl, fun name different => ?_⟩
      rw [lookup?_cons, if_neg]
      rintro rfl
      exact different named

namespace Records
variable {defaultPeriod : Span} {specs : List StageSpec} {draft next : Draft} {spec : StageSpec}

theorem empty : Records defaultPeriod [] .empty := by
  have none : ∀ id, Draft.empty.stage? id = none := by
    intro id
    cases id <;> simp [Draft.empty, stage?, Graph.stage?]
  exact ⟨⟨by simp [none], by simp [none], by simp [none]⟩, rfl, by simp [none], by simp [none]⟩

theorem same_stages (records : Records defaultPeriod specs draft) (stages : next.stages = draft.stages)
    (consumed : next.consumed = draft.consumed) : Records defaultPeriod specs next := by
  have same : next.stage? = draft.stage? := by
    funext id
    simp only [stage?, Graph.stage?, stages]
  have recorded : Recorded defaultPeriod specs next.stage? := same ▸ records.toRecorded
  refine ⟨recorded, by rw [stages, records.size], ?_, ?_⟩
  · rw [same, consumed]
    exact records.lifted
  · rw [same, consumed]
    exact records.read

/-- A stage is added behind the others. If it is lifted, nothing has read or lifted its origin yet. -/
theorem push (records : Records defaultPeriod specs draft) (sound : draft.Sound) {stage : Stage}
    (stages : next.stages = draft.stages.push stage)
    (built : BuiltFrom defaultPeriod draft.stage? spec stage)
    (inputs : ∀ input ∈ stage.inputs, draft.Has input)
    (fresh : ∀ select, stage.liftedFrom = some select → select ∉ draft.consumed)
    (kept : ∀ select ∈ draft.consumed, select ∈ next.consumed)
    (lifted : ∀ select, stage.liftedFrom = some select → select ∈ next.consumed)
    (read : ∀ select ∈ stage.inputs, ∀ base, draft.stage? select = some base → base.isSelect →
      select ∈ next.consumed) :
    Records defaultPeriod (specs ++ [spec]) next := by
  have found_iff : ∀ {id any}, next.stage? id = some any ↔
      id = draft.stages.size + 1 ∧ stage = any ∨ draft.stage? id = some any := stage?_push_iff stages
  have keeps : ∀ {id old}, draft.stage? id = some old → next.stage? id = some old :=
    fun found => found_iff.mpr (.inr found)
  refine ⟨⟨?_, ?_, ?_⟩, ?_, ?_, ?_⟩
  · intro id any found
    rcases found_iff.mp found with ⟨rfl, rfl⟩ | before
    · exact ⟨spec, by simp [records.size], built.mono keeps⟩
    · obtain ⟨source, at_place, from_source⟩ := records.built before
      obtain ⟨positive, within⟩ := has_of_stage? before
      refine ⟨source, ?_, from_source.mono keeps⟩
      rw [List.getElem?_append_left (by rw [← records.size]; omega), at_place]
  · intro id other first second select found other_found origin other_origin
    rcases found_iff.mp found with ⟨rfl, rfl⟩ | before
    · rcases found_iff.mp other_found with ⟨rfl, rfl⟩ | other_before
      · rfl
      · exact absurd (records.lifted other_before other_origin) (fresh _ origin)
    · rcases found_iff.mp other_found with ⟨rfl, rfl⟩ | other_before
      · exact absurd (records.lifted before origin) (fresh _ other_origin)
      · exact records.once before other_before origin other_origin
  · intro reader id first second select found reads lifted_found origin
    rcases found_iff.mp lifted_found with ⟨rfl, rfl⟩ | lifted_before
    · -- The origin of the new stage is a select, so whoever read it has used it up.
      exfalso
      cases built with
      | select => simp at origin
      | own => simp at origin
      | lifted is_base asks =>
        obtain rfl := Option.some.inj origin
        rcases found_iff.mp found with ⟨rfl, rfl⟩ | before
        · simp at reads
        · exact fresh _ rfl (records.read before reads is_base (Stage.isSelect_of_query? asks))
    · rcases found_iff.mp found with ⟨rfl, rfl⟩ | before
      · exact Nat.lt_succ_of_le (has_of_stage? lifted_before).2
      · exact records.unread before reads lifted_before origin
  · rw [stages, Array.size_push, records.size, List.length_append, List.length_singleton]
  · intro id any select found origin
    rcases found_iff.mp found with ⟨rfl, rfl⟩ | before
    · exact lifted select origin
    · exact kept select (records.lifted before origin)
  · intro id any select base found reads is_base is_select
    have base_before : ∀ {bound}, select ≤ bound → bound ≤ draft.stages.size →
        draft.stage? select = some base := by
      intro bound below within
      rcases found_iff.mp is_base with ⟨rfl, rfl⟩ | before
      · omega
      · exact before
    rcases found_iff.mp found with ⟨rfl, rfl⟩ | before
    · have built := inputs select reads
      exact read select reads base (base_before built.2 (Nat.le_refl _)) is_select
    · have earlier := sound.earlier before select (List.mem_append_left _ reads)
      have bound := has_of_stage? before
      exact kept select
        (records.read before reads (base_before (Nat.le_of_lt earlier.2) bound.2) is_select)

end Records
end Draft

namespace Planner
open Draft
variable {planner : Planner} {now : Instant} {draft added bound : Draft} {spec : StageSpec}
  {specs : List StageSpec}

theorem addStage_records (sound : draft.Sound)
    (records : Records planner.defaults.sampling specs draft)
    (step : planner.addStage now draft spec = .ok added) :
    Records planner.defaults.sampling (specs ++ [spec]) added := by
  rw [addStage] at step
  split at step
  next kind =>
    rw [addSelect_eq, selection] at step
    split at step
    · simp at step
    · cases read : (readSelection spec.operation).on spec.args with
      | mk metric arguments =>
        rw [read] at step
        obtain ⟨query, selected, rfl⟩ := except_map_eq_ok step
        obtain ⟨metric, rfl, rfl⟩ := except_map_eq_ok selected
        obtain ⟨name, plain⟩ := (readSelection_ensures spec.operation).on read
        have selects : ∀ range, spec.Selects ⟨range, [metric]⟩ :=
          fun range => ⟨kind, metric, by rw [read], rfl, name, plain⟩
        exact records.push sound rfl (.select (selects _)) (by simp) (by simp) (fun _ used => used)
          (by simp) (by simp)
  next kind =>
    obtain ⟨inputs, aggregator, resolved, named, own | ⟨_, select, query, liftable, lifts⟩⟩ :=
      addAggregate_ok step
    · rw [addOwnStage_eq] at own
      obtain ⟨operation, _, rfl⟩ := except_map_eq_ok own
      refine records.push sound rfl .own (sound.resolve resolved) (by simp) ?_ (by simp) ?_
      · exact fun _ used => List.mem_append_right _ used
      · intro select reads base found is_select
        exact List.mem_append_left _ (mem_selectsAmong_iff.mpr ⟨reads, base, found, is_select⟩)
    · rw [lift_eq] at lifts
      cases read : (Aggregation.read aggregator planner.defaults.sampling).on spec.args with
      | mk outcome arguments =>
        rw [read] at lifts
        obtain ⟨aggregation, rfl, rfl⟩ := except_map_eq_ok lifts
        obtain ⟨rfl, is_liftable, unused, found⟩ := liftable?_eq_some liftable
        obtain ⟨base, found, asks⟩ := Option.bind_eq_some_iff.mp found
        refine records.push sound rfl (.lifted found asks (.of_read kind named is_liftable read))
          (by simp) ?_ (fun _ used => List.mem_cons_of_mem _ used) ?_ (by simp)
        · rintro _ ⟨⟩
          exact unused
        · rintro _ ⟨⟩
          exact List.mem_cons_self

theorem build_recorded {graph : Graph} {program : List StageSpec}
    (built : planner.build now program = .ok graph) :
    graph.all.size = program.length ∧ Recorded planner.defaults.sampling program graph.stage? := by
  obtain ⟨final, _, records, _, stages⟩ :=
    planFrom_keeps (Records planner.defaults.sampling)
      (fun sound records step binding =>
        have ⟨stages, consumed⟩ := bind_keeps binding
        (addStage_records sound records step).same_stages stages consumed)
      [] built .empty .empty
  have same : graph.stage? = final.stage? := funext (stage?_of_all stages)
  rw [stages, same]
  exact ⟨records.size, records.toRecorded⟩

end Planner

/-- Going from one stage back to the selects that it was lifted from leads to a stage that was lifted from
none. The list has the stages on the way behind that one. -/
inductive Graph.Lineage (graph : Graph) (base : Nat) : Nat → List Nat → Prop where
  | base {stage} : graph.stage? base = some stage → stage.liftedFrom = none →
      Lineage graph base base []
  | lifted {id origin ids} : graph.Origin id origin → Lineage graph base origin ids →
      Lineage graph base id (ids ++ [id])

/-- What the way back from a select says about its query. -/
structure Graph.Descent (graph : Graph) (program : List StageSpec) (defaultPeriod : Span) (id : Nat)
    (query : Query) (base : Nat) (ids : List Nat) (plain : Query) (aggregations : List Aggregation) :
    Prop where
  lineage : graph.Lineage base id ids
  inOrder : (base :: ids).Pairwise (· < ·)
  selected : ∃ stage spec, graph.stage? base = some stage ∧ stage.query? = some plain ∧
    program[base - 1]? = some spec ∧ spec.Selects plain
  aggregated : List.Forall₂ (fun id aggregation => ∃ spec, program[id - 1]? = some spec ∧
    spec.Aggregates defaultPeriod aggregation) ids aggregations
  extended : query = plain.withAggregators (aggregations.map (·.toAggregator))

theorem Recorded.descent {graph : Graph} {program : List StageSpec} {defaultPeriod : Span}
    (recorded : Recorded defaultPeriod program graph.stage?) (first : graph.OriginsFirst) :
    ∀ {id stage query}, graph.stage? id = some stage → stage.query? = some query →
      ∃ base ids plain aggregations,
        graph.Descent program defaultPeriod id query base ids plain aggregations ∧
        ∀ earlier ∈ base :: ids, earlier ≤ id := by
  intro id
  induction id using Nat.strongRecOn with
  | ind id ih =>
    intro stage query found asks
    obtain ⟨spec, at_place, built⟩ := recorded.built found
    cases built with
    | own => simp [Stage.query?] at asks
    | select selects =>
      obtain rfl := Option.some.inj asks
      refine ⟨id, [], _, [], ⟨.base found rfl, List.pairwise_singleton _ _, ⟨_, spec, found, rfl,
        at_place, selects⟩, .nil, by simp⟩, by simp⟩
    | @lifted _ _ _ select base query aggregation is_base base_asks aggregates =>
      obtain rfl := Option.some.inj asks
      have origin : graph.Origin id select := ⟨_, found, rfl⟩
      have smaller := (first id select origin).2
      obtain ⟨base, ids, plain, aggregations, descent, below⟩ := ih select smaller is_base base_asks
      refine ⟨base, ids ++ [id], plain, aggregations ++ [aggregation],
        ⟨.lifted origin descent.lineage, ?_, descent.selected, ?_, ?_⟩, ?_⟩
      · rw [← List.cons_append]
        refine List.pairwise_append.mpr ⟨descent.inOrder, List.pairwise_singleton _ _, ?_⟩
        intro earlier member last same
        rw [List.mem_singleton.mp same]
        exact Nat.lt_of_le_of_lt (below earlier member) smaller
      · exact List.rel_append descent.aggregated (.cons ⟨spec, at_place, aggregates⟩ .nil)
      · rw [descent.extended, Query.withAggregators_concat, List.map_append]
        rfl
      · intro earlier member
        rw [← List.cons_append] at member
        rcases List.mem_append.mp member with before | last
        · exact Nat.le_of_lt (Nat.lt_of_le_of_lt (below earlier before) smaller)
        · exact Nat.le_of_eq (List.mem_singleton.mp last)

/-- A graph has one stage for each specification of its program. The way back from a select leads to one
that its specification alone describes, and each stage on the way adds the aggregator of its own
specification to the query, in the order of the program. No select is lifted from twice, and none behind a
stage that reads it. -/
theorem selects_extend_plain_selects {planner : Planner} {now : Instant} {program : List StageSpec}
    {graph : Graph} (built : planner.build now program = .ok graph) :
    graph.all.size = program.length ∧
    (∀ id stage query, graph.stage? id = some stage → stage.query? = some query →
      ∃ base ids plain aggregations,
        graph.Descent program planner.defaults.sampling id query base ids plain aggregations) ∧
    (∀ id other select, graph.Origin id select → graph.Origin other select → id = other) ∧
    ∀ reader stage id select, graph.stage? reader = some stage → select ∈ stage.inputs →
      graph.Origin id select → id < reader := by
  obtain ⟨size, recorded⟩ := Planner.build_recorded built
  refine ⟨size, ?_, ?_, ?_⟩
  · intro id stage query found asks
    obtain ⟨base, ids, plain, aggregations, descent, _⟩ :=
      recorded.descent (Planner.build_originsFirst built) found asks
    exact ⟨base, ids, plain, aggregations, descent⟩
  · rintro id other select ⟨stage, found, origin⟩ ⟨next, other_found, other_origin⟩
    exact recorded.once found other_found origin other_origin
  · rintro reader stage id select found reads ⟨next, lifted, origin⟩
    exact recorded.unread found reads lifted origin

/-- The sums of minutes and their changes are lifted, and the maximum reads the first select by itself. -/
def sumsAndMaximum : List StageSpec :=
  [{ StageSpec.ofKind .select "load" with binding := some "raw" }, .ofKind .aggregate "sum",
    .ofKind .aggregate "diff", { StageSpec.ofKind .aggregate "max" with inputs := some ["raw"] }]

/-- The query for the changes between the sums of minutes. -/
def changesQuery : Query :=
  ⟨.endingAt .epoch (.ofMillis 3600000), [⟨"load", .empty, [],
    [⟨"sum", some ⟨1, .minutes⟩, .empty⟩, ⟨"diff", none, .empty⟩]⟩]⟩

theorem sumsAndMaximum_descent : ∃ graph,
    Planner.build ⟨EngineConfig.standard.defaults, true⟩ .epoch sumsAndMaximum = .ok graph ∧
    (∃ base ids plain aggregations, graph.Descent sumsAndMaximum
      EngineConfig.standard.defaults.sampling 3 changesQuery base ids plain aggregations) ∧
    ∀ id, graph.Origin id 1 → id < 4 := by
  have built : ∃ graph, Planner.build ⟨EngineConfig.standard.defaults, true⟩ .epoch sumsAndMaximum =
      .ok graph ∧ (graph.stage? 3).bind Stage.query? = some changesQuery ∧
      (graph.stage? 4).map (·.inputs) = some [1] := ⟨_, rfl, rfl, rfl⟩
  obtain ⟨graph, built, changes, maximum⟩ := built
  obtain ⟨stage, found, asks⟩ := Option.bind_eq_some_iff.mp changes
  obtain ⟨reader, reader_found, reads⟩ := Option.map_eq_some_iff.mp maximum
  obtain ⟨_, descents, _, unread⟩ := selects_extend_plain_selects built
  exact ⟨graph, built, descents 3 stage changesQuery found asks,
    fun id => unread 4 reader id 1 reader_found (by simp [reads])⟩

end MetricEngine
