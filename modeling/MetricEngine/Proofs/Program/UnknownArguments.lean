import MetricEngine.Proofs.Program.ArgumentRules
import MetricEngine.Proofs.Program.Lineage

/-!
The arguments that each kind of stage understands. Its reader asks for all of them before it succeeds and
for nothing else, so the stage of a specification records the keys of the others, whether it was lifted or
not.
-/
namespace MetricEngine
open Relation

/-- The arguments that an aggregator understands. -/
def AggregatorKind.arguments : AggregatorKind → List String
  | .min | .max | .merge | .count | .avg | .sum => ["period"]
  | .percentile => ["percentile", "period"]
  | .diff | .union => []
  | .threshold => ["threshold", "operator", "recovery_period", "dwell_period"]
  | .dataAbsent => ["dwell_period", "recovery_period"]
  | .top => ["count", "invert"]
  | .bottom => ["count"]

namespace StageSpec

/-- The arguments that the stage of a specification understands. -/
def understood (spec : StageSpec) : List String :=
  match spec.kind with
  | .select => ["tags", "group_by"]
  | .aggregate => ((AggregatorKind.ofName? spec.operation).map (·.arguments)).getD []

/-- The keys of all other arguments. -/
def unknownKeys (spec : StageSpec) : List String :=
  spec.args.keys.filter fun key => key ∉ spec.understood

variable {spec : StageSpec}

theorem understood_select (kind : spec.kind = .select) : spec.understood = ["tags", "group_by"] := by
  rw [understood, kind]

theorem understood_aggregate (kind : spec.kind = .aggregate) {aggregator : AggregatorKind}
    (named : AggregatorKind.ofName? spec.operation = some aggregator) :
    spec.understood = aggregator.arguments := by
  simp only [understood, kind, named, Option.map_some, Option.getD_some]

end StageSpec

namespace ArgumentReader
variable {α β : Type} {reader : ArgumentReader α} {fields more : List String}

/-- A reader that succeeds has asked for these fields and for no others. -/
def Asks (reader : ArgumentReader α) (fields : List String) : Prop :=
  ∀ before value after, (ExceptT.run reader).run before = (.ok value, after) →
    after.given = before.given ∧ ∀ key, key ∈ after.known ↔ key ∈ fields ∨ key ∈ before.known

namespace Asks

theorem pure (value : α) : Asks (pure value) [] := by
  rintro before value' after read
  obtain ⟨_, rfl⟩ := Prod.mk.inj read
  exact ⟨rfl, by simp⟩

theorem bind {next : α → ArgumentReader β} (first : Asks reader fields)
    (rest : ∀ value, Asks (next value) more) : Asks (reader >>= next) (fields ++ more) := by
  rintro before value after read
  rw [ExceptT.run_bind, StateT.run_bind] at read
  cases run : (ExceptT.run reader).run before with
  | mk outcome between =>
    rw [run] at read
    cases outcome with
    | error error => exact absurd (Prod.mk.inj read).1 (by simp)
    | ok middle =>
      obtain ⟨given, known⟩ := first before middle between run
      obtain ⟨given', known'⟩ := rest middle between value after read
      refine ⟨given'.trans given, fun key => ?_⟩
      rw [known', known, List.mem_append]
      tauto

/-- One field is asked for before the others. -/
theorem field {name : String} {next : α → ArgumentReader β} (first : Asks reader [name])
    (rest : ∀ value, Asks (next value) more) : Asks (reader >>= next) (name :: more) :=
  first.bind rest

theorem map (f : α → β) (asks : Asks reader fields) : Asks (f <$> reader) fields := by
  rw [map_eq_pure_bind]
  simpa using asks.bind fun value => .pure (f value)

/-- A reader that never succeeds asks for any fields. -/
theorem of_refuses {field : String} {fault : ArgumentFault} (refuses : Refuses reader field fault) :
    Asks reader fields := by
  intro before value after read
  have ended := refuses before
  simp [read] at ended

theorem throw {error : BuildError} : Asks (throw error : ArgumentReader α) fields := by
  rintro before value after read
  obtain ⟨same, _⟩ := Prod.mk.inj read
  simp at same

theorem optional (decode : Json → Except ArgumentFault α) (field : String) :
    Asks (ArgumentReader.optional decode field) [field] := by
  intro before value after read
  rw [run_optional] at read
  obtain ⟨_, rfl⟩ := Prod.mk.inj read
  exact ⟨rfl, by simp⟩

theorem required (decode : Json → Except ArgumentFault α) (field : String) :
    Asks (ArgumentReader.required decode field) [field] := by
  refine (optional decode field).field fun value => ?_
  cases value with
  | none => exact .of_refuses (.refuse field .missing)
  | some value => exact .pure value

/-- A value that is read may be refused before the reading goes on. -/
theorem guarded {bad : Prop} [Decidable bad] {field : String} {fault : ArgumentFault}
    {next : Unit → ArgumentReader β} (goes_on : Asks (next ()) fields) :
    Asks (if bad then refuse field fault >>= next else next ()) fields := by
  split
  · exact .of_refuses (Refuses.refuse field fault).bind
  · exact goes_on

/-- What a reader leaves unknown are the other keys. -/
theorem unknown_eq (asks : Asks reader fields) {given : Table Json} {value : α} {arguments : Arguments}
    (read : reader.on given = (.ok value, arguments)) :
    arguments.unknown = given.keys.filter fun key => key ∉ fields := by
  obtain ⟨same, known⟩ := asks _ value arguments read
  have given_eq : arguments.given = given := same
  have known_iff : ∀ key, key ∈ arguments.known ↔ key ∈ fields := by
    simpa [Arguments.ofTable] using known
  rw [Arguments.unknown, given_eq]
  refine List.filter_congr fun key _ => ?_
  simp [known_iff]

end Asks
end ArgumentReader

open ArgumentReader

namespace Aggregation

theorem readFunction_asks (kind : AggregatorKind) :
    Asks (readFunction kind) (if kind = .percentile then ["percentile"] else []) := by
  cases kind with
  | percentile =>
    refine (Asks.required _ "percentile").field fun target => ?_
    split
    · exact .pure _
    · exact .of_refuses (.refuse "percentile" _)
  | threshold => exact .throw
  | dataAbsent => exact .throw
  | union => exact .throw
  | top => exact .throw
  | bottom => exact .throw
  | _ => exact .pure _

theorem read_asks {kind : AggregatorKind} (liftable : kind.isLiftable) (defaultPeriod : Span) :
    Asks (read kind defaultPeriod) kind.arguments := by
  have fields : kind.arguments = (if kind = .percentile then ["percentile"] else []) ++
      if kind.hasSampling then ["period"] else [] := by
    revert liftable
    cases kind <;> decide
  rw [fields]
  refine (readFunction_asks kind).bind fun function => ?_
  split
  · refine (Asks.optional _ "period").field fun given => ?_
    exact .guarded (.pure _)
  · exact .pure _

end Aggregation

theorem ThresholdRule.read_asks (defaults : PlanDefaults) :
    Asks (read defaults) AggregatorKind.threshold.arguments := by
  refine (Asks.required _ "threshold").field fun threshold => .guarded ?_
  refine (Asks.required _ "operator").field fun name => ?_
  split
  · exact .of_refuses (.refuse "operator" _)
  · refine (Asks.optional _ "recovery_period").field fun recovery => ?_
    exact (Asks.optional _ "dwell_period").field fun dwell => .pure _

theorem AbsenceRule.read_asks (defaults : PlanDefaults) :
    Asks (read defaults) AggregatorKind.dataAbsent.arguments := by
  refine (Asks.optional _ "dwell_period").field fun dwell => .guarded ?_
  exact (Asks.optional _ "recovery_period").field fun recovery => .pure _

theorem Ranking.read_asks {kind : AggregatorKind} (ranks : kind = .top ∨ kind = .bottom) :
    Asks (read kind) kind.arguments := by
  rcases ranks with rfl | rfl
  · refine (Asks.optional _ "count").field fun count => .guarded ?_
    exact (Asks.optional _ "invert").field fun invert => .pure _
  · refine (Asks.optional _ "count").field fun count => .guarded ?_
    exact .pure _

/-- The reader of an operation asks for the arguments of its kind. -/
theorem Operation.read_asks (kind : AggregatorKind) (defaults : PlanDefaults) :
    Asks (read kind defaults) kind.arguments := by
  cases kind with
  | diff => exact .pure _
  | union => exact .pure _
  | threshold => exact (ThresholdRule.read_asks defaults).map _
  | dataAbsent => exact (AbsenceRule.read_asks defaults).map _
  | top => exact (Ranking.read_asks (.inl rfl)).map _
  | bottom => exact (Ranking.read_asks (.inr rfl)).map _
  | _ => exact (Aggregation.read_asks rfl defaults.sampling).map _

namespace Planner
open Draft
variable {planner : Planner} {now : Instant} {draft added : Draft} {spec : StageSpec}

theorem readSelection_asks (metric : String) : Asks (readSelection metric) ["tags", "group_by"] := by
  unfold readSelection tagFilter strings
  simp only [bind_assoc, pure_bind]
  refine (Asks.optional _ "tags").field fun tags => ?_
  exact (Asks.optional _ "group_by").field fun groupBy => .pure _

/-- Each specification adds one stage, which records the arguments that it does not understand. -/
theorem addStage_unknown (step : planner.addStage now draft spec = .ok added) :
    ∃ stage, added.stages = draft.stages.push stage ∧ stage.unknownArgs = spec.unknownKeys := by
  rw [StageSpec.unknownKeys]
  rw [addStage] at step
  split at step
  next kind =>
    rw [addSelect_eq, selection] at step
    split at step
    · simp at step
    · cases read : (readSelection spec.operation).on spec.args with
      | mk metric arguments =>
        rw [read] at step
        obtain ⟨query, selected, rfl⟩ := except_map_eq_ok step
        obtain ⟨metric, rfl, rfl⟩ := except_map_eq_ok selected
        exact ⟨_, rfl, by
          rw [StageSpec.understood_select kind]
          exact (readSelection_asks _).unknown_eq read⟩
  next kind =>
    obtain ⟨inputs, aggregator, _, named, own | ⟨_, select, query, liftable, lifts⟩⟩ :=
      addAggregate_ok step
    · rw [addOwnStage_eq] at own
      cases read : (Operation.read aggregator planner.defaults).on spec.args with
      | mk operation arguments =>
        rw [read] at own
        obtain ⟨operation, rfl, rfl⟩ := except_map_eq_ok own
        exact ⟨_, rfl, by
          rw [StageSpec.understood_aggregate kind named]
          exact (Operation.read_asks _ _).unknown_eq read⟩
    · rw [lift_eq] at lifts
      cases read : (Aggregation.read aggregator planner.defaults.sampling).on spec.args with
      | mk aggregation arguments =>
        rw [read] at lifts
        obtain ⟨aggregation, rfl, rfl⟩ := except_map_eq_ok lifts
        have is_liftable := (liftable?_eq_some liftable).2.1
        exact ⟨_, rfl, by
          rw [StageSpec.understood_aggregate kind named]
          exact (Aggregation.read_asks is_liftable _).unknown_eq read⟩

/-- The stages of a graph record the unknown arguments of their specifications, place by place. -/
theorem build_unknown {graph : Graph} {program : List StageSpec}
    (built : planner.build now program = .ok graph) :
    graph.all.toList.map (·.unknownArgs) = program.map (·.unknownKeys) := by
  obtain ⟨final, _, recorded, _, stages⟩ :=
    planFrom_keeps (fun specs draft =>
        draft.stages.toList.map (·.unknownArgs) = specs.map (·.unknownKeys))
      (fun {before draft spec added bound} _ recorded step binding => by
        obtain ⟨stage, pushed, unknown⟩ := addStage_unknown step
        rw [(bind_keeps binding).1, pushed, Array.toList_push, List.map_append, List.map_append, recorded]
        simp [unknown])
      [] built .empty rfl
  rw [stages]
  exact recorded

end Planner

namespace Graph

/-- The stages that are reported are those that the root needs in the end. A select that was lifted from
reads nothing, so they are the ones that run and the ways back from these. -/
theorem mem_reported_iff_needs {planner : Planner} {now : Instant} {program : List StageSpec}
    {graph : Graph} (built : planner.build now program = .ok graph) {id : Nat} :
    id ∈ graph.reported ↔ ReflTransGen graph.Needs graph.root id := by
  have formed := Planner.build_wellFormed built
  rw [mem_reported_iff formed (Planner.build_originsFirst built)]
  constructor
  · rintro ⟨top, reachable, path⟩
    exact (ReflTransGen.mono (fun _ _ => .inl) _ _ reachable).trans
      (ReflTransGen.mono (fun _ _ => .inr) _ _ path)
  · intro needed
    induction needed with
    | refl => exact ⟨graph.root, .refl, .refl⟩
    | tail _ needs ih =>
      obtain ⟨top, reachable, path⟩ := ih
      rcases needs with reads | is_origin
      · rcases path.cases_tail with rfl | ⟨before, _, stage, found, is_origin⟩
        · exact ⟨_, reachable.tail reads, .refl⟩
        · obtain ⟨_, _, from_spec⟩ := (Planner.build_recorded built).2.built found
          obtain ⟨reader, is_reader, member⟩ := reads.of_stage
          cases from_spec with
          | select => simp at is_origin
          | own => simp at is_origin
          | lifted is_base asks =>
            obtain rfl := Option.some.inj is_origin
            obtain rfl := Option.some.inj (is_base.symm.trans is_reader)
            have alone := Planner.build_select_inputs built is_base (Stage.isSelect_of_query? asks)
            simp [alone] at member
      · exact ⟨top, reachable, path.tail is_origin⟩

end Graph
end MetricEngine
