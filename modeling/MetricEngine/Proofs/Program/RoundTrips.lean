import MetricEngine.Config.Defaults
import MetricEngine.Proofs.Graph.RoundTrips
import MetricEngine.Proofs.Program.UnknownArguments
import MetricEngine.Proofs.Program.Wiring

/-!
What lifting does to the number of selects that run. It never saves one: it saves stages. A select that was
lifted from one that runs anyway, because something else reads it, is asked for beside it.
-/
namespace MetricEngine
open Relation

theorem Planner.build_chained {planner : Planner} {now : Instant} {program : List StageSpec}
    {graph : Graph} (built : planner.build now program = .ok graph) : graph.Chained := by
  obtain ⟨_, recorded⟩ := build_recorded built
  have lifted : ∀ {id origin}, graph.Origin id origin →
      (graph.stage? id).any Stage.isSelect ∧ (graph.stage? origin).any Stage.isSelect := by
    rintro id origin ⟨stage, found, from_origin⟩
    obtain ⟨_, _, from_spec⟩ := recorded.built found
    cases from_spec with
    | select => simp at from_origin
    | own => simp at from_origin
    | lifted is_base asks =>
      obtain rfl := Option.some.inj from_origin
      rw [found, is_base]
      exact ⟨rfl, Stage.isSelect_of_query? asks⟩
  constructor
  · exact build_originsFirst built
  · rintro id other origin ⟨stage, found, from_origin⟩ ⟨next, next_found, next_origin⟩
    exact recorded.once found next_found from_origin next_origin
  · exact fun is_origin => (lifted is_origin).1
  · exact fun is_origin => (lifted is_origin).2

/-- A program that has a graph also has one when nothing is lifted. With lifting as many more selects run as
there are selects that run although they were lifted, directly or through others, from one that runs. So
lifting costs no round trip exactly if there is no such select. -/
theorem round_trips_with_lifting {defaults : PlanDefaults} {now : Instant} {program : List StageSpec}
    {graph : Graph} (built : Planner.build ⟨defaults, true⟩ now program = .ok graph) :
    ∃ plain, Planner.build ⟨defaults, false⟩ now program = .ok plain ∧
      (∃ repeated : List Nat, repeated.Nodup ∧
        (∀ id, id ∈ repeated ↔ graph.Reachable id ∧ graph.Repeats id) ∧
        graph.roundTrips = plain.roundTrips + repeated.length) ∧
      (graph.roundTrips ≤ plain.roundTrips ↔ ∀ id, graph.Reachable id → ¬graph.Repeats id) := by
  obtain ⟨plain, plain_built, unfolds⟩ := Planner.build_unfolds built
  have formed := Planner.build_wellFormed built
  have plain_formed := Planner.build_wellFormed plain_built
  have chained := Planner.build_chained built
  have ends : ∀ id, id ∈ plain.selectsRun ↔ graph.Plain id ∧
      ∃ top, graph.Reachable top ∧ ReflTransGen graph.Origin top id := by
    intro id
    rw [Graph.mem_selectsRun_iff plain_formed, unfolds.select_iff,
      unfolds.reachable_iff formed plain_formed, ← Graph.mem_reported_iff_needs built,
      Graph.mem_reported_iff formed chained.first]
    exact and_comm
  obtain ⟨repeated, distinct, member_iff, count⟩ :=
    chained.roundTrips_eq_add formed (Graph.selectsRun_nodup plain_formed) ends
  rw [← Graph.roundTrips_eq] at count
  refine ⟨plain, plain_built, ⟨repeated, distinct, member_iff, count⟩, ?_⟩
  constructor
  · intro no_more id runs repeats
    have empty : repeated = [] := List.eq_nil_of_length_eq_zero (by omega)
    have listed := (member_iff id).mpr ⟨runs, repeats⟩
    simp [empty] at listed
  · intro none
    have empty : repeated = [] := by
      apply List.eq_nil_iff_forall_not_mem.mpr
      intro id listed
      obtain ⟨runs, repeats⟩ := (member_iff id).mp listed
      exact none id runs repeats
    simp [count, empty]

/-- The samples of a select beside the changes between them. -/
def loadAndChanges : List StageSpec :=
  [{ StageSpec.ofKind .select "load" with binding := some "raw" },
    { StageSpec.ofKind .aggregate "diff" with binding := some "changes" },
    { StageSpec.ofKind .aggregate "union" with inputs := some ["raw", "changes"] }]

theorem loadAndChanges_round_trips : ∃ graph plain,
    Planner.build ⟨EngineConfig.standard.defaults, true⟩ .epoch loadAndChanges = .ok graph ∧
    Planner.build ⟨EngineConfig.standard.defaults, false⟩ .epoch loadAndChanges = .ok plain ∧
    ∃ repeated : List Nat, repeated.Nodup ∧
      (∀ id, id ∈ repeated ↔ graph.Reachable id ∧ graph.Repeats id) ∧
      graph.roundTrips = plain.roundTrips + repeated.length := by
  have built : ∃ graph,
      Planner.build ⟨EngineConfig.standard.defaults, true⟩ .epoch loadAndChanges = .ok graph :=
    ⟨_, rfl⟩
  obtain ⟨graph, built⟩ := built
  obtain ⟨plain, plain_built, counts, _⟩ := round_trips_with_lifting built
  exact ⟨graph, plain, built, plain_built, counts⟩

/-- The changes are lifted from the select, which the union reads as well: the store is asked twice, and
without lifting once. -/
theorem loadAndChanges_one_more : ∃ graph plain,
    Planner.build ⟨EngineConfig.standard.defaults, true⟩ .epoch loadAndChanges = .ok graph ∧
    Planner.build ⟨EngineConfig.standard.defaults, false⟩ .epoch loadAndChanges = .ok plain ∧
    graph.roundTrips = 2 ∧ plain.roundTrips = 1 ∧ ¬graph.roundTrips ≤ plain.roundTrips :=
  ⟨_, _, rfl, rfl, rfl, rfl, by decide⟩

end MetricEngine
