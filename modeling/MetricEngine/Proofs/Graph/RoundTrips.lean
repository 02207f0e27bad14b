import Mathlib.Data.List.Nodup
import MetricEngine.Proofs.Graph.Reports

/-!
How many selects of a graph run, each of which asks the store once. Selects that were lifted from one
another form a chain, and those of a chain that run ask for the same metric again. Counted once for each
chain they are as many as the chains of which some select runs.
-/
namespace MetricEngine.Graph
open Relation

/-- The number of selects that run. -/
def roundTrips (graph : Graph) : Nat :=
  graph.stages.countP Stage.isSelect

/-- A stage was lifted, directly or through others, from one that runs itself. -/
def Repeats (graph : Graph) (id : Nat) : Prop :=
  ∃ origin, graph.Reachable origin ∧ TransGen graph.Origin id origin

/-- A select that was not lifted from another one. -/
def Plain (graph : Graph) (id : Nat) : Prop :=
  (graph.stage? id).any Stage.isSelect ∧ ∀ origin, ¬graph.Origin id origin

/-- Selects are lifted from earlier selects, and no two of them from the same one. -/
structure Chained (graph : Graph) : Prop where
  first : graph.OriginsFirst
  once : ∀ {id other origin}, graph.Origin id origin → graph.Origin other origin → id = other
  select : ∀ {id origin}, graph.Origin id origin → (graph.stage? id).any Stage.isSelect
  origin : ∀ {id origin}, graph.Origin id origin → (graph.stage? origin).any Stage.isSelect

variable {graph : Graph}

/-- The numbers of the selects that run. -/
def selectsRun (graph : Graph) : List Nat :=
  graph.order.filter fun id => (graph.stage? id).any Stage.isSelect

theorem roundTrips_eq (graph : Graph) : graph.roundTrips = graph.selectsRun.length := by
  rw [roundTrips, stages, selectsRun, List.countP_filterMap, List.countP_eq_length_filter]
  congr 2
  funext id
  cases graph.stage? id <;> rfl

theorem mem_selectsRun_iff (formed : graph.WellFormed) {id : Nat} :
    id ∈ graph.selectsRun ↔ graph.Reachable id ∧ (graph.stage? id).any Stage.isSelect := by
  rw [selectsRun, List.mem_filter, mem_order_iff formed]

theorem selectsRun_nodup (formed : graph.WellFormed) : graph.selectsRun.Nodup :=
  (order_nodup formed).filter _

theorem Origin.unique {id origin other : Nat} (is_origin : graph.Origin id origin)
    (is_other : graph.Origin id other) : origin = other := by
  obtain ⟨stage, found, from_origin⟩ := is_origin
  obtain ⟨stage', found', from_other⟩ := is_other
  obtain rfl := Option.some.inj (found.symm.trans found')
  exact Option.some.inj (from_origin.symm.trans from_other)

/-- The ways back from one stage are one way. -/
theorem origins_total {id a b : Nat} (first : ReflTransGen graph.Origin id a)
    (second : ReflTransGen graph.Origin id b) :
    ReflTransGen graph.Origin a b ∨ ReflTransGen graph.Origin b a :=
  ReflTransGen.total_of_right_unique (fun _ _ _ => Origin.unique) first second

namespace Plain
variable {id a b : Nat}

theorem eq_of_path (plain : graph.Plain a) (path : ReflTransGen graph.Origin a b) : b = a := by
  rcases path.cases_head with same | ⟨origin, is_origin, _⟩
  · exact same.symm
  · exact absurd is_origin (plain.2 origin)

theorem unique (plain : graph.Plain a) (other : graph.Plain b)
    (to_plain : ReflTransGen graph.Origin id a) (to_other : ReflTransGen graph.Origin id b) : a = b := by
  rcases origins_total to_plain to_other with path | path
  · exact (plain.eq_of_path path).symm
  · exact other.eq_of_path path

end Plain

namespace Chained
variable {id a b : Nat}

theorem lt_of_path (chained : graph.Chained) (path : TransGen graph.Origin a b) : b < a := by
  induction path with
  | single is_origin => exact (chained.first _ _ is_origin).2
  | tail _ is_origin ih => exact Nat.lt_trans (chained.first _ _ is_origin).2 ih

/-- Selects with a common end of their ways back lie on one way. -/
theorem same_chain (chained : graph.Chained) {base : Nat} (from_a : ReflTransGen graph.Origin a base)
    (from_b : ReflTransGen graph.Origin b base) :
    ReflTransGen graph.Origin a b ∨ ReflTransGen graph.Origin b a := by
  have unique : Relator.RightUnique (Function.swap graph.Origin) :=
    fun _ _ _ first second => chained.once first second
  rcases ReflTransGen.total_of_right_unique unique (reflTransGen_swap.mpr from_a)
    (reflTransGen_swap.mpr from_b) with path | path
  · exact .inr (reflTransGen_swap.mp path)
  · exact .inl (reflTransGen_swap.mp path)

theorem select_of_path (chained : graph.Chained) (path : ReflTransGen graph.Origin a b)
    (select : (graph.stage? b).any Stage.isSelect) : (graph.stage? a).any Stage.isSelect := by
  rcases path.cases_head with rfl | ⟨origin, is_origin, _⟩
  · exact select
  · exact chained.select is_origin

/-- The way back from a select ends at a plain one. -/
theorem exists_plain (chained : graph.Chained) (select : (graph.stage? id).any Stage.isSelect) :
    ∃ base, graph.Plain base ∧ ReflTransGen graph.Origin id base := by
  induction id using Nat.strongRecOn with
  | ind id ih =>
    by_cases lifted : ∃ origin, graph.Origin id origin
    · obtain ⟨origin, is_origin⟩ := lifted
      obtain ⟨base, plain, path⟩ := ih origin (chained.first _ _ is_origin).2 (chained.origin is_origin)
      exact ⟨base, plain, .head is_origin path⟩
    · exact ⟨id, ⟨select, fun origin is_origin => lifted ⟨origin, is_origin⟩⟩, .refl⟩

/-- Of the stages that run and come from a plain select, one comes from no other that runs. -/
theorem exists_first (chained : graph.Chained) {base top : Nat} (plain : graph.Plain base)
    (runs : graph.Reachable top) (path : ReflTransGen graph.Origin top base) :
    ∃ id, graph.Reachable id ∧ ReflTransGen graph.Origin id base ∧ ¬graph.Repeats id := by
  induction top using Nat.strongRecOn with
  | ind top ih =>
    by_cases repeats : graph.Repeats top
    · obtain ⟨origin, origin_runs, way⟩ := repeats
      have onward : ReflTransGen graph.Origin origin base := by
        rcases origins_total way.to_reflTransGen path with onward | back
        · exact onward
        · rw [plain.eq_of_path back]
      exact ih origin (chained.lt_of_path way) origin_runs onward
    · exact ⟨top, runs, path, repeats⟩

/-- Of two selects of one chain that come from no other that runs, both are the same. -/
theorem first_unique (chained : graph.Chained) {base : Nat} (a_runs : graph.Reachable a)
    (b_runs : graph.Reachable b) (from_a : ReflTransGen graph.Origin a base)
    (from_b : ReflTransGen graph.Origin b base) (a_first : ¬graph.Repeats a)
    (b_first : ¬graph.Repeats b) : a = b := by
  rcases chained.same_chain from_a from_b with path | path
  · rcases reflTransGen_iff_eq_or_transGen.mp path with same | way
    · exact same.symm
    · exact absurd ⟨b, b_runs, way⟩ a_first
  · rcases reflTransGen_iff_eq_or_transGen.mp path with same | way
    · exact same
    · exact absurd ⟨a, a_runs, way⟩ b_first

/-- The selects that run are as many as the plain selects to which the ways back from them lead, and those
that come from another one that runs. -/
theorem roundTrips_eq_add (chained : graph.Chained) (formed : graph.WellFormed) {plains : List Nat}
    (distinct : plains.Nodup)
    (ends : ∀ id, id ∈ plains ↔ graph.Plain id ∧
      ∃ top, graph.Reachable top ∧ ReflTransGen graph.Origin top id) :
    ∃ repeated : List Nat, repeated.Nodup ∧
      (∀ id, id ∈ repeated ↔ graph.Reachable id ∧ graph.Repeats id) ∧
      graph.roundTrips = plains.length + repeated.length := by
  classical
  have from_plain : ∀ id, ∃ base, (graph.stage? id).any Stage.isSelect →
      graph.Plain base ∧ ReflTransGen graph.Origin id base := by
    intro id
    by_cases select : (graph.stage? id).any Stage.isSelect
    · obtain ⟨base, found⟩ := chained.exists_plain select
      exact ⟨base, fun _ => found⟩
    · exact ⟨id, fun select' => absurd select' select⟩
  choose base base_of using from_plain
  have selects := selectsRun_nodup formed
  -- The first select of each chain stands for the end of the chain.
  have firsts : ((graph.selectsRun.filter (¬graph.Repeats ·)).map base).Perm plains := by
    refine (List.perm_ext_iff_of_nodup ?_ distinct).mpr fun id => ?_
    · refine (selects.filter _).map_on ?_
      intro a a_first b b_first same
      simp only [List.mem_filter, mem_selectsRun_iff formed, decide_eq_true_eq] at a_first b_first
      obtain ⟨⟨a_runs, a_select⟩, a_first⟩ := a_first
      obtain ⟨⟨b_runs, b_select⟩, b_first⟩ := b_first
      exact chained.first_unique a_runs b_runs (base_of a a_select).2
        (same ▸ (base_of b b_select).2) a_first b_first
    · rw [ends, List.mem_map]
      constructor
      · rintro ⟨top, first, rfl⟩
        simp only [List.mem_filter, mem_selectsRun_iff formed, decide_eq_true_eq] at first
        obtain ⟨⟨runs, select⟩, _⟩ := first
        obtain ⟨plain, path⟩ := base_of top select
        exact ⟨plain, top, runs, path⟩
      · rintro ⟨plain, top, runs, path⟩
        obtain ⟨first, first_runs, way, only⟩ := chained.exists_first plain runs path
        have select := chained.select_of_path way plain.1
        refine ⟨first, ?_, ?_⟩
        · simp only [List.mem_filter, mem_selectsRun_iff formed, decide_eq_true_eq]
          exact ⟨⟨first_runs, select⟩, only⟩
        · obtain ⟨is_plain, other_way⟩ := base_of first select
          exact is_plain.unique plain other_way way
  refine ⟨graph.selectsRun.filter (graph.Repeats ·), selects.filter _, ?_, ?_⟩
  · intro id
    simp only [List.mem_filter, mem_selectsRun_iff formed, decide_eq_true_eq]
    constructor
    · rintro ⟨⟨runs, _⟩, repeats⟩
      exact ⟨runs, repeats⟩
    · rintro ⟨runs, repeats⟩
      obtain ⟨origin, _, way⟩ := repeats
      obtain ⟨next, is_origin, _⟩ := TransGen.head'_iff.mp way
      exact ⟨⟨runs, chained.select is_origin⟩, origin, ‹_›, way⟩
  · have count := firsts.length_eq
    rw [List.length_map] at count
    rw [roundTrips_eq, ← count, ← List.countP_eq_length_filter, ← List.countP_eq_length_filter,
      List.length_eq_countP_add_countP (graph.Repeats ·), Nat.add_comm]
    simp

end Chained
end MetricEngine.Graph
