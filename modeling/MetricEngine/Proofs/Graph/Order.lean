import Mathlib.Logic.Relation
import MetricEngine.Program.Graph
import MetricEngine.Proofs.ListFacts

/-!
The order in which the stages of a graph run. It lists the stages that the root needs, each once,
and every stage behind the stages that it reads.
-/
namespace MetricEngine.Graph
open Relation

/-- A stage reads the stages that it names as inputs. -/
def Reads (graph : Graph) (reader input : Nat) : Prop :=
  input ∈ graph.inputsOf reader

/-- The stages that the root needs, itself among them. -/
def Reachable (graph : Graph) (id : Nat) : Prop :=
  ReflTransGen graph.Reads graph.root id

/-- Stages stand at the places of their numbers and read stages with smaller numbers only, and the root
is one of them. -/
structure WellFormed (graph : Graph) : Prop where
  numbered : ∀ {id stage}, graph.stage? id = some stage → stage.id = id
  inputs : ∀ {id stage}, graph.stage? id = some stage →
    ∀ input ∈ stage.inputs, 0 < input ∧ input < id
  root : (graph.stage? graph.root).isSome

/-- Every stage of a list stands behind all stages that it reads. -/
def InputsFirst (graph : Graph) (ids : List Nat) : Prop :=
  ListFacts.EachAfter (fun before id => ∀ input, graph.Reads id input → input ∈ before) ids

variable {graph : Graph}

theorem stage?_isSome_iff {id : Nat} : (graph.stage? id).isSome ↔ 0 < id ∧ id ≤ graph.all.size := by
  cases id with
  | zero => simp [stage?]
  | succ index =>
    have present : (graph.stage? (index + 1)).isSome ↔ index < graph.all.size := by simp [stage?]
    rw [present]
    omega

theorem Reads.lt {reader input : Nat} (reads : graph.Reads reader input) : input < reader := by
  simpa using (List.mem_filter.mp reads).2

theorem Reads.of_stage {reader input : Nat} (reads : graph.Reads reader input) :
    ∃ stage, graph.stage? reader = some stage ∧ input ∈ stage.inputs := by
  have member := (List.mem_filter.mp reads).1
  cases found : graph.stage? reader with
  | none => simp [found] at member
  | some stage => exact ⟨stage, rfl, by simpa [found] using member⟩

theorem reads_le {reader input : Nat} (reads : ReflTransGen graph.Reads reader input) :
    input ≤ reader := by
  induction reads with
  | refl => exact Nat.le_refl _
  | tail _ last ih => exact Nat.le_trans (Nat.le_of_lt last.lt) ih

theorem wellFormed_iff : graph.WellFormed ↔
    (∀ index, (h : index < graph.all.size) → graph.all[index].id = index + 1 ∧
      ∀ input ∈ graph.all[index].inputs, 0 < input ∧ input < index + 1) ∧
    (graph.stage? graph.root).isSome := by
  constructor
  · intro formed
    refine ⟨fun index bound => ?_, formed.root⟩
    have found : graph.stage? (index + 1) = some graph.all[index] :=
      Array.getElem?_eq_getElem bound
    exact ⟨formed.numbered found, formed.inputs found⟩
  · rintro ⟨each, root⟩
    have at_index : ∀ {id stage}, graph.stage? id = some stage →
        stage.id = id ∧ ∀ input ∈ stage.inputs, 0 < input ∧ input < id := by
      intro id stage found
      cases id with
      | zero => simp [stage?] at found
      | succ index =>
        obtain ⟨bound, rfl⟩ := Array.getElem?_eq_some_iff.mp found
        exact each index bound
    exact ⟨fun found => (at_index found).1, fun found => (at_index found).2, root⟩

instance : Decidable graph.WellFormed :=
  decidable_of_iff _ wellFormed_iff.symm

namespace WellFormed

theorem inputsOf_eq (formed : graph.WellFormed) {id : Nat} {stage : Stage}
    (found : graph.stage? id = some stage) : graph.inputsOf id = stage.inputs := by
  simp only [inputsOf, found, Option.map_some, Option.getD_some, List.filter_eq_self]
  intro input member
  simpa using (formed.inputs found input member).2

theorem input_pos (formed : graph.WellFormed) {reader input : Nat}
    (reads : graph.Reads reader input) : 0 < input := by
  obtain ⟨stage, found, member⟩ := reads.of_stage
  exact (formed.inputs found input member).1

theorem input_isSome (formed : graph.WellFormed) {reader input : Nat}
    (reads : graph.Reads reader input) : (graph.stage? input).isSome := by
  obtain ⟨stage, found, member⟩ := reads.of_stage
  have bounds := stage?_isSome_iff.mp (Option.isSome_iff_exists.mpr ⟨stage, found⟩)
  have smaller := formed.inputs found input member
  exact stage?_isSome_iff.mpr ⟨smaller.1, by omega⟩

theorem reachable_isSome (formed : graph.WellFormed) {id : Nat} (reachable : graph.Reachable id) :
    (graph.stage? id).isSome := by
  cases reachable with
  | refl => exact formed.root
  | tail _ reads => exact formed.input_isSome reads

/-- A root without inputs is all that runs. -/
theorem reachable_of_no_inputs (formed : graph.WellFormed) {stage : Stage}
    (found : graph.stage? graph.root = some stage) (alone : stage.inputs = []) {id : Nat}
    (reachable : graph.Reachable id) : id = graph.root := by
  rcases ReflTransGen.cases_head reachable with rfl | ⟨input, reads, _⟩
  · rfl
  · rw [Graph.Reads, formed.inputsOf_eq found, alone] at reads
    simp at reads

theorem root_pos (formed : graph.WellFormed) : 0 < graph.root :=
  (stage?_isSome_iff.mp formed.root).1

end WellFormed

/-- What visiting some stages does to the list of those visited before. -/
structure Visited (graph : Graph) (ids before after : List Nat) : Prop where
  kept : before <+: after
  covers : ∀ id ∈ ids, id ∈ after
  needed : ∀ id ∈ after, id ∈ before ∨ ∃ top ∈ ids, ReflTransGen graph.Reads top id
  nodup : before.Nodup → after.Nodup
  ordered : graph.InputsFirst before → graph.InputsFirst after

namespace Visited

theorem refl (graph : Graph) (visited : List Nat) : graph.Visited [] visited visited where
  kept := List.prefix_refl _
  covers := by simp
  needed := fun _ member => .inl member
  nodup := id
  ordered := id

theorem cons {id : Nat} {ids first second third : List Nat} (head : graph.Visited [id] first second)
    (tail : graph.Visited ids second third) : graph.Visited (id :: ids) first third where
  kept := head.kept.trans tail.kept
  covers := by
    intro other member
    rcases List.mem_cons.mp member with rfl | member
    · exact tail.kept.subset (head.covers other (List.mem_singleton_self _))
    · exact tail.covers other member
  needed := by
    intro other member
    rcases tail.needed other member with earlier | ⟨top, member, path⟩
    · rcases head.needed other earlier with earlier | ⟨top, member, path⟩
      · exact .inl earlier
      · exact .inr ⟨top, List.mem_cons.mpr (.inl (List.mem_singleton.mp member)), path⟩
    · exact .inr ⟨top, List.mem_cons_of_mem _ member, path⟩
  nodup := fun distinct => tail.nodup (head.nodup distinct)
  ordered := fun ordered => tail.ordered (head.ordered ordered)

/-- A stage that was not visited before comes behind its inputs. -/
theorem close {id : Nat} {first second : List Nat} (fresh : id ∉ first)
    (inputs : graph.Visited (graph.inputsOf id) first second) :
    graph.Visited [id] first (second ++ [id]) where
  kept := inputs.kept.trans (List.prefix_append _ _)
  covers := by simp
  needed := by
    intro other member
    rcases List.mem_append.mp member with member | member
    · rcases inputs.needed other member with earlier | ⟨input, reads, path⟩
      · exact .inl earlier
      · exact .inr ⟨id, List.mem_singleton_self _, .head reads path⟩
    · exact .inr ⟨id, List.mem_singleton_self _, by rw [List.mem_singleton.mp member]⟩
  nodup := by
    intro distinct
    refine List.nodup_append.mpr ⟨inputs.nodup distinct, List.nodup_singleton id, ?_⟩
    rintro other member _ same rfl
    obtain rfl := List.mem_singleton.mp same
    rcases inputs.needed other member with earlier | ⟨input, reads, path⟩
    · exact fresh earlier
    · exact absurd (reads_le path) (Nat.not_le.mpr (Reads.lt reads))
  ordered := fun ordered => ListFacts.EachAfter.concat (inputs.ordered ordered) inputs.covers

end Visited

theorem visit_visited (formed : graph.WellFormed) (depth : Nat) :
    ∀ visited id, 0 < id → id ≤ depth → graph.Visited [id] visited (graph.visit depth visited id) := by
  induction depth with
  | zero => intro visited id positive bound; omega
  | succ depth ih =>
    intro visited id positive bound
    rw [visit]
    split
    next seen =>
      have same := Visited.refl graph visited
      exact ⟨same.kept, by simpa using seen, fun _ member => .inl member, same.nodup, same.ordered⟩
    next fresh =>
      apply Visited.close fresh
      have inputs : ∀ input ∈ graph.inputsOf id, 0 < input ∧ input ≤ depth := by
        intro input reads
        have smaller := Reads.lt reads
        exact ⟨formed.input_pos reads, by omega⟩
      revert inputs
      generalize graph.inputsOf id = inputs
      intro bounds
      -- The inputs are visited from left to right, each from where the one before it left off.
      clear fresh
      induction inputs generalizing visited with
      | nil => exact .refl graph visited
      | cons input rest tail =>
        have bound := bounds input List.mem_cons_self
        exact (ih visited input bound.1 bound.2).cons
          (tail _ fun other member => bounds other (List.mem_cons_of_mem _ member))

theorem order_visited (formed : graph.WellFormed) :
    graph.Visited [graph.root] [] graph.order :=
  visit_visited formed graph.root [] graph.root formed.root_pos (Nat.le_refl _)

theorem order_nodup (formed : graph.WellFormed) : graph.order.Nodup :=
  (order_visited formed).nodup List.nodup_nil

theorem order_inputsFirst (formed : graph.WellFormed) : graph.InputsFirst graph.order :=
  (order_visited formed).ordered ListFacts.EachAfter.nil

theorem root_mem_order (formed : graph.WellFormed) : graph.root ∈ graph.order :=
  (order_visited formed).covers _ (List.mem_singleton_self _)

theorem mem_order_of_reads (formed : graph.WellFormed) {reader input : Nat}
    (member : reader ∈ graph.order) (reads : graph.Reads reader input) : input ∈ graph.order := by
  obtain ⟨before, after, split⟩ := List.append_of_mem member
  have earlier := order_inputsFirst formed before reader after split input reads
  exact split ▸ List.mem_append_left _ earlier

/-- The stages that run are those that the root needs. -/
theorem mem_order_iff (formed : graph.WellFormed) {id : Nat} :
    id ∈ graph.order ↔ graph.Reachable id := by
  constructor
  · intro member
    rcases (order_visited formed).needed id member with earlier | ⟨top, same, path⟩
    · simp at earlier
    · rwa [List.mem_singleton.mp same] at path
  · intro reachable
    induction reachable with
    | refl => exact root_mem_order formed
    | tail _ reads ih => exact mem_order_of_reads formed ih reads

theorem mem_stages_iff (formed : graph.WellFormed) {stage : Stage} :
    stage ∈ graph.stages ↔ graph.Reachable stage.id ∧ graph.stage? stage.id = some stage := by
  simp only [stages, List.mem_filterMap, mem_order_iff formed]
  constructor
  · rintro ⟨id, reachable, found⟩
    obtain rfl := formed.numbered found
    exact ⟨reachable, found⟩
  · rintro ⟨reachable, found⟩
    exact ⟨stage.id, reachable, found⟩

theorem stages_ids (formed : graph.WellFormed) : graph.stages.map (·.id) = graph.order := by
  rw [stages, List.map_filterMap]
  have numbered : ∀ id ∈ graph.order, (graph.stage? id).map (·.id) = some id := by
    intro id member
    have found := formed.reachable_isSome ((mem_order_iff formed).mp member)
    obtain ⟨stage, found⟩ := Option.isSome_iff_exists.mp found
    rw [found, Option.map_some, formed.numbered found]
  rw [List.filterMap_congr numbered, List.filterMap_some]

theorem stages_distinct (formed : graph.WellFormed) : (graph.stages.map (·.id)).Nodup := by
  rw [stages_ids formed]
  exact order_nodup formed

end MetricEngine.Graph
