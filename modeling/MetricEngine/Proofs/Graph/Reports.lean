import MetricEngine.Proofs.Graph.Order

/-!
The stages whose unknown arguments are reported: those that run, and the selects that they were lifted
from. Each is listed once.
-/
namespace MetricEngine.Graph
open Relation

/-- The select that a stage was lifted from. -/
def Origin (graph : Graph) (id origin : Nat) : Prop :=
  ∃ stage, graph.stage? id = some stage ∧ stage.liftedFrom = some origin

/-- A stage needs those that it reads and the select that it was lifted from. -/
def Needs (graph : Graph) (id other : Nat) : Prop :=
  graph.Reads id other ∨ graph.Origin id other

/-- Stages are lifted from selects with smaller numbers. -/
def OriginsFirst (graph : Graph) : Prop :=
  ∀ id origin, graph.Origin id origin → 0 < origin ∧ origin < id

/-- What following the origins of one stage finds beside the stages already seen. -/
structure Ancestors (graph : Graph) (seen : List Nat) (id : Nat) (found : List Nat) : Prop where
  fresh : ∀ other ∈ found, other ∉ seen
  nodup : found.Nodup
  covers : id ∈ found ∨ id ∈ seen
  needed : ∀ other ∈ found, ReflTransGen graph.Origin id other
  closed : ∀ other ∈ found, ∀ origin, graph.Origin other origin → origin ∈ found ∨ origin ∈ seen

variable {graph : Graph}

theorem Origin.isSome (first : graph.OriginsFirst) {id origin : Nat} (lifted : graph.Origin id origin) :
    (graph.stage? origin).isSome := by
  have smaller := first id origin lifted
  obtain ⟨stage, found, _⟩ := lifted
  have bounds := stage?_isSome_iff.mp (Option.isSome_iff_exists.mpr ⟨stage, found⟩)
  exact stage?_isSome_iff.mpr ⟨smaller.1, by omega⟩

namespace Ancestors
variable {seen found : List Nat} {id : Nat}

theorem known (member : id ∈ seen) : graph.Ancestors seen id [] :=
  ⟨by simp, List.nodup_nil, .inr member, by simp, by simp⟩

theorem single (fresh : id ∉ seen) (plain : ∀ origin, ¬graph.Origin id origin) :
    graph.Ancestors seen id [id] := by
  refine ⟨by simpa using fresh, List.nodup_singleton _, .inl (List.mem_singleton_self _), ?_, ?_⟩
  · intro other member
    rw [List.mem_singleton.mp member]
  · intro other member origin is_origin
    rw [List.mem_singleton.mp member] at is_origin
    exact absurd is_origin (plain origin)

/-- A stage that was not seen before stands before those that it comes from. -/
theorem cons {origin : Nat} (fresh : id ∉ seen) (is_origin : graph.Origin id origin)
    (only : ∀ other, graph.Origin id other → other = origin)
    (rest : graph.Ancestors (id :: seen) origin found) : graph.Ancestors seen id (id :: found) := by
  refine ⟨?_, ?_, .inl List.mem_cons_self, ?_, ?_⟩
  · intro other member known
    rcases List.mem_cons.mp member with rfl | member
    · exact fresh known
    · exact rest.fresh other member (List.mem_cons_of_mem _ known)
  · exact List.nodup_cons.mpr ⟨fun member => rest.fresh id member List.mem_cons_self, rest.nodup⟩
  · intro other member
    rcases List.mem_cons.mp member with rfl | member
    · exact .refl
    · exact .head is_origin (rest.needed other member)
  · have somewhere : ∀ {other}, other ∈ found ∨ other ∈ id :: seen →
        other ∈ id :: found ∨ other ∈ seen := by
      grind
    intro other member next is_next
    rcases List.mem_cons.mp member with rfl | member
    · exact only next is_next ▸ somewhere rest.covers
    · exact somewhere (rest.closed other member next is_next)

end Ancestors

theorem ancestry_ancestors (first : graph.OriginsFirst) (depth : Nat) :
    ∀ seen id, id ≤ depth → (graph.stage? id).isSome →
      graph.Ancestors seen id (graph.ancestry depth seen (some id)) := by
  induction depth with
  | zero =>
    intro seen id bound found
    have := (stage?_isSome_iff.mp found).1
    omega
  | succ depth ih =>
    intro seen id bound found
    obtain ⟨stage, found⟩ := Option.isSome_iff_exists.mp found
    have origin_iff : ∀ origin, graph.Origin id origin ↔ stage.liftedFrom = some origin := by
      intro origin
      simp [Origin, found]
    rw [ancestry]
    split
    next known => exact .known known
    next fresh =>
      rw [found]
      dsimp only
      cases lifted : stage.liftedFrom with
      | none =>
        have none_found : graph.ancestry depth (id :: seen) none = [] := by cases depth <;> rfl
        rw [none_found]
        exact .single fresh fun origin => by simp [origin_iff, lifted]
      | some origin =>
        have is_origin : graph.Origin id origin := (origin_iff origin).mpr lifted
        have smaller := first id origin is_origin
        have rest := ih (id :: seen) origin (by omega) (is_origin.isSome first)
        refine .cons fresh is_origin ?_ rest
        intro other is_other
        exact Option.some.inj (((origin_iff other).mp is_other).symm.trans lifted)

/-- The stages reported when some of those that run have been looked at. -/
structure Reports (graph : Graph) (looked reported : List Nat) : Prop where
  nodup : reported.Nodup
  covers : ∀ id ∈ looked, id ∈ reported
  needed : ∀ id ∈ reported, ∃ top ∈ looked, ReflTransGen graph.Origin top id
  closed : ∀ id ∈ reported, ∀ origin, graph.Origin id origin → origin ∈ reported

theorem Reports.concat {looked reported found : List Nat} {id : Nat}
    (reports : graph.Reports looked reported) (ancestors : graph.Ancestors reported id found) :
    graph.Reports (looked ++ [id]) (reported ++ found) := by
  refine ⟨?_, ?_, ?_, ?_⟩
  · refine List.nodup_append.mpr ⟨reports.nodup, ancestors.nodup, ?_⟩
    rintro other known _ member rfl
    exact ancestors.fresh other member known
  · intro other member
    rcases List.mem_append.mp member with before | last
    · exact List.mem_append_left _ (reports.covers other before)
    · rw [List.mem_singleton.mp last]
      exact List.mem_append.mpr ancestors.covers.symm
  · intro other member
    rcases List.mem_append.mp member with known | member
    · obtain ⟨top, listed, path⟩ := reports.needed other known
      exact ⟨top, List.mem_append_left _ listed, path⟩
    · exact ⟨id, List.mem_append_right _ (List.mem_singleton_self _), ancestors.needed other member⟩
  · intro other member origin is_origin
    rcases List.mem_append.mp member with known | member
    · exact List.mem_append_left _ (reports.closed other known origin is_origin)
    · exact List.mem_append.mpr (ancestors.closed other member origin is_origin).symm

theorem reported_reports (formed : graph.WellFormed) (first : graph.OriginsFirst) :
    graph.Reports graph.order graph.reported := by
  have from_prefix : ∀ (rest looked reported : List Nat), graph.Reports looked reported →
      (∀ id ∈ rest, id ∈ graph.order) →
      graph.Reports (looked ++ rest)
        (rest.foldl (fun seen id => seen ++ graph.ancestry graph.root seen (some id)) reported) := by
    intro rest
    induction rest with
    | nil =>
      intro looked reported reports _
      simpa using reports
    | cons id rest ih =>
      intro looked reported reports runs
      have reachable := (mem_order_iff formed).mp (runs id List.mem_cons_self)
      have ancestors := ancestry_ancestors first graph.root reported id (reads_le reachable)
        (formed.reachable_isSome reachable)
      have step := ih (looked ++ [id]) _ (reports.concat ancestors)
        fun other member => runs other (List.mem_cons_of_mem _ member)
      simpa using step
  have none : graph.Reports [] [] := ⟨List.nodup_nil, by simp, by simp, by simp⟩
  simpa [reported] using from_prefix graph.order [] [] none fun _ member => member

theorem mem_reported_iff (formed : graph.WellFormed) (first : graph.OriginsFirst) {id : Nat} :
    id ∈ graph.reported ↔ ∃ top, graph.Reachable top ∧ ReflTransGen graph.Origin top id := by
  have reports := reported_reports formed first
  constructor
  · intro member
    obtain ⟨top, runs, path⟩ := reports.needed id member
    exact ⟨top, (mem_order_iff formed).mp runs, path⟩
  · rintro ⟨top, reachable, path⟩
    induction path with
    | refl => exact reports.covers top ((mem_order_iff formed).mpr reachable)
    | tail _ is_origin ih => exact reports.closed _ ih _ is_origin

/-- The warnings for one stage. -/
def warningsOf (graph : Graph) (id : Nat) : List String :=
  (graph.stage? id).toList.flatMap fun stage =>
    stage.unknownArgs.map fun key => "Unknown argument " ++ key

theorem warnings_eq (graph : Graph) : graph.warnings = graph.reported.flatMap graph.warningsOf := by
  rw [warnings]
  generalize graph.reported = ids
  induction ids with
  | nil => rfl
  | cons id ids ih =>
    rw [List.flatMap_cons, ← ih]
    cases found : graph.stage? id <;> simp [warningsOf, found]

end MetricEngine.Graph
