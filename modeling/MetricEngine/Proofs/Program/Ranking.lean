import MetricEngine.Program.Operation
import MetricEngine.Proofs.Aggregation.Summaries
import MetricEngine.Proofs.Heap

/-!
Which series a ranking selects. Its heap keeps the best ones of a stream of series: `Keeps` ties it to the
series seen so far. So the scores of the selected series are the first of all scores in the order of the
ranking, with ties, infinities and NaNs.
-/
namespace MetricEngine
open ListFacts

namespace Ranking

/-- Of all series `kept` are as many as the count allows, best first, and those left out are no better. -/
structure Best (ranking : Ranking) (all kept omitted : List Series) : Prop where
  perm : (kept ++ omitted).Perm all
  number : kept.length = min ranking.count all.length
  ordered : kept.Pairwise fun a b => ranking.place a.sum ≤ ranking.place b.sum
  beats : ∀ series ∈ kept, ∀ other ∈ omitted, ranking.place series.sum ≤ ranking.place other.sum

/-- The heap is full once a series is gone, and none of those gone is better than one in it. -/
structure Keeps (ranking : Ranking) (seen : List Series) (heap : Array Series) (gone : List Series) : Prop where
  perm : (heap.toList ++ gone).Perm seen
  ordered : Heap.Ordered ranking.weight heap
  fits : heap.size ≤ ranking.count
  full : gone ≠ [] → heap.size = ranking.count
  beats : ∀ series ∈ heap.toList, ∀ other ∈ gone, ranking.weight series ≤ ranking.weight other

variable {ranking : Ranking} {seen gone all kept omitted : List Series} {heap : Array Series}
  {series : Series}

theorem place_injective (ranking : Ranking) : Function.Injective ranking.place := by
  intro x y same
  apply Binary64.totalKey_injective
  unfold place at same
  split at same <;> omega

/-! The heap. -/

namespace Keeps

theorem initial (ranking : Ranking) : ranking.Keeps [] #[] [] where
  perm := .refl _
  ordered _ _ inside := absurd inside (Nat.not_lt_zero _)
  fits := Nat.zero_le _
  full none_gone := absurd rfl none_gone
  beats := by simp

/-- While there is room, one more series stays. -/
theorem stays (keeps : ranking.Keeps seen heap gone) (room : heap.size < ranking.count) :
    ranking.Keeps (seen ++ [series]) (Heap.push ranking.weight heap series) gone := by
  have added := Heap.push_perm ranking.weight heap series
  have none_gone : gone = [] := by
    by_contra some_gone
    exact Nat.ne_of_lt room (keeps.full some_gone)
  subst none_gone
  refine ⟨?_, keeps.ordered.push series, ?_, by simp, by simp⟩
  · rw [List.append_nil]
    refine (added.trans (.cons series ?_)).trans (List.perm_append_singleton series seen).symm
    simpa using keeps.perm
  · have size : (Heap.push ranking.weight heap series).size = heap.size + 1 := added.length_eq
    omega

/-- When there is no room, the one in front goes, which is a worst one. -/
theorem drops (keeps : ranking.Keeps seen heap gone) (no_room : heap.size = ranking.count)
    {worst : Series} {rest : Array Series}
    (popped : Heap.pop? ranking.weight true (Heap.push ranking.weight heap series) = some (worst, rest)) :
    ranking.Keeps (seen ++ [series]) rest (worst :: gone) := by
  obtain ⟨in_front, taken⟩ := Heap.pop?_perm popped
  have pushed := keeps.ordered.push series
  have added : (worst :: rest.toList).Perm (series :: heap.toList) :=
    taken.trans (Heap.push_perm ranking.weight heap series)
  have worst_of : ∀ other ∈ worst :: rest.toList, ranking.weight other ≤ ranking.weight worst :=
    fun other member => pushed.le_front in_front (taken.mem_iff.mp member)
  have size : rest.size = heap.size := Nat.succ.inj added.length_eq
  refine ⟨?_, pushed.pop? popped, ?_, ?_, ?_⟩
  · calc
      (rest.toList ++ worst :: gone).Perm (worst :: (rest.toList ++ gone)) := List.perm_middle
      List.Perm _ (series :: (heap.toList ++ gone)) := added.append_right gone
      List.Perm _ (series :: seen) := keeps.perm.cons series
      List.Perm _ (seen ++ [series]) := (List.perm_append_singleton series seen).symm
  · rw [size]
    exact keeps.fits
  · exact fun _ => size.trans no_room
  · intro staying member other left
    have no_worse := worst_of staying (List.mem_cons_of_mem worst member)
    rcases List.mem_cons.mp left with rfl | left_before
    · exact no_worse
    · rcases List.mem_cons.mp (added.mem_iff.mp List.mem_cons_self) with rfl | queued_before
      · exact keeps.beats staying ((List.perm_cons worst).mp added |>.mem_iff.mp member) other left_before
      · exact Int.le_trans no_worse (keeps.beats worst queued_before other left_before)

theorem consider (keeps : ranking.Keeps seen heap gone) (series : Series) :
    ∃ gone, ranking.Keeps (seen ++ [series]) (ranking.consider heap series) gone := by
  have size : (Heap.push ranking.weight heap series).size = heap.size + 1 :=
    (Heap.push_perm ranking.weight heap series).length_eq
  have fits := keeps.fits
  dsimp only [Ranking.consider]
  split
  next crowded =>
    obtain ⟨⟨worst, rest⟩, popped⟩ := Option.isSome_iff_exists.mp
      (Heap.pop?_isSome ranking.weight true (Nat.lt_of_le_of_lt (Nat.zero_le _) crowded))
    rw [popped]
    exact ⟨worst :: gone, keeps.drops (by omega) popped⟩
  next room => exact ⟨gone, keeps.stays (by omega)⟩

/-- The heap keeps the best ones of a whole stream. -/
theorem of_stream (ranking : Ranking) (seen : List Series) :
    ∃ gone, ranking.Keeps seen (seen.foldl ranking.consider #[]) gone := by
  induction seen using List.reverseRecOn with
  | nil => exact ⟨[], .initial ranking⟩
  | append_singleton seen series ih =>
    obtain ⟨gone, keeps⟩ := ih
    rw [List.foldl_append]
    exact keeps.consider series

end Keeps

/-! The selection. -/

/-- The series of the heap are put in order, whether they are sorted or leave it one by one. -/
theorem select_perm_sorted (ranking : Ranking) (all : List Series)
    (ordered : Heap.Ordered ranking.weight (all.foldl ranking.consider #[])) :
    (ranking.select all).Perm (all.foldl ranking.consider #[]).toList ∧
    (ranking.select all).Pairwise fun a b => ranking.weight a ≤ ranking.weight b := by
  dsimp only [select]
  split
  · constructor
    · simpa using Heap.drain_perm ranking.weight (all.foldl ranking.consider #[]) []
    · exact ordered.drain .nil (by simp)
  · constructor
    · exact List.mergeSort_perm _ _
    · exact pairwise_mergeSort_of_key (fun _ _ => by simp) _

theorem select_best (ranking : Ranking) (all : List Series) :
    ∃ omitted, ranking.Best all (ranking.select all) omitted := by
  obtain ⟨gone, keeps⟩ := Keeps.of_stream ranking all
  obtain ⟨perm, sorted⟩ := select_perm_sorted ranking all keeps.ordered
  refine ⟨gone, (perm.append_right gone).trans keeps.perm, ?_, sorted, ?_⟩
  · have fits := keeps.fits
    have size : (ranking.select all).length = (all.foldl ranking.consider #[]).size := perm.length_eq
    have length : (all.foldl ranking.consider #[]).size + gone.length = all.length := by
      simpa using keeps.perm.length_eq
    by_cases none_gone : gone = []
    · subst none_gone
      simp only [List.length_nil] at length
      omega
    · have full := keeps.full none_gone
      omega
  · intro series kept
    exact keeps.beats series (perm.mem_iff.mp kept)

theorem mem_of_selected (selected : series ∈ ranking.select all) : series ∈ all := by
  obtain ⟨omitted, best⟩ := ranking.select_best all
  exact best.perm.mem_iff.mp (List.mem_append_left omitted selected)

/-- The scores of the best series are the first ones of all scores in the order of the ranking. -/
theorem Best.scores (best : ranking.Best all kept omitted) :
    kept.map (·.sum) =
      ((all.map (·.sum)).mergeSort fun x y => ranking.place x ≤ ranking.place y).take ranking.count := by
  have compares : ∀ x y, decide (ranking.place x ≤ ranking.place y) ↔ ranking.place x ≤ ranking.place y :=
    fun _ _ => by simp
  let others := (omitted.map (·.sum)).mergeSort fun x y => ranking.place x ≤ ranking.place y
  have others_perm : others.Perm (omitted.map (·.sum)) := List.mergeSort_perm _ _
  have perm : (kept.map (·.sum) ++ others).Perm (all.map (·.sum)) := by
    refine (others_perm.append_left _).trans ?_
    rw [← List.map_append]
    exact best.perm.map _
  have sorted : (kept.map (·.sum) ++ others).Pairwise fun x y => ranking.place x ≤ ranking.place y := by
    refine List.pairwise_append.mpr
      ⟨List.pairwise_map.mpr best.ordered, pairwise_mergeSort_of_key compares _, ?_⟩
    intro x x_kept y y_omitted
    obtain ⟨series, kept, rfl⟩ := List.mem_map.mp x_kept
    obtain ⟨other, omitted, rfl⟩ := List.mem_map.mp (others_perm.mem_iff.mp y_omitted)
    exact best.beats series kept other omitted
  have whole : (all.map (·.sum)).mergeSort (fun x y => ranking.place x ≤ ranking.place y) =
      kept.map (·.sum) ++ others := by
    refine List.Perm.eq_of_pairwise ?_ (pairwise_mergeSort_of_key compares _) sorted
      ((List.mergeSort_perm _ _).trans perm.symm)
    exact fun x y _ _ x_first y_first => ranking.place_injective (Int.le_antisymm x_first y_first)
  have lengths : kept.length + others.length = all.length := by simpa using perm.length_eq
  have number := best.number
  have enough : ranking.count - kept.length = 0 ∨ others = [] := by
    rw [← List.length_eq_zero_iff]
    omega
  have fits : (kept.map (·.sum)).length ≤ ranking.count := by
    rw [List.length_map]
    omega
  rw [whole, List.take_append, List.take_of_length_le fits, List.length_map,
    List.take_eq_nil_iff.mpr enough, List.append_nil]

end Ranking
end MetricEngine
