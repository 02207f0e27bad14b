import MetricEngine.Heap

/-!
Heaps keep their order. While an item moves, only the pairs at its place may be out of order, and the item above
it weighs no less than those below it; this holds after each move, and where the item stops all pairs are
in order. So the item in front is a heaviest one, and draining sorts.
-/
namespace MetricEngine.Heap
variable {α : Type} {weight : α → Int} {heap rest : Array α} {place below i j : Nat} {pastEquals : Bool}

/-- No item weighs more than the one above it. -/
def Ordered (weight : α → Int) (heap : Array α) : Prop :=
  ∀ i, 0 < i → i < heap.size → weightAt weight heap i ≤ weightAt weight heap ((i - 1) / 2)

theorem weightAt_of_mem (weight : α → Int) {item : α} (found : heap[i]? = some item) : weightAt weight heap i = weight item := by
  rw [weightAt, found]
  rfl

theorem weightAt_swap (weight : α → Int) (i_inside : i < heap.size) (j_inside : j < heap.size) (k : Nat) :
    weightAt weight (heap.swapIfInBounds i j) k =
      if k = i then weightAt weight heap j else if k = j then weightAt weight heap i
      else weightAt weight heap k := by
  have swapped : heap.swapIfInBounds i j = heap.swap i j := by
    rw [Array.swapIfInBounds_def, dif_pos i_inside, dif_pos j_inside]
  rw [swapped, weightAt, Array.getElem?_swap]
  by_cases at_j : j = k
  · subst at_j
    by_cases same : j = i
    · simp [weightAt, same, i_inside]
    · simp [weightAt, same, i_inside]
  · by_cases at_i : i = k
    · subst at_i
      simp [weightAt, at_j, j_inside]
    · simp [weightAt, at_j, at_i, Ne.symm at_j, Ne.symm at_i]

theorem swap_perm (heap : Array α) (i j : Nat) : (heap.swapIfInBounds i j).toList.Perm heap.toList := by
  rw [Array.swapIfInBounds_def]
  split
  · split
    · exact (Array.swap_perm _ _).toList
    · exact .refl _
  · exact .refl _

/-! Going up. -/

/-- All pairs are in order but the one of a place and the place above it, whose item weighs no less than those
below the place. -/
structure Rises (weight : α → Int) (heap : Array α) (place : Nat) : Prop where
  inside : place < heap.size
  ordered : ∀ i, 0 < i → i < heap.size → i ≠ place →
    weightAt weight heap i ≤ weightAt weight heap ((i - 1) / 2)
  across : 0 < place → ∀ i, 0 < i → i < heap.size → (i - 1) / 2 = place →
    weightAt weight heap i ≤ weightAt weight heap ((place - 1) / 2)

/-- The lighter item that comes down stands over what was below the other one, and the heavier one over its old
sibling. -/
theorem Rises.ordered_of_move (rises : Rises weight heap place) (higher : 0 < place)
    (heavier : weightAt weight heap ((place - 1) / 2) < weightAt weight heap place)
    (positive : 0 < i) (i_inside : i < heap.size) (other : i ≠ (place - 1) / 2) :
    weightAt weight (heap.swapIfInBounds place ((place - 1) / 2)) i ≤
      weightAt weight (heap.swapIfInBounds place ((place - 1) / 2)) ((i - 1) / 2) := by
  have inside := rises.inside
  have weights := weightAt_swap weight inside (show (place - 1) / 2 < heap.size by omega)
  rw [weights, weights]
  by_cases moved : i = place
  · rw [if_pos moved, moved, if_neg (by omega), if_pos rfl]
    exact Int.le_of_lt heavier
  · rw [if_neg moved, if_neg other]
    have before := rises.ordered i positive i_inside moved
    by_cases under : (i - 1) / 2 = place
    · rw [if_pos under]
      exact rises.across higher i positive i_inside under
    · rw [if_neg under]
      split
      next beside =>
        rw [beside] at before
        omega
      next => exact before

theorem Rises.across_of_move (rises : Rises weight heap place) (above_positive : 0 < (place - 1) / 2)
    (positive : 0 < i) (i_inside : i < heap.size) (under : (i - 1) / 2 = (place - 1) / 2) :
    weightAt weight (heap.swapIfInBounds place ((place - 1) / 2)) i ≤
      weightAt weight (heap.swapIfInBounds place ((place - 1) / 2)) (((place - 1) / 2 - 1) / 2) := by
  have inside := rises.inside
  have weights := weightAt_swap weight inside (show (place - 1) / 2 < heap.size by omega)
  have above := rises.ordered ((place - 1) / 2) above_positive (by omega) (by omega)
  rw [weights, weights, if_neg (by omega : ((place - 1) / 2 - 1) / 2 ≠ place),
    if_neg (by omega : ((place - 1) / 2 - 1) / 2 ≠ (place - 1) / 2)]
  by_cases moved : i = place
  · rw [if_pos moved]
    exact above
  · have before := rises.ordered i positive i_inside moved
    rw [under] at before
    rw [if_neg moved, if_neg (by omega)]
    exact Int.le_trans before above

theorem Rises.move (rises : Rises weight heap place) (higher : 0 < place)
    (heavier : weightAt weight heap ((place - 1) / 2) < weightAt weight heap place) :
    Rises weight (heap.swapIfInBounds place ((place - 1) / 2)) ((place - 1) / 2) where
  inside := by
    have inside := rises.inside
    rw [Array.size_swapIfInBounds]
    omega
  ordered i positive i_inside other :=
    rises.ordered_of_move higher heavier positive (by simpa using i_inside) other
  across above_positive i positive i_inside under :=
    rises.across_of_move above_positive positive (by simpa using i_inside) under

theorem Rises.stop (rises : Rises weight heap place)
    (stops : ¬(0 < place ∧ weightAt weight heap ((place - 1) / 2) < weightAt weight heap place)) :
    Ordered weight heap := by
  intro i positive i_inside
  by_cases here : i = place
  · subst here
    omega
  · exact rises.ordered i positive i_inside here

theorem siftUp_perm (weight : α → Int) (heap : Array α) (place : Nat) :
    (siftUp weight heap place).toList.Perm heap.toList := by
  induction heap, place using siftUp.induct weight with
  | case1 heap place _ moves ih =>
    rw [siftUp, dif_pos moves]
    exact ih.trans (swap_perm heap _ _)
  | case2 heap place _ stops =>
    rw [siftUp, dif_neg stops]

theorem Rises.siftUp (rises : Rises weight heap place) : Ordered weight (siftUp weight heap place) := by
  induction heap, place using siftUp.induct weight with
  | case1 heap place _ moves ih =>
    rw [Heap.siftUp, dif_pos moves]
    exact ih (rises.move moves.1 moves.2)
  | case2 heap place _ stops =>
    rw [Heap.siftUp, dif_neg stops]
    exact rises.stop stops

theorem push_perm (weight : α → Int) (heap : Array α) (item : α) :
    (push weight heap item).toList.Perm (item :: heap.toList) := by
  refine (siftUp_perm weight _ _).trans ?_
  rw [Array.toList_push]
  exact List.perm_append_singleton item heap.toList

theorem Ordered.push (ordered : Ordered weight heap) (item : α) : Ordered weight (push weight heap item) := by
  have same : ∀ i, i < heap.size → weightAt weight (heap.push item) i = weightAt weight heap i := by
    intro i inside
    rw [weightAt, Array.getElem?_push, if_neg (by omega), weightAt]
  refine Rises.siftUp ⟨by simp, fun i positive i_inside other => ?_, fun _ i _ i_inside at_end => ?_⟩
  · have i_inside : i < heap.size := by
      rw [Array.size_push] at i_inside
      omega
    rw [same i i_inside, same _ (by omega)]
    exact ordered i positive i_inside
  · rw [Array.size_push] at i_inside
    omega

/-! Going down. -/

theorem heavier?_eq_some (found : heavier? weight heap place = some below) :
    (below - 1) / 2 = place ∧ place < below ∧ below < heap.size ∧
    ∀ i, 0 < i → i < heap.size → (i - 1) / 2 = place → weightAt weight heap i ≤ weightAt weight heap below := by
  have bounds := heavier?_bounds weight found
  unfold heavier? at found
  split at found
  next both =>
    obtain rfl := Option.some.inj found
    refine ⟨by omega, bounds.1, bounds.2, fun i positive _ under => ?_⟩
    obtain rfl | rfl : i = 2 * place + 1 ∨ i = 2 * place + 2 := by omega
    · exact both.2
    · exact Int.le_refl _
  next not_second =>
    split at found
    next =>
      obtain rfl := Option.some.inj found
      refine ⟨by omega, bounds.1, bounds.2, fun i positive i_inside under => ?_⟩
      obtain rfl | rfl : i = 2 * place + 1 ∨ i = 2 * place + 2 := by omega
      · exact Int.le_refl _
      · omega
    next => simp at found

theorem heavier?_eq_none (missing : heavier? weight heap place = none) :
    ∀ i, 0 < i → i < heap.size → (i - 1) / 2 ≠ place := by
  unfold heavier? at missing
  split at missing
  · simp at missing
  · split at missing
    · simp at missing
    · omega

/-- All pairs are in order but those of a place and the places below it, whose items weigh no more than the one
above the place. -/
structure Sinks (weight : α → Int) (heap : Array α) (place : Nat) : Prop where
  ordered : ∀ i, 0 < i → i < heap.size → (i - 1) / 2 ≠ place →
    weightAt weight heap i ≤ weightAt weight heap ((i - 1) / 2)
  across : 0 < place → ∀ i, 0 < i → i < heap.size → (i - 1) / 2 = place →
    weightAt weight heap i ≤ weightAt weight heap ((place - 1) / 2)

theorem Sinks.move (sinks : Sinks weight heap place) (found : heavier? weight heap place = some below)
    (no_lighter : weightAt weight heap place ≤ weightAt weight heap below) :
    Sinks weight (heap.swapIfInBounds place below) below := by
  obtain ⟨under, lower, inside, heaviest⟩ := heavier?_eq_some found
  have weights := weightAt_swap weight (Nat.lt_trans lower inside) inside
  refine ⟨fun i positive i_inside other => ?_, fun _ i positive i_inside at_below => ?_⟩
  · rw [Array.size_swapIfInBounds] at i_inside
    rw [weights, weights, if_neg other]
    by_cases here : i = place
    · subst here
      rw [if_pos rfl, if_neg (by omega)]
      exact sinks.across positive below (by omega) inside under
    · rw [if_neg here]
      by_cases sibling : (i - 1) / 2 = place
      · rw [if_pos sibling]
        split
        · exact no_lighter
        · exact heaviest i positive i_inside sibling
      · rw [if_neg sibling, if_neg (by rintro rfl; exact sibling under)]
        exact sinks.ordered i positive i_inside sibling
  · rw [Array.size_swapIfInBounds] at i_inside
    rw [weights, weights, under, if_pos rfl, if_neg (by omega), if_neg (by omega), ← at_below]
    exact sinks.ordered i positive i_inside (by omega)

theorem Sinks.stop (sinks : Sinks weight heap place)
    (stops : ∀ i, 0 < i → i < heap.size → (i - 1) / 2 = place →
      weightAt weight heap i ≤ weightAt weight heap place) : Ordered weight heap := by
  intro i positive i_inside
  by_cases under : (i - 1) / 2 = place
  · rw [under]
    exact stops i positive i_inside under
  · exact sinks.ordered i positive i_inside under

theorem siftDown_perm (weight : α → Int) (pastEquals : Bool) (heap : Array α) (place : Nat) :
    (siftDown weight pastEquals heap place).toList.Perm heap.toList := by
  induction heap, place using siftDown.induct weight pastEquals with
  | case1 heap place found => rw [siftDown, found]
  | case2 heap place below found moves ih =>
    rw [siftDown, found]
    simp only [moves, if_true]
    exact ih.trans (swap_perm heap _ _)
  | case3 heap place below found stops =>
    rw [siftDown, found]
    simp only [stops, if_false]
    exact .refl _

theorem Sinks.siftDown (sinks : Sinks weight heap place) :
    Ordered weight (siftDown weight pastEquals heap place) := by
  induction heap, place using siftDown.induct weight pastEquals with
  | case1 heap place missing =>
    rw [Heap.siftDown, missing]
    exact sinks.stop fun i positive i_inside under => absurd under (heavier?_eq_none missing i positive i_inside)
  | case2 heap place below found moves ih =>
    rw [Heap.siftDown, found]
    simp only [moves, if_true]
    exact ih (sinks.move found (by omega))
  | case3 heap place below found stops =>
    rw [Heap.siftDown, found]
    simp only [stops, if_false]
    refine sinks.stop fun i positive i_inside under => ?_
    have heaviest := (heavier?_eq_some found).2.2.2 i positive i_inside under
    omega

/-! Taking out. -/

/-- The item in front is a heaviest one. -/
theorem Ordered.weightAt_le (ordered : Ordered weight heap) (i : Nat) (inside : i < heap.size) :
    weightAt weight heap i ≤ weightAt weight heap 0 := by
  induction i using Nat.strongRecOn with
  | ind i ih =>
    by_cases first : i = 0
    · subst first
      exact Int.le_refl _
    · have above := ordered i (by omega) inside
      have front := ih ((i - 1) / 2) (by omega) (by omega)
      omega

theorem Ordered.le_front (ordered : Ordered weight heap) {front item : α} (is_front : heap[0]? = some front)
    (member : item ∈ heap.toList) : weight item ≤ weight front := by
  obtain ⟨i, inside, found⟩ := Array.mem_iff_getElem.mp (Array.mem_def.mpr member)
  have at_i : heap[i]? = some item := by rw [Array.getElem?_eq_getElem inside, found]
  rw [← weightAt_of_mem weight is_front, ← weightAt_of_mem weight at_i]
  exact ordered.weightAt_le i inside

/-- The item in front is gone once the last one stands in its place. -/
theorem replaced_perm {front last : α} (is_front : heap[0]? = some front) (is_last : heap.back? = some last) :
    (front :: (heap.pop.setIfInBounds 0 last).toList).Perm heap.toList := by
  obtain ⟨items⟩ := heap
  cases items with
  | nil => simp at is_front
  | cons first others =>
    obtain rfl : first = front := by simpa using is_front
    rcases List.eq_nil_or_concat others with rfl | ⟨middle, back, rfl⟩
    · simp
    · have split : first :: middle.concat back = (first :: middle) ++ [back] := by simp
      have ends : ((first :: middle) ++ [back]).getLast? = some last := by
        rw [← split, ← List.back?_toArray]
        exact is_last
      obtain rfl : back = last := by simpa only [List.getLast?_concat, Option.some.injEq] using ends
      rw [Array.toList_setIfInBounds, Array.toList_pop, split, List.dropLast_concat, List.set_cons_zero]
      exact ((List.perm_append_singleton back middle).symm).cons first

theorem Ordered.replaced (ordered : Ordered weight heap) (last : α) :
    Sinks weight (heap.pop.setIfInBounds 0 last) 0 := by
  have same : ∀ i, 0 < i → i < heap.size - 1 →
      weightAt weight (heap.pop.setIfInBounds 0 last) i = weightAt weight heap i := by
    intro i positive inside
    rw [weightAt, Array.getElem?_setIfInBounds_ne (by omega), Array.getElem?_pop, if_pos inside, weightAt]
  refine ⟨fun i positive i_inside below => ?_, fun positive => absurd positive (Nat.lt_irrefl 0)⟩
  rw [Array.size_setIfInBounds, Array.size_pop] at i_inside
  rw [same i positive i_inside, same _ (by omega) (by omega)]
  exact ordered i positive (by omega)

theorem pop?_isSome (weight : α → Int) (pastEquals : Bool) (given : 0 < heap.size) :
    (pop? weight pastEquals heap).isSome := by
  have front : heap[0]? = some heap[0] := Array.getElem?_eq_getElem given
  have last : heap.back? = some (heap.back given) := by
    rw [Array.back?_eq_getElem?, Array.getElem?_eq_getElem (by omega)]
    rfl
  rw [pop?, front, last]
  rfl

theorem pop?_eq_none (missing : pop? weight pastEquals heap = none) : heap.toList = [] := by
  rcases Nat.eq_zero_or_pos heap.size with none_left | given
  · exact List.eq_nil_of_length_eq_zero none_left
  · have some_front := pop?_isSome weight pastEquals given
    simp [missing] at some_front

theorem pop?_perm {front : α} (popped : pop? weight pastEquals heap = some (front, rest)) :
    heap[0]? = some front ∧ (front :: rest.toList).Perm heap.toList := by
  unfold pop? at popped
  split at popped
  next first last is_front is_last =>
    obtain ⟨rfl, rfl⟩ := Prod.mk.inj (Option.some.inj popped)
    refine ⟨is_front, ?_⟩
    exact ((siftDown_perm weight pastEquals _ 0).cons first).trans (replaced_perm is_front is_last)
  next => simp at popped

theorem Ordered.pop? (ordered : Ordered weight heap) {front : α}
    (popped : pop? weight pastEquals heap = some (front, rest)) : Ordered weight rest := by
  unfold Heap.pop? at popped
  split at popped
  next first last _ _ =>
    obtain ⟨_, rfl⟩ := Prod.mk.inj (Option.some.inj popped)
    exact (ordered.replaced last).siftDown
  next => simp at popped

/-! Draining. -/

theorem drain_perm (weight : α → Int) (heap : Array α) (drained : List α) :
    (drain weight heap drained).Perm (heap.toList ++ drained) := by
  induction heap, drained using drain.induct weight with
  | case1 heap drained missing => rw [drain, missing, pop?_eq_none missing, List.nil_append]
  | case2 heap drained front rest popped ih =>
    rw [drain, popped]
    refine ih.trans (List.perm_middle.trans ?_)
    exact (pop?_perm popped).2.append_right drained

/-- An ordered heap is sorted by draining it. -/
theorem Ordered.drain (ordered : Ordered weight heap) {drained : List α}
    (sorted : drained.Pairwise fun a b => weight a ≤ weight b)
    (lighter : ∀ item ∈ heap.toList, ∀ other ∈ drained, weight item ≤ weight other) :
    (drain weight heap drained).Pairwise fun a b => weight a ≤ weight b := by
  induction heap, drained using drain.induct weight with
  | case1 heap drained missing => rwa [Heap.drain, missing]
  | case2 heap drained front rest popped ih =>
    obtain ⟨is_front, perm⟩ := pop?_perm popped
    have from_heap : ∀ item ∈ front :: rest.toList, item ∈ heap.toList := fun item => perm.mem_iff.mp
    rw [Heap.drain, popped]
    refine ih (ordered.pop? popped) (List.pairwise_cons.mpr ⟨?_, sorted⟩) fun item member other listed => ?_
    · exact lighter front (from_heap front List.mem_cons_self)
    · have here := from_heap item (List.mem_cons_of_mem front member)
      rcases List.mem_cons.mp listed with rfl | listed
      · exact ordered.le_front is_front here
      · exact lighter item here other listed

end MetricEngine.Heap
