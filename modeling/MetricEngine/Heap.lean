/-!
A binary heap in an array, with an item of the greatest weight in front: below place `i` are the places
`2 * i + 1` and `2 * i + 2`, and no item weighs more than the one above it. How items are moved settles which
of several with the same weight leaves first.
-/
namespace MetricEngine.Heap
variable {α : Type} (weight : α → Int)

/-- The weight of the item at a place. -/
def weightAt (heap : Array α) (place : Nat) : Int :=
  (heap[place]?.map weight).getD 0

/-- An item goes up while it weighs more than the one above it. -/
def siftUp (heap : Array α) (place : Nat) : Array α :=
  let above := (place - 1) / 2
  if _h : 0 < place ∧ weightAt weight heap above < weightAt weight heap place then
    siftUp (heap.swapIfInBounds place above) above
  else heap
termination_by place
decreasing_by omega

def push (heap : Array α) (item : α) : Array α :=
  siftUp weight (heap.push item) heap.size

/-- The heavier of the places below one, the second if both weigh the same. -/
def heavier? (heap : Array α) (place : Nat) : Option Nat :=
  if 2 * place + 2 < heap.size ∧
      weightAt weight heap (2 * place + 1) ≤ weightAt weight heap (2 * place + 2) then
    some (2 * place + 2)
  else if 2 * place + 1 < heap.size then some (2 * place + 1)
  else none

theorem heavier?_bounds {heap : Array α} {place below : Nat}
    (found : heavier? weight heap place = some below) : place < below ∧ below < heap.size := by
  unfold heavier? at found
  split at found
  · obtain rfl := Option.some.inj found
    omega
  · split at found
    · obtain rfl := Option.some.inj found
      omega
    · simp at found

/-- An item goes down past heavier ones, or past all that do not weigh less. The latter ends where it would if
it first went all the way down and then up again past lighter ones. -/
def siftDown (pastEquals : Bool) (heap : Array α) (place : Nat) : Array α :=
  match _h : heavier? weight heap place with
  | none => heap
  | some below =>
    if weightAt weight heap place < weightAt weight heap below ∨
        pastEquals ∧ weightAt weight heap place = weightAt weight heap below then
      siftDown pastEquals (heap.swapIfInBounds place below) below
    else heap
termination_by heap.size - place
decreasing_by
  have := heavier?_bounds weight _h
  simp only [Array.size_swapIfInBounds]
  omega

/-- Takes the item in front out. The last one takes its place and goes down. -/
def pop? (pastEquals : Bool) (heap : Array α) : Option (α × Array α) :=
  match heap[0]?, heap.back? with
  | some front, some last =>
    some (front, siftDown weight pastEquals (heap.pop.setIfInBounds 0 last) 0)
  | _, _ => none

theorem siftDown_size (pastEquals : Bool) (heap : Array α) (place : Nat) :
    (siftDown weight pastEquals heap place).size = heap.size := by
  induction heap, place using siftDown.induct weight pastEquals with
  | case1 heap place found => rw [siftDown, found]
  | case2 heap place below found goes_on ih =>
    rw [siftDown, found]
    simp only [goes_on, if_true, ih, Array.size_swapIfInBounds]
  | case3 heap place below found stays =>
    rw [siftDown, found]
    simp only [stays, if_false]

theorem pop?_size {pastEquals : Bool} {heap rest : Array α} {front : α}
    (popped : pop? weight pastEquals heap = some (front, rest)) : rest.size + 1 = heap.size := by
  unfold pop? at popped
  split at popped
  next first last is_front _ =>
    obtain ⟨rfl, rfl⟩ := Prod.mk.inj (Option.some.inj popped)
    have inside := (Array.getElem?_eq_some_iff.mp is_front).1
    simp only [siftDown_size, Array.size_setIfInBounds, Array.size_pop]
    omega
  next => simp at popped

/-- Takes out one item after another, each put before those taken out so far, so the lightest comes first. -/
def drain (heap : Array α) (drained : List α) : List α :=
  match _h : pop? weight false heap with
  | none => drained
  | some (front, rest) => drain rest (front :: drained)
termination_by heap.size
decreasing_by
  have := pop?_size weight _h
  omega

end MetricEngine.Heap
