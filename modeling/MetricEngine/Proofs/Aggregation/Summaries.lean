import Mathlib.Data.List.Induction
import MetricEngine.Aggregation.Bucket
import MetricEngine.Proofs.ListFacts

/-!
What the value of a bucket is, stated without the walk over its samples. The minimum is the first value of
least rank and the maximum the first of greatest rank; a percentile is the value that stands at a place of
the total order.
-/
namespace MetricEngine

/-- An element with the least key, the first one of those. -/
def FirstLeast {α : Type} (key : α → Int) (xs : List α) (x : α) : Prop :=
  ∃ before after, xs = before ++ x :: after ∧
    (∀ y ∈ before, key x < key y) ∧ ∀ y ∈ after, key x ≤ key y

/-- An element at a place of the list in the order of keys: no more elements have a lesser key, and more
have no greater one. -/
structure StandsAt {α : Type} (key : α → Int) (xs : List α) (place : Nat) (x : α) : Prop where
  mem : x ∈ xs
  below : xs.countP (key · < key x) ≤ place
  upTo : place < xs.countP (key · ≤ key x)

section Keys
variable {α : Type} {key : α → Int} {xs : List α} {x y : α} {place : Nat}

theorem FirstLeast.le (least : FirstLeast key xs x) (member : y ∈ xs) : key x ≤ key y := by
  obtain ⟨before, after, rfl, less, le⟩ := least
  rcases List.mem_append.mp member with front | back
  · exact Int.le_of_lt (less y front)
  · rcases List.mem_cons.mp back with rfl | back
    · exact Int.le_refl _
    · exact le y back

theorem FirstLeast.unique (first : FirstLeast key xs x) (second : FirstLeast key xs y) : x = y := by
  have x_le : key x ≤ key y := first.le (by obtain ⟨_, _, rfl, _⟩ := second; simp)
  have y_le : key y ≤ key x := second.le (by obtain ⟨_, _, rfl, _⟩ := first; simp)
  obtain ⟨before, after, rfl, less, _⟩ := first
  obtain ⟨before', after', split, less', _⟩ := second
  rcases List.append_eq_append_iff.mp split with ⟨more, rfl, rest⟩ | ⟨more, rfl, rest⟩
  · cases more with
    | nil => exact (List.cons.inj rest).1
    | cons head tail =>
      obtain ⟨rfl, _⟩ := List.cons.inj rest
      exact absurd (less' x (by simp)) (Int.not_lt.mpr x_le)
  · cases more with
    | nil => exact (List.cons.inj rest).1.symm
    | cons head tail =>
      obtain ⟨rfl, _⟩ := List.cons.inj rest
      exact absurd (less y (by simp)) (Int.not_lt.mpr y_le)

theorem FirstLeast.concat (least : FirstLeast key xs x) (last : α) :
    FirstLeast key (xs ++ [last]) (if key last < key x then last else x) := by
  split
  next smaller =>
    exact ⟨xs, [], rfl, fun y member => Int.lt_of_lt_of_le smaller (least.le member), by simp⟩
  next not_smaller =>
    obtain ⟨before, after, rfl, less, le⟩ := least
    refine ⟨before, after ++ [last], by simp, less, ?_⟩
    intro y member
    rcases List.mem_append.mp member with front | back
    · exact le y front
    · exact List.mem_singleton.mp back ▸ Int.not_lt.mp not_smaller

/-- Keeping the one of lesser key, the left one of equals, leaves the first element of least key. -/
theorem foldl_firstLeast (pick : α → α → α)
    (picks : ∀ x y, pick x y = if key y < key x then y else x) (first : α) (rest : List α) :
    FirstLeast key (first :: rest) (rest.foldl pick first) := by
  induction rest using List.reverseRecOn with
  | nil => exact ⟨[], [], rfl, by simp, by simp⟩
  | append_singleton rest last ih =>
    rw [List.foldl_append, List.foldl_cons, List.foldl_nil, picks]
    exact ih.concat last

theorem exists_firstLeast_iff : (∃ x, FirstLeast key xs x) ↔ xs ≠ [] := by
  constructor
  · rintro ⟨x, before, after, rfl, _⟩
    simp
  · intro given
    obtain ⟨first, rest, rfl⟩ := List.exists_cons_of_ne_nil given
    exact ⟨_, foldl_firstLeast (fun x y => if key y < key x then y else x) (fun _ _ => rfl) first rest⟩

theorem StandsAt.unique (distinct : Function.Injective key) (first : StandsAt key xs place x)
    (second : StandsAt key xs place y) : x = y := by
  apply distinct
  -- If one key were less, all elements up to it would lie below the other one.
  have not_less : ∀ {x y}, StandsAt key xs place x → StandsAt key xs place y → ¬key x < key y := by
    intro x y x_stands y_stands less
    have counts : xs.countP (key · ≤ key x) ≤ xs.countP (key · < key y) := by
      apply List.countP_mono_left
      intro z _ le
      simp only [decide_eq_true_eq] at le ⊢
      omega
    have below := y_stands.below
    have upTo := x_stands.upTo
    omega
  have not_x := not_less first second
  have not_y := not_less second first
  omega

theorem standsAt_of_sorted {before after : List α}
    (sorted : (before ++ x :: after).Pairwise fun a b => key a ≤ key b) :
    StandsAt key (before ++ x :: after) before.length x := by
  obtain ⟨_, back, across⟩ := List.pairwise_append.mp sorted
  have later : ∀ y ∈ after, key x ≤ key y := (List.pairwise_cons.mp back).1
  refine ⟨by simp, ?_, ?_⟩
  · have none : (x :: after).countP (key · < key x) = 0 := by
      apply List.countP_eq_zero.mpr
      intro y member
      simp only [decide_eq_true_eq, Int.not_lt]
      rcases List.mem_cons.mp member with rfl | behind
      · exact Int.le_refl _
      · exact later y behind
    rw [List.countP_append, none]
    exact List.countP_le_length
  · have all : before.countP (key · ≤ key x) = before.length := by
      apply List.countP_eq_length.mpr
      intro y member
      simpa using across y member x List.mem_cons_self
    rw [List.countP_append, all, List.countP_cons_of_pos (by simp)]
    omega

/-- The places of a sorted list are those that its elements stand at. -/
theorem mergeSort_getElem?_eq_some_iff (distinct : Function.Injective key) :
    (xs.mergeSort fun a b => key a ≤ key b)[place]? = some x ↔ StandsAt key xs place x := by
  have perm : (xs.mergeSort fun a b => key a ≤ key b).Perm xs := List.mergeSort_perm _ _
  have sorted : (xs.mergeSort fun a b => key a ≤ key b).Pairwise fun a b => key a ≤ key b :=
    ListFacts.pairwise_mergeSort_of_key (fun _ _ => by simp) xs
  have stands : ∀ {z}, (xs.mergeSort fun a b => key a ≤ key b)[place]? = some z →
      StandsAt key xs place z := by
    intro z found
    obtain ⟨inside, rfl⟩ := List.getElem?_eq_some_iff.mp found
    have split := List.take_append_drop place (xs.mergeSort fun a b => key a ≤ key b)
    rw [List.drop_eq_getElem_cons inside] at split
    have there := standsAt_of_sorted (split ▸ sorted)
    rw [split, List.length_take_of_le (Nat.le_of_lt inside)] at there
    exact ⟨perm.mem_iff.mp there.mem, perm.countP_eq _ ▸ there.below, perm.countP_eq _ ▸ there.upTo⟩
  refine ⟨stands, fun there => ?_⟩
  have inside : place < (xs.mergeSort fun a b => key a ≤ key b).length := by
    rw [perm.length_eq]
    exact Nat.lt_of_lt_of_le there.upTo List.countP_le_length
  have found := List.getElem?_eq_getElem inside
  rw [found, (stands found).unique distinct there]

theorem exists_standsAt_iff (distinct : Function.Injective key) :
    (∃ x, StandsAt key xs place x) ↔ place < xs.length := by
  simp only [← mergeSort_getElem?_eq_some_iff distinct, ← Option.isSome_iff_exists,
    isSome_getElem?, List.length_mergeSort]

end Keys

namespace Binary64

theorem totalKey_injective : Function.Injective totalKey := by
  intro x y same
  have x_small : x.bits.toNat < 18446744073709551616 := x.bits.toNat_lt
  have y_small : y.bits.toNat < 18446744073709551616 := y.bits.toNat_lt
  simp only [totalKey, isNegative, magnitude, decide_eq_true_eq] at same
  have bits : x.bits.toNat = y.bits.toNat := by
    split at same <;> split at same <;> omega
  cases x
  cases y
  exact congrArg _ (UInt64.toNat_inj.mp bits)

end Binary64

namespace AggregationFunction
open Sample

/-- The numeric values of samples that are not NaN. -/
def measured (samples : List Sample) : List Binary64 :=
  (numbers samples).filter fun x => !x.isNaN

/-- The target share of the last place, rounded; no place lies behind the last one. -/
def percentilePlace (target : Binary64) (count : Nat) : Nat :=
  Nat.min (target / Binary64.hundred * Binary64.ofNat (count - 1)).roundToNat (count - 1)

theorem percentilePlace_lt (target : Binary64) {count : Nat} (positive : 0 < count) :
    percentilePlace target count < count := by
  have last : percentilePlace target count ≤ count - 1 := Nat.min_le_right _ _
  omega

/-- What the value of a bucket is, whose samples are given in time order. -/
def Summarizes (function : AggregationFunction) (bucket : List Sample) (value : Binary64) : Prop :=
  match function with
  | count => value = .ofNat bucket.length
  | min => FirstLeast (·.rank) (measured bucket) value
  | max => FirstLeast (-·.rank) (measured bucket) value
  | sum => measured bucket ≠ [] ∧ value = (CompensatedSum.ofList (measured bucket)).sum
  | avg => measured bucket ≠ [] ∧ value = (RunningMean.ofList (measured bucket)).mean
  | percentile target =>
    StandsAt (·.totalKey) (measured bucket) (percentilePlace target (measured bucket).length) value
  | merge | diff => False

variable {function : AggregationFunction} {bucket : List Sample} {value : Binary64}

theorem fold?_eq_some_iff (key : Binary64 → Int) {pick : Binary64 → Binary64 → Binary64}
    (picks : ∀ x y, pick x y = if key y < key x then y else x) {values : List Binary64} :
    fold? pick values = some value ↔ FirstLeast key values value := by
  cases values with
  | nil => simp [fold?, FirstLeast]
  | cons first rest =>
    have least := foldl_firstLeast pick picks first rest
    rw [fold?, Option.some.injEq]
    exact ⟨fun same => same ▸ least, least.unique⟩

theorem mean_value?_eq_some_iff {values : List Binary64} :
    (RunningMean.ofList values).value? = some value ↔
      values ≠ [] ∧ value = (RunningMean.ofList values).mean := by
  have counts : (RunningMean.ofList values).count = values.length := by
    induction values using List.reverseRecOn with
    | nil => rfl
    | append_singleton values last ih =>
      rw [RunningMean.ofList, List.foldl_append, List.length_append, ← ih]
      rfl
  rw [RunningMean.value?, counts]
  cases values with
  | nil => simp
  | cons first rest => simp [eq_comm]

/-- The value of a bucket is the one that its samples are summarised by. -/
theorem bucketValue?_eq_some_iff :
    function.bucketValue? bucket = some value ↔ function.Summarizes bucket value := by
  cases function with
  | min => exact fold?_eq_some_iff (·.rank) fun _ _ => rfl
  | max =>
    refine fold?_eq_some_iff (-·.rank) fun x y => ?_
    simp only [Binary64.max, Int.neg_lt_neg_iff]
  | merge => simp [bucketValue?, Summarizes]
  | percentile target => exact mergeSort_getElem?_eq_some_iff Binary64.totalKey_injective
  | count => simp [bucketValue?, Summarizes, eq_comm]
  | avg => exact mean_value?_eq_some_iff
  | sum =>
    change (if (measured bucket).isEmpty then none
      else some (CompensatedSum.ofList (measured bucket)).sum) = some value ↔ _
    rw [Summarizes]
    cases measured bucket with
    | nil => simp
    | cons first rest => simp [eq_comm]
  | diff => simp [bucketValue?, Summarizes]

/-- Only counts have a value without a number in the bucket. -/
theorem exists_summarizes_iff (bucketed : function ≠ .merge ∧ function ≠ .diff) :
    (∃ value, function.Summarizes bucket value) ↔ function = .count ∨ measured bucket ≠ [] := by
  cases function with
  | min => simpa [Summarizes] using exists_firstLeast_iff
  | max => simpa [Summarizes] using exists_firstLeast_iff
  | merge => exact absurd rfl bucketed.1
  | percentile target =>
    have place_lt : percentilePlace target (measured bucket).length < (measured bucket).length ↔
        measured bucket ≠ [] := by
      rw [← List.length_pos_iff]
      exact ⟨Nat.zero_lt_of_lt, percentilePlace_lt target⟩
    simpa [Summarizes] using (exists_standsAt_iff Binary64.totalKey_injective).trans place_lt
  | count => simp [Summarizes]
  | avg => simp [Summarizes]
  | sum => simp [Summarizes]
  | diff => exact absurd rfl bucketed.2

end AggregationFunction
end MetricEngine
