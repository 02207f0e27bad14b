import Mathlib.Algebra.BigOperators.Group.List.Basic
import Mathlib.Data.List.Induction
import Mathlib.Data.Rat.Cast.CharZero
import Mathlib.Tactic.Abel
import Mathlib.Tactic.NormNum
import Mathlib.Tactic.Ring
import MetricEngine.Accumulator

/-!
Running sums and means in exact arithmetic. Where no operation is rounded, a compensated sum has nothing to
make up for and is the sum of its values, and a running mean is that sum divided by their number. So neither
depends on the order of the values.
-/
namespace MetricEngine

namespace CompensatedSum
variable {α : Type} [AddCommGroup α]

/-- A sum with nothing to make up for has nothing to make up for after one more value. -/
theorem add_settled (sum value : α) : add ⟨sum, 0⟩ value = ⟨sum + value, 0⟩ := by
  have corrected : value - (0 : α) = value := sub_zero value
  have lost : sum + value - sum - value = 0 := by abel
  simp only [add, corrected, lost]

theorem ofList_eq (values : List α) : ofList values = ⟨values.sum, 0⟩ := by
  induction values using List.reverseRecOn with
  | nil => rfl
  | append_singleton seen value ih =>
    rw [ofList] at ih ⊢
    rw [List.foldl_concat, ih, add_settled, List.sum_append, List.sum_singleton]

end CompensatedSum

namespace RunningMean
variable {α : Type} [Field α] {acc : RunningMean α} {seen values : List α}

/-- The mean of the values seen, times their number, is their sum. Of no values it may be anything. -/
structure Averages (acc : RunningMean α) (seen : List α) : Prop where
  count : acc.count = seen.length
  total : (seen.length : α) * acc.mean = seen.sum

theorem Averages.initial : (empty : RunningMean α).Averages [] where
  count := rfl
  total := by simp

variable [CharZero α]

/-- The share of one more value is what it adds to the total, divided by the new number of values. -/
theorem Averages.add (averages : acc.Averages seen) (value : α) :
    (acc.add value).Averages (seen ++ [value]) where
  count := by
    rw [RunningMean.add, averages.count, List.length_append, List.length_singleton]
  total := by
    -- The new number of values is not zero, so it cancels the division in the correction.
    have number : ((seen.length + 1 : Nat) : α) ≠ 0 := Nat.cast_ne_zero.mpr (Nat.succ_ne_zero _)
    rw [RunningMean.add, averages.count, List.length_append, List.length_singleton, List.sum_append,
      List.sum_singleton, ← averages.total, mul_add, mul_div_cancel₀ _ number]
    push_cast
    ring

theorem averages_ofList (values : List α) : (ofList values).Averages values := by
  induction values using List.reverseRecOn with
  | nil => exact .initial
  | append_singleton seen value ih =>
    rw [ofList, List.foldl_concat]
    exact ih.add value

/-- There is a mean from the first value on. -/
theorem value?_ofList (values : List α) :
    (ofList values).value? = if values = [] then none else some (values.sum / values.length) := by
  obtain ⟨count, total⟩ := averages_ofList values
  rw [value?, count]
  cases values with
  | nil => rfl
  | cons first rest =>
    have some_values : (first :: rest).length ≠ 0 := Nat.succ_ne_zero _
    have number : ((first :: rest).length : α) ≠ 0 := Nat.cast_ne_zero.mpr some_values
    rw [if_neg some_values, if_neg (List.cons_ne_nil _ _), Option.some.injEq, eq_div_iff number, mul_comm]
    exact total

theorem value?_ofList_perm {other : List α} (perm : other.Perm values) :
    (ofList other).value? = (ofList values).value? := by
  simp only [value?_ofList, perm.sum_eq, perm.length_eq, ← List.length_eq_zero_iff]

end RunningMean

/-- After each of the values the compensation is zero, the sum is that of the values so far, and the mean is
that sum divided by their number. Before the first value there is no mean. In another order the values have
the same sum and mean. -/
theorem accumulators_exact (values : List ℚ) :
    (∀ n, (CompensatedSum.ofList (values.take n)).compensation = 0 ∧
      (CompensatedSum.ofList (values.take n)).sum = (values.take n).sum ∧
      (RunningMean.ofList (values.take n)).value? =
        if values.take n = [] then none else some ((values.take n).sum / (values.take n).length)) ∧
    ∀ other : List ℚ, other.Perm values →
      (CompensatedSum.ofList other).sum = (CompensatedSum.ofList values).sum ∧
      (RunningMean.ofList other).value? = (RunningMean.ofList values).value? := by
  refine ⟨fun n => ?_, fun other perm => ?_⟩
  · rw [CompensatedSum.ofList_eq]
    exact ⟨rfl, rfl, RunningMean.value?_ofList _⟩
  · rw [CompensatedSum.ofList_eq, CompensatedSum.ofList_eq]
    exact ⟨perm.sum_eq, RunningMean.value?_ofList_perm perm⟩

/-- Tenths, which binary numbers cannot hold. -/
theorem tenths_summed_exactly :
    [(-2 : ℚ), 1 / 10, 3 / 2].Perm [1 / 10, 3 / 2, -2] ∧
    (CompensatedSum.ofList [(-2 : ℚ), 1 / 10, 3 / 2]).sum =
      (CompensatedSum.ofList [(1 / 10 : ℚ), 3 / 2, -2]).sum ∧
    (CompensatedSum.ofList [(1 / 10 : ℚ), 3 / 2, -2]).sum = -2 / 5 ∧
    (RunningMean.ofList [(-2 : ℚ), 1 / 10, 3 / 2]).value? =
      (RunningMean.ofList [(1 / 10 : ℚ), 3 / 2, -2]).value? ∧
    (RunningMean.ofList [(1 / 10 : ℚ), 3 / 2, -2]).value? = some (-2 / 15) := by
  have perm : [(-2 : ℚ), 1 / 10, 3 / 2].Perm [1 / 10, 3 / 2, -2] :=
    (List.perm_append_singleton (-2) [1 / 10, 3 / 2]).symm
  obtain ⟨steps, same⟩ := accumulators_exact [(1 / 10 : ℚ), 3 / 2, -2]
  obtain ⟨same_sum, same_mean⟩ := same [-2, 1 / 10, 3 / 2] perm
  obtain ⟨_, sum, mean⟩ := steps 3
  refine ⟨perm, same_sum, ?_, same_mean, ?_⟩
  · norm_num at sum ⊢
    exact sum
  · norm_num at mean ⊢
    exact mean

end MetricEngine
