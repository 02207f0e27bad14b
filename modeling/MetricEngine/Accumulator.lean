/-!
Running sums and means. Both are generic in the numbers they run on, so that the rounding of
samples can be told apart from the recurrence itself.
-/
namespace MetricEngine

/-- A sum that carries the rounding error of each addition into the next one. -/
structure CompensatedSum (α : Type) where
  sum : α
  compensation : α

namespace CompensatedSum
variable {α : Type} [Zero α] [Add α] [Sub α]

def empty : CompensatedSum α := ⟨0, 0⟩

def add (acc : CompensatedSum α) (value : α) : CompensatedSum α :=
  let corrected := value - acc.compensation
  let total := acc.sum + corrected
  ⟨total, (total - acc.sum) - corrected⟩

def ofList (values : List α) : CompensatedSum α :=
  values.foldl add empty

end CompensatedSum

/-- A mean that is corrected by each value's share. -/
structure RunningMean (α : Type) where
  count : Nat
  mean : α

namespace RunningMean
variable {α : Type} [Zero α] [Add α] [Sub α] [Div α] [NatCast α]

def empty : RunningMean α := ⟨0, 0⟩

def add (acc : RunningMean α) (value : α) : RunningMean α :=
  ⟨acc.count + 1, acc.mean + (value - acc.mean) / ((acc.count + 1 : Nat) : α)⟩

def ofList (values : List α) : RunningMean α :=
  values.foldl add empty

/-- There is no mean before the first value. -/
def value? (acc : RunningMean α) : Option α :=
  if acc.count = 0 then none else some acc.mean

end RunningMean
end MetricEngine
