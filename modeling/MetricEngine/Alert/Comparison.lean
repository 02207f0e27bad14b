import MetricEngine.Binary64
import MetricEngine.Text.Blank

/-!
Comparisons of a sample with a threshold.
-/
namespace MetricEngine

inductive Comparison where
  | equal
  | greater
  | greaterOrEqual
  | less
  | lessOrEqual
  | notEqual
deriving DecidableEq

namespace Comparison

def ofName? (name : String) : Option Comparison :=
  match Text.keyword name with
  | "=" | "==" | "eq" | "equal_to" => some equal
  | ">" | "gt" | "greater_than" => some greater
  | ">=" | "gte" | "greater_than_or_equal_to" => some greaterOrEqual
  | "<" | "lt" | "less_than" => some less
  | "<=" | "lte" | "less_than_or_equal_to" => some lessOrEqual
  | "!=" | "<>" | "ne" | "not_equal_to" => some notEqual
  | _ => none

def symbol : Comparison → String
  | equal => "=="
  | greater => ">"
  | greaterOrEqual => ">="
  | less => "<"
  | lessOrEqual => "<="
  | notEqual => "!="

def describe : Comparison → String
  | equal => "equal to"
  | greater => "greater than"
  | greaterOrEqual => "greater than or equal to"
  | less => "less than"
  | lessOrEqual => "less than or equal to"
  | notEqual => "not equal to"

/-- A NaN is unequal to everything and not comparable otherwise. -/
def holds : Comparison → Binary64 → Binary64 → Bool
  | equal, x, y => x.eq y
  | greater, x, y => y.lt x
  | greaterOrEqual, x, y => y.le x
  | less, x, y => x.lt y
  | lessOrEqual, x, y => x.le y
  | notEqual, x, y => !x.eq y

end Comparison
end MetricEngine
