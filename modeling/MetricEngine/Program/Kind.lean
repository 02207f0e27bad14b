import MetricEngine.Text.Blank

/-!
The aggregators that programs can name. Some are liftable: a store can apply them, so that a
select carries them in its query.
-/
namespace MetricEngine

inductive AggregatorKind where
  | min
  | max
  | merge
  | percentile
  | count
  | avg
  | sum
  | diff
  | threshold
  | dataAbsent
  | union
  | top
  | bottom
deriving DecidableEq

namespace AggregatorKind

def name : AggregatorKind → String
  | min => "min"
  | max => "max"
  | merge => "merge"
  | percentile => "percentile"
  | count => "count"
  | avg => "avg"
  | sum => "sum"
  | diff => "diff"
  | threshold => "threshold"
  | dataAbsent => "dataabsent"
  | union => "union"
  | top => "top"
  | bottom => "bottom"

/-- Looks a name up without regard to letter case and blanks around it. -/
def ofName? (name : String) : Option AggregatorKind :=
  match Text.keyword name with
  | "min" => some min
  | "max" => some max
  | "merge" => some merge
  | "percentile" => some percentile
  | "count" => some count
  | "avg" => some avg
  | "sum" => some sum
  | "diff" => some diff
  | "threshold" => some threshold
  | "dataabsent" => some dataAbsent
  | "union" => some union
  | "top" => some top
  | "bottom" => some bottom
  | _ => none

def isLiftable : AggregatorKind → Bool
  | min | max | merge | percentile | count | avg | sum | diff => true
  | threshold | dataAbsent | union | top | bottom => false

/-- Liftable aggregators other than differences carry a bucket length. -/
def hasSampling (kind : AggregatorKind) : Bool :=
  kind.isLiftable && kind != diff

end AggregatorKind
end MetricEngine
