import MetricEngine.Binary64

/-!
The decimal with the fewest digits that reads back as a given number, found in exact integer
arithmetic. A number stands for an interval of reals; the coarsest decimal grid with a point in
that interval wins, and on it the point nearest to the number.
-/
namespace MetricEngine

/-- The decimal `digits · 10 ^ exponent`. -/
structure Decimal where
  digits : Nat
  exponent : Int
deriving DecidableEq

namespace Binary64

/-- What to choose when two decimals of the same length are equally near. -/
inductive Tie where
  | even
  | up
deriving DecidableEq

/-- The reals that round to one number: `low/scale` to `high/scale` around `centre/scale`. -/
structure Interval where
  low : Nat
  centre : Nat
  high : Nat
  scale : Nat
  closed : Bool

/-- The interval of `m · 2 ^ q`. Below a power of two the gap is half as wide. -/
def interval (m : Nat) (q : Int) : Interval :=
  let narrow := m = 0x10000000000000 ∧ -1074 < q
  let wide := Nat.pow 2 (q - 2).toNat
  { low := (4 * m - if narrow then 1 else 2) * wide
    centre := 4 * m * wide
    high := (4 * m + 2) * wide
    scale := Nat.pow 2 (2 - q).toNat
    closed := m % 2 = 0 }

namespace Interval

/-- Whether the real `numerator / (denominator · scale)` lies in the interval. -/
def contains (i : Interval) (numerator denominator : Nat) : Bool :=
  let low := i.low * denominator
  let high := i.high * denominator
  if i.closed then low ≤ numerator && numerator ≤ high else low < numerator && numerator < high

/-- The point of the grid of multiples of `10 ^ exponent` that is in the interval and nearest to its
centre. -/
def gridPoint? (tie : Tie) (i : Interval) (exponent : Int) : Option Nat :=
  let up := Nat.pow 10 exponent.toNat * i.scale
  let down := Nat.pow 10 (-exponent).toNat
  let below := i.centre * down / up
  let above := below + 1
  let within (n : Nat) : Bool := i.contains (n * up) down
  match within below, within above with
  | true, true =>
    let twice := 2 * (i.centre * down)
    let middle := (below + above) * up
    if twice < middle then some below
    else if middle < twice then some above
    else match tie with
      | .up => some above
      | .even => some (if below % 2 = 0 then below else above)
  | true, false => some below
  | false, true => some above
  | false, false => none

/-- Tries ever finer grids. -/
def search (tie : Tie) (i : Interval) : Nat → Int → Decimal
  | 0, exponent => ⟨0, exponent⟩
  | steps + 1, exponent =>
    match i.gridPoint? tie exponent with
    | some digits => ⟨digits, exponent⟩
    | none => i.search tie steps (exponent - 1)

end Interval

/-- The shortest decimal of the absolute value of a finite number other than zero. Its first digit
stands at most two places above an estimate from the binary exponent; seventeen digits suffice. -/
def shortest (tie : Tie) (x : Binary64) : Decimal :=
  let (m, q) := x.decode
  let estimate := ((m.log2 : Int) + q) * 30103 / 100000
  (interval m q).search tie 21 (estimate + 2)

end Binary64
end MetricEngine
