/-!
Samples are binary floating-point numbers of 64 bits. Arithmetic is that of `Float`; unlike
`Float`, a number keeps the sign of a NaN, because the total order in which series are ranked
puts negative NaNs first and positive ones last.
-/
namespace MetricEngine

structure Binary64 where
  bits : UInt64
deriving DecidableEq, Inhabited

namespace Binary64

def ofFloat (x : Float) : Binary64 := ⟨x.toBits⟩

def toFloat (x : Binary64) : Float := Float.ofBits x.bits

def zero : Binary64 := ⟨0⟩

def negativeZero : Binary64 := ⟨0x8000000000000000⟩

def infinity : Binary64 := ⟨0x7ff0000000000000⟩

def nan : Binary64 := ⟨0x7ff8000000000000⟩

/-- The result of an operation without a meaningful value, such as `∞ - ∞`. -/
def invalid : Binary64 := ⟨0xfff8000000000000⟩

def isNegative (x : Binary64) : Bool :=
  0x8000000000000000 ≤ x.bits.toNat

/-- The bits below the sign; they grow with the absolute value, and past infinity lie the NaNs. -/
def magnitude (x : Binary64) : Nat :=
  x.bits.toNat % 0x8000000000000000

def isNaN (x : Binary64) : Bool :=
  0x7ff0000000000000 < x.magnitude

def isFinite (x : Binary64) : Bool :=
  x.magnitude < 0x7ff0000000000000

def neg (x : Binary64) : Binary64 :=
  ⟨x.bits ^^^ 0x8000000000000000⟩

/-- A NaN operand is handed on with its sign, the left one first. -/
def arithmetic (op : Float → Float → Float) (x y : Binary64) : Binary64 :=
  if x.isNaN then x
  else if y.isNaN then y
  else
    let result := ofFloat (op x.toFloat y.toFloat)
    if result.isNaN then invalid else result

instance : Zero Binary64 := ⟨zero⟩
instance : Neg Binary64 := ⟨neg⟩
instance : Add Binary64 := ⟨arithmetic (· + ·)⟩
instance : Sub Binary64 := ⟨arithmetic (· - ·)⟩
instance : Mul Binary64 := ⟨arithmetic (· * ·)⟩
instance : Div Binary64 := ⟨arithmetic (· / ·)⟩

/-- The nearest number, ties to even. -/
def ofNat (n : Nat) : Binary64 :=
  ofFloat (Float.ofScientific n false 0)

def ofInt (n : Int) : Binary64 :=
  if n < 0 then neg (ofNat n.natAbs) else ofNat n.natAbs

instance : NatCast Binary64 := ⟨ofNat⟩

def hundred : Binary64 := ofNat 100

/-- Orders numbers by value; the two zeros share a rank. -/
def rank (x : Binary64) : Int :=
  if x.isNegative then -(x.magnitude : Int) else x.magnitude

/-- Orders all numbers: by value, the negative zero before the positive one, NaNs outermost. -/
def totalKey (x : Binary64) : Int :=
  if x.isNegative then -(x.magnitude : Int) - 1 else x.magnitude

def comparable (x y : Binary64) : Bool :=
  !x.isNaN && !y.isNaN

def eq (x y : Binary64) : Bool := comparable x y && x.rank == y.rank

def lt (x y : Binary64) : Bool := comparable x y && x.rank < y.rank

def le (x y : Binary64) : Bool := comparable x y && x.rank ≤ y.rank

/-- The smaller of two numbers, the left one of equals. -/
def min (x y : Binary64) : Binary64 :=
  if y.rank < x.rank then y else x

/-- The larger of two numbers, the left one of equals. -/
def max (x y : Binary64) : Binary64 :=
  if x.rank < y.rank then y else x

/-- A finite number is `±m · 2 ^ q` with these `m` and `q`. -/
def decode (x : Binary64) : Nat × Int :=
  let exponent := x.magnitude / 0x10000000000000
  let fraction := x.magnitude % 0x10000000000000
  if exponent = 0 then (fraction, -1074)
  else (fraction + 0x10000000000000, (exponent : Int) - 1075)

/-- Rounds to the nearest natural number, halves upwards. Negative numbers and NaNs give zero, and
numbers too large for 64 bits the largest one. -/
def roundToNat (x : Binary64) : Nat :=
  if x.isNaN || x.isNegative then 0
  else if !x.isFinite then 0xffffffffffffffff
  else
    let (m, q) := x.decode
    let rounded :=
      if 0 ≤ q then m * Nat.pow 2 q.toNat
      else (2 * m + Nat.pow 2 (-q).toNat) / Nat.pow 2 (1 - q).toNat
    Nat.min rounded 0xffffffffffffffff

end Binary64
end MetricEngine
