/-!
White space and letter case as the readers of this library see them: white space is the Unicode
property, case folding touches ASCII letters alone.
-/
namespace MetricEngine.Text

/-- The Unicode property White_Space. -/
def isBlank (c : Char) : Bool :=
  let n := c.toNat
  (9 ≤ n && n ≤ 13) || n == 0x20 || n == 0x85 || n == 0xa0 || n == 0x1680 ||
    (0x2000 ≤ n && n ≤ 0x200a) || n == 0x2028 || n == 0x2029 || n == 0x202f || n == 0x205f ||
    n == 0x3000

def trimStart (s : List Char) : List Char :=
  s.dropWhile isBlank

/-- Removes the blanks at both ends. -/
def trim (s : List Char) : List Char :=
  (trimStart (trimStart s).reverse).reverse

def lower (s : List Char) : List Char :=
  s.map Char.toLower

def upper (s : List Char) : List Char :=
  s.map Char.toUpper

/-- The form under which names of functions, units and operators are looked up. -/
def keyword (s : String) : String :=
  String.ofList (lower (trim s.toList))

end MetricEngine.Text
