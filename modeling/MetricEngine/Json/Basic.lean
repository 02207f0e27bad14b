import MetricEngine.Binary64
import MetricEngine.Table

/-!
JSON values. Whole numbers within the 64-bit ranges stay apart from doubles, and the fields of an
object keep the order in which they are written.
-/
namespace MetricEngine

inductive Json where
  | null
  | bool (value : Bool)
  | int (value : Int)
  | double (value : Binary64)
  | str (value : String)
  | arr (items : List Json)
  | obj (fields : List (String × Json))
deriving Inhabited

namespace Json

/-- The numeric view, rounded to the nearest double. -/
def number? : Json → Option Binary64
  | int n => some (Binary64.ofInt n)
  | double x => some x
  | _ => none

def ofTable {α : Type} (encode : α → Json) (table : Table α) : Json :=
  .obj (table.entries.map fun entry => (entry.1, encode entry.2))

def ofStrings (texts : List String) : Json :=
  .arr (texts.map .str)

end Json
end MetricEngine
