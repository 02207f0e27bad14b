import MetricEngine.Config.Basic
import MetricEngine.Toml.Printer
import MetricEngine.Toml.Reader

/-!
Configuration files. What `save?` writes reads back as the same configuration, and whatever a file
leaves out has its default.
-/
namespace MetricEngine.EngineConfig

/-- A section that is written as an array lists the values of its fields in order; what follows the
last field means nothing. -/
def cutSection (given : String × Json) : String × Json :=
  match given.2, standard.sections.lookup given.1 with
  | .arr items, some fields => (given.1, .arr (items.take fields.length))
  | _, _ => given

def load? (text : String) : Option EngineConfig := do
  match ← Toml.parse? text with
  | .obj sections => ofJson? (.obj (sections.map cutSection))
  | _ => none

/-- A configuration with an integer that TOML cannot hold is not written. -/
def save? (config : EngineConfig) : Option String :=
  Toml.render? config.sections

end MetricEngine.EngineConfig
