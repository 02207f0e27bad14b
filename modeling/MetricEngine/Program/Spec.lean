import MetricEngine.Series.Result

/-!
Stage specifications. A program is a list of them; a specification may bind a name under which later
ones refer to its stage.
-/
namespace MetricEngine

inductive SpecKind where
  | select
  | aggregate
deriving DecidableEq

namespace SpecKind

def name : SpecKind → String
  | select => "select"
  | aggregate => "aggregate"

def ofName? : String → Option SpecKind
  | "select" => some select
  | "aggregate" => some aggregate
  | _ => none

end SpecKind

structure StageSpec where
  binding : Option String
  kind : SpecKind
  /-- The metric of a select, or the name of an aggregator. -/
  operation : String
  args : Table Json
  /-- The stages to read from, in place of the previous one. -/
  inputs : Option (List String)
  range : Option TimeRange

namespace StageSpec

def ofKind (kind : SpecKind) (operation : String) : StageSpec :=
  ⟨none, kind, operation, .empty, none, none⟩

def toJson (spec : StageSpec) : Json :=
  .obj ((spec.binding.toList.map fun name => ("binding_name", .str name)) ++
    [("kind", .str spec.kind.name), ("operation_name", .str spec.operation),
      ("args", .ofTable id spec.args)] ++
    (spec.inputs.toList.map fun names => ("explicit_dependencies", .ofStrings names)) ++
    (spec.range.toList.map fun range => ("explicit_time_range", range.toJson)))

def ofJson? (json : Json) : Option StageSpec := do
  let field ← json.record? ["binding_name", "kind", "operation_name", "args",
    "explicit_dependencies", "explicit_time_range"]
  let binding ← Json.optional Json.asString? (field "binding_name")
  let kind ← Json.required (fun json => json.asWord?.bind SpecKind.ofName?) (field "kind")
  let operation ← Json.required Json.asString? (field "operation_name")
  let args ← Json.withDefault .empty (Json.asTable? some) (field "args")
  let inputs ← Json.optional Json.asStrings? (field "explicit_dependencies")
  let range ← Json.optional TimeRange.ofJson? (field "explicit_time_range")
  return ⟨binding, kind, operation, args, inputs, range⟩

end StageSpec
end MetricEngine
