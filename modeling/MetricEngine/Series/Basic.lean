import MetricEngine.Series.Sample
import MetricEngine.Series.Trigger

/-!
Series: named runs of samples with tags, triggers and the groupings that produced them.
-/
namespace MetricEngine

/-- How a series came out of a grouped query. -/
inductive GroupBy where
  | tag (tags : List String) (group : Table String)
  | type (dataType : String)
deriving DecidableEq

namespace GroupBy

def toJson : GroupBy → Json
  | tag tags group =>
    .obj [("kind", .str "tag"), ("tags", .ofStrings tags), ("group", .ofTable .str group)]
  | type dataType => .obj [("kind", .str "type"), ("type", .str dataType)]

/-- The kind is a field of the object, or the first item of an array. -/
def ofJson? (json : Json) : Option GroupBy := do
  let (kind, content) ← match json with
    | .obj fields => (Json.find? "kind" fields).map (·, json)
    | .arr (kind :: items) => some (kind, .arr items)
    | _ => none
  match ← kind.asString? with
  | "tag" =>
    let field ← content.record? ["tags", "group"]
    let tags ← Json.required Json.asStrings? (field "tags")
    let group ← Json.required (Json.asTable? Json.asString?) (field "group")
    return tag tags group
  | "type" =>
    let field ← content.record? ["type"]
    let dataType ← Json.required Json.asString? (field "type")
    return type dataType
  | _ => none

end GroupBy

structure Series where
  name : String
  tags : Table (List String)
  values : List Sample
  alerts : List Trigger
  groupBy : List GroupBy
deriving Inhabited

namespace Series

def named (name : String) : Series :=
  ⟨name, .empty, [], [], []⟩

/-- Replaces the samples by the normal form of new ones. -/
def withValues (series : Series) (values : List Sample) : Series :=
  { series with values := Sample.normalize values }

/-- Adds one value of a tag unless the tag has it already. -/
def withTag (series : Series) (key value : String) : Series :=
  let values := (series.tags.get? key).getD []
  { series with
    tags := series.tags.insert key (if value ∈ values then values else values ++ [value]) }

/-- The sum of the numeric values from left to right. It starts from negative zero, which is the sum
of nothing. -/
def sum (series : Series) : Binary64 :=
  (Sample.numbers series.values).foldl (· + ·) .negativeZero

/-- The grouping tags and the group of the first grouping by tags. -/
def tagGroup? (series : Series) : Option (List String × Table String) :=
  series.groupBy.findSome? fun
    | .tag tags group => some (tags, group)
    | .type _ => none

def toJson (series : Series) : Json :=
  .obj [("name", .str series.name),
    ("tags", .ofTable .ofStrings series.tags),
    ("values", .arr (series.values.map Sample.toJson)),
    ("alerts", .arr (series.alerts.map Trigger.toJson)),
    ("group_by", .arr (series.groupBy.map GroupBy.toJson))]

/-- Decoded samples are taken in the order in which they stand. -/
def ofJson? (json : Json) : Option Series := do
  let field ← json.record? ["name", "tags", "values", "alerts", "group_by"]
  let name ← Json.required Json.asString? (field "name")
  let tags ← Json.withDefault .empty (Json.asTable? Json.asStrings?) (field "tags")
  let values ← Json.withDefault [] (Json.asList? Sample.ofJson?) (field "values")
  let alerts ← Json.withDefault [] (Json.asList? Trigger.ofJson?) (field "alerts")
  let groupBy ← Json.withDefault [] (Json.asList? GroupBy.ofJson?) (field "group_by")
  return ⟨name, tags, values, alerts, groupBy⟩

end Series
end MetricEngine
