import MetricEngine.Time.Range

/-!
Alert triggers: the windows in which an alert fires on one series. A trigger without an end is
still going on.
-/
namespace MetricEngine

structure Trigger where
  time : Instant
  finish : Option Instant
  message : String
  args : Table String
  groupBy : Table String
deriving DecidableEq

namespace Trigger

def isOngoing (trigger : Trigger) : Bool :=
  trigger.finish.isNone

/-- Slashes would split a path that the key is part of. -/
def pathSafe (s : String) : String :=
  String.ofList (s.toList.map fun c => if c = '/' then '.' else c)

/-- Names the alert that a trigger belongs to: the arguments as `key:value`, in key order, joined by
semicolons. -/
def notificationKey (trigger : Trigger) : String :=
  pathSafe (String.intercalate ";" (trigger.args.entries.map fun entry => entry.1 ++ ":" ++ entry.2))

def toJson (trigger : Trigger) : Json :=
  .obj (("time", trigger.time.toJson) ::
    (trigger.finish.toList.map fun t => ("end_time", t.toJson)) ++
    [("message", .str trigger.message),
      ("args", .ofTable .str trigger.args),
      ("group_by", .ofTable .str trigger.groupBy)])

def ofJson? (json : Json) : Option Trigger := do
  let field ← json.record? ["time", "end_time", "message", "args", "group_by"]
  let time ← Json.required Instant.ofJson? (field "time")
  let finish ← Json.optional Instant.ofJson? (field "end_time")
  let message ← Json.required Json.asString? (field "message")
  let args ← Json.required (Json.asTable? Json.asString?) (field "args")
  let groupBy ← Json.required (Json.asTable? Json.asString?) (field "group_by")
  return ⟨time, finish, message, args, groupBy⟩

end Trigger
end MetricEngine
