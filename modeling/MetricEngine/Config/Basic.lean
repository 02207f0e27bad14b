import MetricEngine.Json.Record

/-!
The configuration of an engine: defaults for building programs and for alerts, limits of execution,
and monitoring. Every field has a default, so a configuration may be given in part. A section that is not
given is the standard one, and a field that is not given in a section has a default of its own.
-/
namespace MetricEngine

structure QuerySettings where
  lookbackMinutes : Int := 60
  samplingSeconds : Int := 60
deriving DecidableEq

structure AlertSettings where
  recoverySeconds : Int := 0
  thresholdDwellSeconds : Int := 0
  absenceDwellSeconds : Int := 60
  freshnessSeconds : Int := 120
deriving DecidableEq

structure ExecutionSettings where
  /-- Zero means no limit. -/
  maxConcurrentStages : Nat := 0
  timeoutSeconds : Nat := 30
deriving DecidableEq

structure MonitoringSettings where
  logLevel : String := "info"
  structuredLogging : Bool := false
  metricsEnabled : Bool := true
deriving DecidableEq

structure EngineConfig where
  query : QuerySettings := {}
  alerts : AlertSettings := {}
  execution : ExecutionSettings := {}
  monitoring : MonitoringSettings := {}
deriving DecidableEq

open Json

namespace QuerySettings

def standard : QuerySettings := {}

def ofJson? (json : Json) : Option QuerySettings := do
  let field ← json.record? ["default_lookback_minutes", "default_sampling_period_secs"]
  return {
    lookbackMinutes := ← withDefault standard.lookbackMinutes asInt64? (field "default_lookback_minutes")
    samplingSeconds := ← withDefault standard.samplingSeconds asInt64? (field "default_sampling_period_secs") }

def fields (settings : QuerySettings) : List (String × Json) :=
  [("default_lookback_minutes", .int settings.lookbackMinutes),
    ("default_sampling_period_secs", .int settings.samplingSeconds)]

end QuerySettings

namespace AlertSettings

def standard : AlertSettings := {}

def ofJson? (json : Json) : Option AlertSettings := do
  let field ← json.record? ["default_recovery_period_secs", "default_dwell_period_secs",
    "data_absent_dwell_secs", "freshness_cutoff_secs"]
  return {
    recoverySeconds := ← withDefault 0 asInt64? (field "default_recovery_period_secs")
    thresholdDwellSeconds := ← withDefault 0 asInt64? (field "default_dwell_period_secs")
    absenceDwellSeconds := ← withDefault standard.absenceDwellSeconds asInt64? (field "data_absent_dwell_secs")
    freshnessSeconds := ← withDefault standard.freshnessSeconds asInt64? (field "freshness_cutoff_secs") }

def fields (settings : AlertSettings) : List (String × Json) :=
  [("default_recovery_period_secs", .int settings.recoverySeconds),
    ("default_dwell_period_secs", .int settings.thresholdDwellSeconds),
    ("data_absent_dwell_secs", .int settings.absenceDwellSeconds),
    ("freshness_cutoff_secs", .int settings.freshnessSeconds)]

end AlertSettings

namespace ExecutionSettings

def standard : ExecutionSettings := {}

def ofJson? (json : Json) : Option ExecutionSettings := do
  let field ← json.record? ["max_concurrent_stages", "timeout_secs"]
  return {
    maxConcurrentStages := ← withDefault 0 asUInt64? (field "max_concurrent_stages")
    timeoutSeconds := ← withDefault standard.timeoutSeconds asUInt64? (field "timeout_secs") }

def fields (settings : ExecutionSettings) : List (String × Json) :=
  [("max_concurrent_stages", .int settings.maxConcurrentStages),
    ("timeout_secs", .int settings.timeoutSeconds)]

end ExecutionSettings

namespace MonitoringSettings

def standard : MonitoringSettings := {}

def ofJson? (json : Json) : Option MonitoringSettings := do
  let field ← json.record? ["log_level", "structured_logging", "metrics_enabled"]
  return {
    logLevel := ← withDefault standard.logLevel asString? (field "log_level")
    structuredLogging := ← withDefault false asBool? (field "structured_logging")
    metricsEnabled := ← withDefault true asBool? (field "metrics_enabled") }

def fields (settings : MonitoringSettings) : List (String × Json) :=
  [("log_level", .str settings.logLevel),
    ("structured_logging", .bool settings.structuredLogging),
    ("metrics_enabled", .bool settings.metricsEnabled)]

end MonitoringSettings

namespace EngineConfig

def standard : EngineConfig := {}

def ofJson? (json : Json) : Option EngineConfig := do
  let field ← json.record? ["query", "alerts", "executor", "monitoring"]
  return {
    query := ← withDefault standard.query QuerySettings.ofJson? (field "query")
    alerts := ← withDefault standard.alerts AlertSettings.ofJson? (field "alerts")
    execution := ← withDefault standard.execution ExecutionSettings.ofJson? (field "executor")
    monitoring := ← withDefault standard.monitoring MonitoringSettings.ofJson? (field "monitoring") }

/-- The sections in their written order, each with its fields. -/
def sections (config : EngineConfig) : List (String × List (String × Json)) :=
  [("query", config.query.fields), ("alerts", config.alerts.fields),
    ("executor", config.execution.fields), ("monitoring", config.monitoring.fields)]

def toJson (config : EngineConfig) : Json :=
  .obj (config.sections.map fun (name, fields) => (name, .obj fields))

end EngineConfig
end MetricEngine
