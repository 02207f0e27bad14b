import MetricEngine.Config.Basic

/-!
Overrides from environment variables. A variable whose text does not read as the type of its setting
is ignored.
-/
namespace MetricEngine.EngineConfig
open Text

def readBool? : String → Option Bool
  | "true" => some true
  | "false" => some false
  | _ => none

/-- Applies a variable if it is set and readable. -/
def override {α : Type} (environment : Table String) (name : String) (read : String → Option α)
    (apply : α → EngineConfig → EngineConfig) (config : EngineConfig) : EngineConfig :=
  match (environment.get? name).bind read with
  | some value => apply value config
  | none => config

def readInt? (text : String) : Option Int := readInt64? text.toList

def readNat? (text : String) : Option Nat := readUInt64? text.toList

def withEnvironment (environment : Table String) (config : EngineConfig) : EngineConfig :=
  config
  |> override environment "MQL_DEFAULT_LOOKBACK_MINUTES" readInt?
      (fun n c => { c with query := { c.query with lookbackMinutes := n } })
  |> override environment "MQL_DEFAULT_SAMPLING_SECS" readInt?
      (fun n c => { c with query := { c.query with samplingSeconds := n } })
  |> override environment "MQL_RECOVERY_PERIOD_SECS" readInt?
      (fun n c => { c with alerts := { c.alerts with recoverySeconds := n } })
  |> override environment "MQL_DATA_ABSENT_DWELL_SECS" readInt?
      (fun n c => { c with alerts := { c.alerts with absenceDwellSeconds := n } })
  |> override environment "MQL_FRESHNESS_CUTOFF_SECS" readInt?
      (fun n c => { c with alerts := { c.alerts with freshnessSeconds := n } })
  |> override environment "MQL_MAX_CONCURRENT_STAGES" readNat?
      (fun n c => { c with execution := { c.execution with maxConcurrentStages := n } })
  |> override environment "MQL_TIMEOUT_SECS" readNat?
      (fun n c => { c with execution := { c.execution with timeoutSeconds := n } })
  |> override environment "RUST_LOG" some
      (fun s c => { c with monitoring := { c.monitoring with logLevel := s } })
  |> override environment "MQL_STRUCTURED_LOGGING" readBool?
      (fun b c => { c with monitoring := { c.monitoring with structuredLogging := b } })
  |> override environment "MQL_METRICS_ENABLED" readBool?
      (fun b c => { c with monitoring := { c.monitoring with metricsEnabled := b } })

end MetricEngine.EngineConfig
