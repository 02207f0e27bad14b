import MetricEngine.Config.Basic
import MetricEngine.Time.Span

/-!
The validity of a configuration and the spans that it supplies to programs which do not state their
own.
-/
namespace MetricEngine

/-- The first rule that a configuration breaks. -/
inductive ConfigError where
  | lookbackNotPositive
  | samplingNotPositive
  | negativeRecovery
  | negativeThresholdDwell
  | negativeAbsenceDwell
  | freshnessNotPositive
  | tooLong (setting : String)
  | lookbackTooLong
  | noTimeout
deriving DecidableEq

namespace EngineConfig

/-- 36500 days. -/
def longestSeconds : Int := 3153600000

def longestMinutes : Int := 52560000

end EngineConfig

def ConfigError.message : ConfigError → String
  | .lookbackNotPositive => "Default lookback must be > 0 minutes"
  | .samplingNotPositive => "Default sampling period must be > 0 seconds"
  | .negativeRecovery => "Recovery period cannot be negative"
  | .negativeThresholdDwell => "Dwell period cannot be negative"
  | .negativeAbsenceDwell => "Data-absent dwell period cannot be negative"
  | .freshnessNotPositive => "Freshness cutoff must be > 0 seconds"
  | .tooLong setting =>
    setting ++ " must be <= " ++ toString EngineConfig.longestSeconds ++ " seconds"
  | .lookbackTooLong =>
    "Default lookback must be <= " ++ toString EngineConfig.longestMinutes ++ " minutes"
  | .noTimeout => "Executor timeout must be > 0"

/-- The spans that programs fall back on. -/
structure PlanDefaults where
  lookback : Span
  sampling : Span
  recovery : Span
  thresholdDwell : Span
  absenceDwell : Span
  freshness : Span
deriving DecidableEq

namespace EngineConfig

/-- The rules of a configuration in the order in which they are checked. -/
def rules (config : EngineConfig) : List (Bool × ConfigError) :=
  [(0 < config.query.lookbackMinutes, .lookbackNotPositive),
    (0 < config.query.samplingSeconds, .samplingNotPositive),
    (0 ≤ config.alerts.recoverySeconds, .negativeRecovery),
    (0 ≤ config.alerts.thresholdDwellSeconds, .negativeThresholdDwell),
    (0 ≤ config.alerts.absenceDwellSeconds, .negativeAbsenceDwell),
    (0 < config.alerts.freshnessSeconds, .freshnessNotPositive),
    (config.query.samplingSeconds ≤ longestSeconds, .tooLong "Default sampling period"),
    (config.alerts.recoverySeconds ≤ longestSeconds, .tooLong "Recovery period"),
    (config.alerts.thresholdDwellSeconds ≤ longestSeconds, .tooLong "Dwell period"),
    (config.alerts.absenceDwellSeconds ≤ longestSeconds, .tooLong "Data-absent dwell period"),
    (config.alerts.freshnessSeconds ≤ longestSeconds, .tooLong "Freshness cutoff"),
    (config.query.lookbackMinutes ≤ longestMinutes, .lookbackTooLong),
    (config.execution.timeoutSeconds ≠ 0, .noTimeout)]

def validate (config : EngineConfig) : Except ConfigError Unit :=
  match config.rules.find? fun rule => !rule.1 with
  | some (_, error) => .error error
  | none => .ok ()

def defaults (config : EngineConfig) : PlanDefaults where
  lookback := .ofMillis (config.query.lookbackMinutes * 60000)
  sampling := .ofMillis (config.query.samplingSeconds * 1000)
  recovery := .ofMillis (config.alerts.recoverySeconds * 1000)
  thresholdDwell := .ofMillis (config.alerts.thresholdDwellSeconds * 1000)
  absenceDwell := .ofMillis (config.alerts.absenceDwellSeconds * 1000)
  freshness := .ofMillis (config.alerts.freshnessSeconds * 1000)

/-- The defaults of a configuration that need not be valid; there are none when a setting is too long
for a span. -/
def defaults? (config : EngineConfig) : Option PlanDefaults := do
  let _ ← Span.ofMinutes? config.query.lookbackMinutes
  let _ ← Span.ofSeconds? config.query.samplingSeconds
  let _ ← Span.ofSeconds? config.alerts.recoverySeconds
  let _ ← Span.ofSeconds? config.alerts.thresholdDwellSeconds
  let _ ← Span.ofSeconds? config.alerts.absenceDwellSeconds
  let _ ← Span.ofSeconds? config.alerts.freshnessSeconds
  return config.defaults

end EngineConfig
end MetricEngine
