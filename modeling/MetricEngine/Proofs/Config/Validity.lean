import MetricEngine.Config.Defaults
import MetricEngine.Proofs.Program.Reading

/-!
What a valid configuration keeps to, setting by setting. Its default periods are within the bounds of
periods that programs can state.
-/
namespace MetricEngine

namespace Period
variable {seconds : Int}

theorem millis_le_longest (short : seconds ≤ EngineConfig.longestSeconds) :
    seconds * 1000 ≤ longestMillis := by
  rw [EngineConfig.longestSeconds] at short
  rw [longestMillis]
  omega

theorem ofSeconds_eq_ok (nonnegative : 0 ≤ seconds) (short : seconds ≤ EngineConfig.longestSeconds) :
    ofSeconds seconds = .ok (.ofMillis (seconds * 1000)) := by
  rw [ofSeconds, if_neg (Int.not_lt.mpr nonnegative), withinBounds, if_pos (millis_le_longest short)]

end Period

namespace EngineConfig
variable {config : EngineConfig}

/-- The bounds of each setting. -/
structure Valid (config : EngineConfig) : Prop where
  lookback : 0 < config.query.lookbackMinutes ∧ config.query.lookbackMinutes ≤ longestMinutes
  sampling : 0 < config.query.samplingSeconds ∧ config.query.samplingSeconds ≤ longestSeconds
  recovery : 0 ≤ config.alerts.recoverySeconds ∧ config.alerts.recoverySeconds ≤ longestSeconds
  thresholdDwell : 0 ≤ config.alerts.thresholdDwellSeconds ∧
    config.alerts.thresholdDwellSeconds ≤ longestSeconds
  absenceDwell : 0 ≤ config.alerts.absenceDwellSeconds ∧
    config.alerts.absenceDwellSeconds ≤ longestSeconds
  freshness : 0 < config.alerts.freshnessSeconds ∧ config.alerts.freshnessSeconds ≤ longestSeconds
  timeout : config.execution.timeoutSeconds ≠ 0

theorem validate_eq_ok_iff_rules : config.validate = .ok () ↔ ∀ rule ∈ config.rules, rule.1 = true := by
  rw [validate]
  constructor
  · intro valid
    split at valid
    next => simp at valid
    next none =>
      intro rule member
      simpa using List.find?_eq_none.mp none rule member
  · intro holds
    have none : config.rules.find? (fun rule => !rule.1) = none := by
      simpa [List.find?_eq_none] using holds
    rw [none]

theorem validate_eq_ok_iff : config.validate = .ok () ↔ config.Valid := by
  rw [validate_eq_ok_iff_rules]
  simp only [rules, List.forall_mem_cons, decide_eq_true_eq]
  constructor
  · rintro ⟨lookback, sampling, recovery, dwell, absence, freshness, sampling', recovery', dwell',
      absence', freshness', lookback', timeout, _⟩
    exact ⟨⟨lookback, lookback'⟩, ⟨sampling, sampling'⟩, ⟨recovery, recovery'⟩, ⟨dwell, dwell'⟩,
      ⟨absence, absence'⟩, ⟨freshness, freshness'⟩, timeout⟩
  · intro valid
    exact ⟨valid.lookback.1, valid.sampling.1, valid.recovery.1, valid.thresholdDwell.1,
      valid.absenceDwell.1, valid.freshness.1, valid.sampling.2, valid.recovery.2,
      valid.thresholdDwell.2, valid.absenceDwell.2, valid.freshness.2, valid.lookback.2, valid.timeout,
      List.forall_mem_nil _⟩

/-- A valid configuration has a default sampling period that can be stated. -/
theorem sampling_inBounds (valid : config.validate = .ok ()) :
    Period.InBounds config.defaults.sampling :=
  ⟨_, Period.millis_le_longest (validate_eq_ok_iff.mp valid).sampling.2, rfl⟩

end EngineConfig
end MetricEngine
