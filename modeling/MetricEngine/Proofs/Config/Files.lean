import MetricEngine.Config.File
import MetricEngine.Proofs.Json.Records
import MetricEngine.Proofs.Toml.Documents

/-!
Files of configurations. A configuration is read back from its file, and if keys or whole sections are taken
out of the file, each setting that was there has its default and the others are as they were.
-/
namespace MetricEngine
open Json Toml

/-! Settings of which only some keys are left. -/

namespace QuerySettings

def keeping (kept : String → Bool) (settings : QuerySettings) : QuerySettings where
  lookbackMinutes :=
    if kept "default_lookback_minutes" then settings.lookbackMinutes else standard.lookbackMinutes
  samplingSeconds :=
    if kept "default_sampling_period_secs" then settings.samplingSeconds else standard.samplingSeconds

end QuerySettings

namespace AlertSettings

def keeping (kept : String → Bool) (settings : AlertSettings) : AlertSettings where
  recoverySeconds :=
    if kept "default_recovery_period_secs" then settings.recoverySeconds else standard.recoverySeconds
  thresholdDwellSeconds :=
    if kept "default_dwell_period_secs" then settings.thresholdDwellSeconds else standard.thresholdDwellSeconds
  absenceDwellSeconds :=
    if kept "data_absent_dwell_secs" then settings.absenceDwellSeconds else standard.absenceDwellSeconds
  freshnessSeconds :=
    if kept "freshness_cutoff_secs" then settings.freshnessSeconds else standard.freshnessSeconds

end AlertSettings

namespace ExecutionSettings

def keeping (kept : String → Bool) (settings : ExecutionSettings) : ExecutionSettings where
  maxConcurrentStages :=
    if kept "max_concurrent_stages" then settings.maxConcurrentStages else standard.maxConcurrentStages
  timeoutSeconds := if kept "timeout_secs" then settings.timeoutSeconds else standard.timeoutSeconds

end ExecutionSettings

namespace MonitoringSettings

def keeping (kept : String → Bool) (settings : MonitoringSettings) : MonitoringSettings where
  logLevel := if kept "log_level" then settings.logLevel else standard.logLevel
  structuredLogging :=
    if kept "structured_logging" then settings.structuredLogging else standard.structuredLogging
  metricsEnabled := if kept "metrics_enabled" then settings.metricsEnabled else standard.metricsEnabled

end MonitoringSettings

namespace EngineConfig

/-- The configuration in which all other keys have their defaults. -/
def keeping (kept : String → String → Bool) (config : EngineConfig) : EngineConfig where
  query := config.query.keeping (kept "query")
  alerts := config.alerts.keeping (kept "alerts")
  execution := config.execution.keeping (kept "executor")
  monitoring := config.monitoring.keeping (kept "monitoring")

end EngineConfig

/-! Sections of which some fields are left. -/

theorem isSome_renderValue?_int {n : Int} : (renderValue? (.int n)).isSome ↔ Text.fitsInt64 n := by
  rw [renderValue?]
  split <;> simp [*]

theorem QuerySettings.ofJson?_filter {settings : QuerySettings}
    (written : ∀ field ∈ settings.fields, (renderValue? field.2).isSome) (kept : String → Bool) :
    ofJson? (.obj (settings.fields.filter (kept ·.1))) = some (settings.keeping kept) := by
  obtain ⟨lookback_fits, sampling_fits⟩ :
      Text.fitsInt64 settings.lookbackMinutes ∧ Text.fitsInt64 settings.samplingSeconds := by
    simpa [fields, isSome_renderValue?_int] using written
  have lookback := withDefault_filter settings.fields "default_lookback_minutes" kept
    standard.lookbackMinutes rfl (asInt64?_int lookback_fits)
  have sampling := withDefault_filter settings.fields "default_sampling_period_secs" kept
    standard.samplingSeconds rfl (asInt64?_int sampling_fits)
  simp [ofJson?, record?, lookback, sampling, keeping]

/-- The own defaults of the fields are those of the standard section. -/
theorem AlertSettings.standard_eq : standard.recoverySeconds = 0 ∧ standard.thresholdDwellSeconds = 0 :=
  ⟨rfl, rfl⟩

theorem AlertSettings.ofJson?_filter {settings : AlertSettings}
    (written : ∀ field ∈ settings.fields, (renderValue? field.2).isSome) (kept : String → Bool) :
    ofJson? (.obj (settings.fields.filter (kept ·.1))) = some (settings.keeping kept) := by
  obtain ⟨recovery_fits, threshold_fits, absence_fits, freshness_fits⟩ :
      Text.fitsInt64 settings.recoverySeconds ∧ Text.fitsInt64 settings.thresholdDwellSeconds ∧
      Text.fitsInt64 settings.absenceDwellSeconds ∧ Text.fitsInt64 settings.freshnessSeconds := by
    simpa [fields, isSome_renderValue?_int] using written
  have recovery := withDefault_filter settings.fields "default_recovery_period_secs" kept 0 rfl
    (asInt64?_int recovery_fits)
  have threshold := withDefault_filter settings.fields "default_dwell_period_secs" kept 0 rfl
    (asInt64?_int threshold_fits)
  have absence := withDefault_filter settings.fields "data_absent_dwell_secs" kept
    standard.absenceDwellSeconds rfl (asInt64?_int absence_fits)
  have freshness := withDefault_filter settings.fields "freshness_cutoff_secs" kept
    standard.freshnessSeconds rfl (asInt64?_int freshness_fits)
  simp [ofJson?, record?, recovery, threshold, absence, freshness, keeping, standard_eq]

theorem ExecutionSettings.standard_eq : standard.maxConcurrentStages = 0 := rfl

theorem ExecutionSettings.ofJson?_filter (settings : ExecutionSettings) (kept : String → Bool) :
    ofJson? (.obj (settings.fields.filter (kept ·.1))) = some (settings.keeping kept) := by
  have stages := withDefault_filter settings.fields "max_concurrent_stages" kept 0 rfl
    (asUInt64?_natCast settings.maxConcurrentStages)
  have timeout := withDefault_filter settings.fields "timeout_secs" kept
    standard.timeoutSeconds rfl (asUInt64?_natCast settings.timeoutSeconds)
  simp [ofJson?, record?, stages, timeout, keeping, standard_eq]

theorem MonitoringSettings.standard_eq :
    standard.structuredLogging = false ∧ standard.metricsEnabled = true := ⟨rfl, rfl⟩

theorem MonitoringSettings.ofJson?_filter (settings : MonitoringSettings) (kept : String → Bool) :
    ofJson? (.obj (settings.fields.filter (kept ·.1))) = some (settings.keeping kept) := by
  have level := withDefault_filter settings.fields "log_level" kept standard.logLevel rfl
    (rfl : asString? (.str settings.logLevel) = some settings.logLevel)
  have structured := withDefault_filter settings.fields "structured_logging" kept false rfl
    (rfl : asBool? (.bool settings.structuredLogging) = some settings.structuredLogging)
  have metrics := withDefault_filter settings.fields "metrics_enabled" kept true rfl
    (rfl : asBool? (.bool settings.metricsEnabled) = some settings.metricsEnabled)
  simp [ofJson?, record?, level, structured, metrics, keeping, standard_eq]

/-! Files of which some parts are left. -/

/-- A section that is left out is one without fields. -/
theorem withDefault_sectionsOf {α : Type} {decode : Json → Option α} {keeping : (String → Bool) → α}
    {fields : List (String × Json)} (sections : List (String × List (String × Json))) (name : String)
    (standard : α) (cut : Cut)
    (listed : find? name (sections.map fun given => (given.1, .obj (cut.fieldsOf given.1 given.2))) =
      some (.obj (cut.fieldsOf name fields)))
    (decodes : ∀ kept : String → Bool, decode (.obj (fields.filter (kept ·.1))) = some (keeping kept))
    (nothing : keeping (fun _ => false) = standard) :
    withDefault standard decode
        (find? name ((cut.sectionsOf sections).map fun given => (given.1, .obj given.2))) =
      some (keeping (cut.keeps <| .field name ·)) := by
  have left : (cut.sectionsOf sections).map (fun given => (given.1, Json.obj given.2)) =
      (sections.map fun given => (given.1, .obj (cut.fieldsOf given.1 given.2))).filter
        (cut.keeps <| .header ·.1) := by
    rw [Cut.sectionsOf, List.filter_map, List.map_map]
    rfl
  have decoded : decode (.obj (cut.fieldsOf name fields)) = some (keeping (cut.keeps <| .field name ·)) :=
    decodes (cut.keeps <| .field name ·)
  rw [left, withDefault_filter _ name (cut.keeps <| .header ·) standard listed decoded]
  split
  next => rfl
  next closed =>
    have none : (cut.keeps <| .field name ·) = fun _ => false := by
      funext key
      by_contra kept
      exact closed (cut.closed (by simpa using kept))
    rw [none, nothing]

namespace EngineConfig
variable {config : EngineConfig} {parts : List (Part × String)} {text : String}

/-- The signed settings, which are 64-bit words. -/
def signedSettings (config : EngineConfig) : List Int :=
  [config.query.lookbackMinutes, config.query.samplingSeconds, config.alerts.recoverySeconds,
    config.alerts.thresholdDwellSeconds, config.alerts.absenceDwellSeconds, config.alerts.freshnessSeconds]

theorem isSome_save?_iff : config.save?.isSome ↔
    ∀ given ∈ config.sections, ∀ field ∈ given.2, (renderValue? field.2).isSome := by
  simp [save?, render?, ListFacts.mapM_isSome_iff, renderSection?, renderField?]

/-- All names of a file stand without quotes and occur once. -/
theorem names_sections (config : EngineConfig) : Names (config.sections.map (·.1)) ∧
    ∀ given ∈ config.sections, Names (given.2.map (·.1)) := by
  simp only [sections, QuerySettings.fields, AlertSettings.fields, ExecutionSettings.fields,
    MonitoringSettings.fields, List.forall_mem_cons, List.map_cons, List.map_nil]
  decide

theorem map_cutSection (sections : List (String × List (String × Json))) :
    (sections.map fun given => (given.1, Json.obj given.2)).map cutSection =
      sections.map fun given => (given.1, Json.obj given.2) := by
  rw [List.map_map]
  rfl

theorem load?_document (written : parts? config.sections = some parts) (cut : Cut) :
    load? (cut.document parts) = some (config.keeping fun name key => cut.keeps (.field name key)) := by
  obtain ⟨names, keys⟩ := config.names_sections
  have plain := isSome_save?_iff.mp (show config.save?.isSome by rw [save?, render?_eq, written]; rfl)
  simp only [sections, List.forall_mem_cons] at plain
  obtain ⟨query_written, alerts_written, _⟩ := plain
  have query := withDefault_sectionsOf config.sections "query" standard.query cut rfl
    (QuerySettings.ofJson?_filter query_written) rfl
  have alerts := withDefault_sectionsOf config.sections "alerts" standard.alerts cut rfl
    (AlertSettings.ofJson?_filter alerts_written) rfl
  have execution := withDefault_sectionsOf config.sections "executor" standard.execution cut rfl
    config.execution.ofJson?_filter rfl
  have monitoring := withDefault_sectionsOf config.sections "monitoring" standard.monitoring cut rfl
    config.monitoring.ofJson?_filter rfl
  rw [load?, parse?_document names keys written]
  simp only [Option.bind_eq_bind, Option.bind_some, map_cutSection]
  rw [ofJson?, record?]
  simp only [Option.bind_eq_bind, Option.bind_some, query, alerts, execution, monitoring]
  rfl

/-- A file is written unless an unsigned setting is too large for a signed word. It is read back as the
configuration, and what is taken out of it has its default. -/
theorem file_reads_back (words : ∀ setting ∈ config.signedSettings, Text.fitsInt64 setting) :
    (config.save?.isSome ↔ config.execution.maxConcurrentStages ≤ Text.int64Max ∧
      config.execution.timeoutSeconds ≤ Text.int64Max) ∧
    ∀ text, config.save? = some text →
      load? text = some config ∧
      ∃ parts, parts? config.sections = some parts ∧ textOf parts = text ∧
        ∀ cut : Cut, load? (cut.document parts) =
          some (config.keeping fun name key => cut.keeps (.field name key)) := by
  constructor
  · rw [isSome_save?_iff]
    simp only [signedSettings, List.forall_mem_cons] at words
    simp only [sections, QuerySettings.fields, AlertSettings.fields, ExecutionSettings.fields,
      MonitoringSettings.fields, List.forall_mem_cons, isSome_renderValue?_int, Text.fitsInt64_natCast, words]
    simp [renderValue?]
  · intro text saved
    obtain ⟨parts, written, whole⟩ : ∃ parts, parts? config.sections = some parts ∧ textOf parts = text := by
      simpa [save?, render?_eq] using saved
    have remains := load?_document written
    have everything : Cut.document ⟨fun _ => true, fun _ => rfl⟩ parts = text := by
      rw [Cut.document, List.filter_eq_self.mpr fun _ _ => rfl, whole]
    exact ⟨everything ▸ remains _, parts, written, whole, remains⟩

/-- A configuration whose log level has quotes, a backslash, a line break and a control character. -/
def markedConfig : EngineConfig where
  alerts := { recoverySeconds := -5 }
  execution := { maxConcurrentStages := 7 }
  monitoring := { logLevel := "\"\"\" ''' \\ \n \x07", metricsEnabled := false }

/-- Of a file only the log level is left. -/
def levelOnly : Cut where
  keeps part :=
    match part with
    | .gap _ => false
    | .header name => name = "monitoring"
    | .field name key => name = "monitoring" && key = "log_level"
  closed kept := by simp_all

theorem markedConfig_reads_back :
    (∀ setting ∈ markedConfig.signedSettings, Text.fitsInt64 setting) ∧
    ∃ text, markedConfig.save? = some text ∧ load? text = some markedConfig ∧
      ∃ parts, parts? markedConfig.sections = some parts ∧ textOf parts = text ∧
        load? (levelOnly.document parts) =
          some { monitoring := { logLevel := markedConfig.monitoring.logLevel } } := by
  have words : ∀ setting ∈ markedConfig.signedSettings, Text.fitsInt64 setting := by decide
  obtain ⟨written, read⟩ := file_reads_back words
  obtain ⟨text, saved⟩ := Option.isSome_iff_exists.mp (written.mpr ⟨by decide, by decide⟩)
  obtain ⟨loaded, parts, cuts, whole, remains⟩ := read text saved
  exact ⟨words, text, saved, loaded, parts, cuts, whole, remains levelOnly⟩

end EngineConfig
end MetricEngine
