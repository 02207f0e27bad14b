import MetricEngine.Config.Environment
import MetricEngine.Config.File
import MetricEngine.Execution.Engine
import MetricEngine.Json.Reader
import MetricEngine.Proofs.Alert.ThresholdWindows
import MetricEngine.Proofs.Execution.LiftedRuns
import MetricEngine.Proofs.Execution.StoreErrors
import MetricEngine.Proofs.Execution.Failures
import MetricEngine.Proofs.Program.Lineage
import MetricEngine.Proofs.Program.ArgumentRules
import MetricEngine.Proofs.Program.Acceptance
import MetricEngine.Proofs.Alert.AbsenceWindows
import MetricEngine.Proofs.Execution.Permits
import MetricEngine.Proofs.Execution.SeriesOrder
import MetricEngine.Proofs.Program.UnknownArguments
import MetricEngine.Proofs.Execution.Warnings
import MetricEngine.Proofs.Program.Insertion
import MetricEngine.Proofs.Execution.ExtraReader
import MetricEngine.Proofs.Program.RoundTrips
import MetricEngine.Proofs.Alert.ThresholdRecovery
import MetricEngine.Proofs.Alert.ThresholdSensitivity
import MetricEngine.Proofs.Aggregation.Buckets
import MetricEngine.Proofs.Store.Answers
import MetricEngine.Proofs.Execution.Inputs
import MetricEngine.Proofs.Alert.AbsenceSensitivity
import MetricEngine.Proofs.Alert.GrowingSeries
import MetricEngine.Proofs.Execution.SeriesFrame
import MetricEngine.Proofs.Store.Decoding
import MetricEngine.Proofs.Time.PeriodReading
import MetricEngine.Proofs.Program.DefaultPeriods
import MetricEngine.Proofs.Program.Ranges
import MetricEngine.Proofs.Program.StageOrder
import MetricEngine.Proofs.Series.Encoding
import MetricEngine.Proofs.Config.Files
import MetricEngine.Proofs.Aggregation.Resampling
import MetricEngine.Proofs.Alert.NotificationKeys
import MetricEngine.Proofs.Execution.Accounting
import MetricEngine.Proofs.Alert.Summaries
import MetricEngine.Proofs.Series.LastWrite
import MetricEngine.Proofs.Aggregation.ExactArithmetic
import MetricEngine.Proofs.Heap
