import MetricEngine.Store.Query
import MetricEngine.Config.Defaults
import MetricEngine.Program.Error

/-!
Why running a program fails, and the messages of all failures of the engine.
-/
namespace MetricEngine

inductive ExecutionErrorKind where
  | store
  | operation
  | cancelled
  | internal
deriving DecidableEq

def ExecutionErrorKind.text : ExecutionErrorKind → String
  | .store => "StoreError"
  | .operation => "OperationError"
  | .cancelled => "Cancelled"
  | .internal => "Internal"

/-- The stage in which an error arose, with the name of its operation. -/
structure ErrorSite where
  stage : Nat
  operation : String
deriving DecidableEq

structure ExecutionError where
  kind : ExecutionErrorKind
  detail : String
  site : Option ErrorSite := none
  source : Option StoreError := none
deriving DecidableEq

namespace ExecutionError

def ofStore (error : StoreError) : ExecutionError where
  kind := .store
  detail := error.message
  source := some error

/-- A stage that stops without a result cancels its readers. -/
def stopped : ExecutionError where
  kind := .cancelled
  detail := "stage stopped before publishing a result"

/-- The first site stays. -/
def atStage (error : ExecutionError) (stage : Nat) (operation : String) : ExecutionError :=
  { error with site := error.site.or (some ⟨stage, operation⟩) }

def message (error : ExecutionError) : String :=
  match error.site with
  | some site =>
    error.kind.text ++ " in stage-" ++ toString site.stage ++ " (" ++ site.operation ++ "): " ++
      error.detail
  | none => error.kind.text ++ ": " ++ error.detail

end ExecutionError

namespace Duration

/-- A whole number of nanoseconds in the largest unit that is not longer, with the decimals that are
needed. -/
def unitText (nanos unit width : Nat) (name : String) : String :=
  let fraction := (Text.padded width (nanos % unit)).toList
  let decimals := (fraction.reverse.dropWhile (· = '0')).reverse
  toString (nanos / unit) ++ (if decimals.isEmpty then "" else "." ++ String.ofList decimals) ++ name

def text (nanos : Nat) : String :=
  if 1000000000 ≤ nanos then unitText nanos 1000000000 9 "s"
  else if 1000000 ≤ nanos then unitText nanos 1000000 6 "ms"
  else if 1000 ≤ nanos then unitText nanos 1000 3 "µs"
  else toString nanos ++ "ns"

end Duration

inductive EngineError where
  | build (error : BuildError)
  | execution (error : ExecutionError)
  | store (error : StoreError)
  | configuration (error : ConfigError)
  | timeout (nanos : Nat)

def EngineError.message : EngineError → String
  | .build error => "Build error: " ++ error.message
  | .execution error => "Execution error: " ++ error.message
  | .store error => "Store error: " ++ error.message
  | .configuration error => "Configuration error: " ++ error.message
  | .timeout nanos => "Execution timed out after " ++ Duration.text nanos

end MetricEngine
