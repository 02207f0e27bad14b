import MetricEngine.Time.Period

/-!
Why a program cannot be built: one cause for each rule that a program can break, with its message.
-/
namespace MetricEngine

/-- What is wrong with the value of an argument. -/
inductive ArgumentFault where
  | missing
  | notANumber (given : Json)
  | unreadableNumber (text : String)
  | notAString (given : Json)
  | notACount
  | notAnInteger (given : Json)
  | unreadableCount (text : String)
  | notABoolean (given : Json)
  | unreadableBoolean (text : String)
  | period (error : PeriodError)
  | notStrings
  | notATagFilter (given : Json)
  | tagNotStrings (tag : String)
  | tagWithoutValues (tag : String)
  | notPositive
  | notFinite
  | notAPercentage (given : Binary64)
  | lessThanOne
  | unknownComparison (text : String)
  | selectWithInputs

def ArgumentFault.message : ArgumentFault → String
  | .missing => "is required"
  | .notANumber given => "must be a number, got " ++ given.render
  | .unreadableNumber text => "'" ++ text ++ "' is not a number"
  | .notAString given => "must be a string, got " ++ given.render
  | .notACount => "must be a non-negative integer"
  | .notAnInteger given => "must be an integer, got " ++ given.render
  | .unreadableCount text => "'" ++ text ++ "' is not a non-negative integer"
  | .notABoolean given => "must be a boolean, got " ++ given.render
  | .unreadableBoolean text => "'" ++ text ++ "' is not a boolean"
  | .period error => error.message
  | .notStrings => "must be a string or a list of strings"
  | .notATagFilter given => "must be a map of tag values, got " ++ given.render
  | .tagNotStrings tag => "tag '" ++ tag ++ "' must be a string or a list of strings"
  | .tagWithoutValues tag => "tag '" ++ tag ++ "' has no values"
  | .notPositive => "must be positive"
  | .notFinite => "must be finite"
  | .notAPercentage given => "must be between 0 and 100, got " ++ given.display
  | .lessThanOne => "must be at least 1"
  | .unknownComparison text => "unknown operator '" ++ text ++ "'"
  | .selectWithInputs => "select stages read from the store and take no inputs"

inductive BuildError where
  | undefinedStage (name : String)
  | duplicateStage (name : String)
  | unknownAggregator (name : String)
  | invalidArgument (field : String) (fault : ArgumentFault)
  | noInput (aggregator : String)
  | emptyProgram

def BuildError.message : BuildError → String
  | .undefinedStage name => "undefined stage reference '" ++ name ++ "'"
  | .duplicateStage name => "duplicate stage name '" ++ name ++ "'"
  | .unknownAggregator name => "unknown aggregator '" ++ name ++ "'"
  | .invalidArgument field fault => "illegal value for field " ++ field ++ "; " ++ fault.message
  | .noInput aggregator => "aggregator '" ++ aggregator ++ "' does not have any inputs"
  | .emptyProgram => "program contains no stages"

end MetricEngine
