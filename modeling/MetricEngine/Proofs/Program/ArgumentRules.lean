import MetricEngine.Program.Planner
import MetricEngine.Proofs.ListFacts
import MetricEngine.Proofs.Program.Reading

/-!
The rules for the arguments of each kind of stage, field by field in the order in which they are checked.
The reader of a kind fails exactly if a rule is broken, and reports the first one.
-/
namespace MetricEngine

/-- How a computation ends that fails with the error of a check: in that error if there is one, and
otherwise in a value with some property. -/
inductive Outcome {ε α : Type} (property : α → Prop) : Option ε → Except ε α → Prop where
  | ok {value} : property value → Outcome property none (.ok value)
  | error {error} : Outcome property (some error) (.error error)

namespace Outcome
variable {ε α β : Type} {property : α → Prop} {further : β → Prop} {fault next : Option ε}
  {result : Except ε α}

theorem holds {value : α} (outcome : Outcome property fault (.ok value)) : property value := by
  cases outcome with
  | ok holds => exact holds

theorem passes (outcome : Outcome property none result) :
    ∃ value, result = .ok value ∧ property value := by
  cases outcome with
  | ok holds => exact ⟨_, rfl, holds⟩

theorem eq_error_iff (outcome : Outcome property fault result) (error : ε) :
    result = .error error ↔ fault = some error := by
  cases outcome <;> simp

theorem exists_ok_iff (outcome : Outcome property fault result) :
    (∃ value, result = .ok value) ↔ fault = none := by
  cases outcome <;> simp

theorem bind {rest : α → Except ε β} (first : Outcome property fault result)
    (goes_on : ∀ value, property value → Outcome further next (rest value)) :
    Outcome further (fault.or next) (result >>= rest) := by
  cases first with
  | ok holds => exact goes_on _ holds
  | error => exact .error

theorem weaken {weaker : α → Prop} (first : Outcome property fault result)
    (implies : ∀ value, property value → weaker value) : Outcome weaker fault result := by
  cases first with
  | ok holds => exact .ok (implies _ holds)
  | error => exact .error

theorem map {f : α → β} (first : Outcome property fault result)
    (keeps : ∀ value, property value → further (f value)) : Outcome further fault (result.map f) := by
  cases first with
  | ok holds => exact .ok (keeps _ holds)
  | error => exact .error

theorem of_map {f : α → β} (mapped : Outcome further fault (result.map f)) :
    Outcome (fun _ => True) fault result := by
  cases result with
  | ok value =>
    cases mapped
    exact .ok trivial
  | error error =>
    cases mapped
    exact .error

/-- A computation on each element of a list ends in the first error among those of the elements. -/
theorem mapM {f : α → Except ε β} {check : α → Option ε}
    (each : ∀ x, Outcome (fun _ => True) (check x) (f x)) (xs : List α) :
    Outcome (fun ys : List β => ys.length = xs.length) ((xs.map check).findSome? id) (xs.mapM f) := by
  induction xs with
  | nil => exact .ok rfl
  | cons x xs ih =>
    rw [List.mapM_cons, List.map_cons, ListFacts.findSome?_cons_or]
    refine (each x).bind fun y _ => ?_
    rw [← Option.or_none (o := List.findSome? _ _)]
    exact ih.bind fun ys same => .ok (by simp [same])

end Outcome

/-- A rule for one field: what is wrong with a given value, or with none. -/
structure ArgumentRule where
  field : String
  fault? : Option Json → Option ArgumentFault

namespace ArgumentRule
open ArgumentFault
variable {α : Type}

/-- The value of a field, which has none if it is missing or null. -/
def value? (decode : Json → Except ArgumentFault α) : Option Json → Except ArgumentFault (Option α)
  | none | some .null => .ok none
  | some json => (decode json).map some

theorem value?_some {decode : Json → Except ArgumentFault α} {json : Json} (given : json ≠ .null) :
    value? decode (some json) = (decode json).map some := by
  cases json with
  | null => exact absurd rfl given
  | _ => rfl

/-- A field must be decoded, and `reject` tells which values are not wanted. -/
def decoded (field : String) (decode : Json → Except ArgumentFault α)
    (reject : Option α → Option ArgumentFault) : ArgumentRule where
  field := field
  fault? given :=
    match value? decode given with
    | .ok value => reject value
    | .error fault => some fault

def optional (field : String) (decode : Json → Except ArgumentFault α) : ArgumentRule :=
  decoded field decode fun _ => none

def required (field : String) (decode : Json → Except ArgumentFault α)
    (reject : α → Option ArgumentFault) : ArgumentRule :=
  decoded field decode fun given =>
    match given with
    | none => some .missing
    | some value => reject value

/-- The period that is given, or else the one that stands in for it, is positive. -/
def positivePeriod (field : String) (standard : Span) : ArgumentRule :=
  decoded field decodePeriod fun given =>
    if given.getD standard ≤ .zero then some .notPositive else none

def percentage (field : String) : ArgumentRule :=
  required field decodeNumber fun x =>
    if Binary64.le 0 x && Binary64.le x .hundred then none else some (.notAPercentage x)

def finiteNumber (field : String) : ArgumentRule :=
  required field decodeNumber fun x => if x.isFinite then none else some .notFinite

def comparison (field : String) : ArgumentRule :=
  required field decodeString fun name =>
    if (Comparison.ofName? name).isSome then none else some (.unknownComparison name)

/-- The count that is given is not zero. -/
def positiveCount (field : String) : ArgumentRule :=
  decoded field decodeCount fun given => if given.getD 1 < 1 then some .lessThanOne else none

/-- The error of some arguments that break a rule. -/
def error? (given : Table Json) (rule : ArgumentRule) : Option BuildError :=
  (rule.fault? (given.get? rule.field)).map (.invalidArgument rule.field)

/-- The error of the first rule that is broken. -/
def firstError? (rules : List ArgumentRule) (given : Table Json) : Option BuildError :=
  rules.findSome? (error? given)

theorem firstError?_cons (rule : ArgumentRule) (rules : List ArgumentRule) (given : Table Json) :
    firstError? (rule :: rules) given = (rule.error? given).or (firstError? rules given) :=
  ListFacts.findSome?_cons_or

theorem firstError?_congr {rules : List ArgumentRule} {given other : Table Json}
    (same : ∀ rule ∈ rules, rule.error? given = rule.error? other) :
    firstError? rules given = firstError? rules other := by
  induction rules with
  | nil => rfl
  | cons rule rules ih =>
    rw [firstError?_cons, firstError?_cons, same rule (List.mem_cons_self ..),
      ih fun rule member => same rule (List.mem_cons_of_mem _ member)]

/-- A select may state a tag filter and grouping tags. -/
def ofSelect : List ArgumentRule :=
  [optional "tags" decodeTagFilter, optional "group_by" decodeStrings]

/-- Periods fall back on the defaults; a bottom ranking does not look at `invert`. -/
def ofKind (defaults : PlanDefaults) : AggregatorKind → List ArgumentRule
  | .min | .max | .merge | .count | .avg | .sum => [positivePeriod "period" defaults.sampling]
  | .percentile => [percentage "percentile", positivePeriod "period" defaults.sampling]
  | .diff | .union => []
  | .threshold => [finiteNumber "threshold", comparison "operator",
      optional "recovery_period" decodePeriod, optional "dwell_period" decodePeriod]
  | .dataAbsent => [positivePeriod "dwell_period" defaults.absenceDwell,
      optional "recovery_period" decodePeriod]
  | .top => [positiveCount "count", optional "invert" decodeBoolean]
  | .bottom => [positiveCount "count"]

end ArgumentRule

namespace ArgumentReader
open ArgumentRule
variable {α β γ : Type} {reader : ArgumentReader α}

/-- With some arguments a reader ends with the error of the first rule that they break, or with a value if
they break none. They stay as they are. -/
def EnforcesOn (reader : ArgumentReader α) (rules : List ArgumentRule) (before : Arguments) : Prop :=
  match (ExceptT.run reader).run before with
  | (.error error, _) => firstError? rules before.given = some error
  | (.ok _, after) => firstError? rules before.given = none ∧ after.given = before.given

def Enforces (reader : ArgumentReader α) (rules : List ArgumentRule) : Prop :=
  ∀ before, reader.EnforcesOn rules before

/-- A reader ends with a fault of some field, whatever its arguments are. -/
def Refuses (reader : ArgumentReader α) (field : String) (fault : ArgumentFault) : Prop :=
  ∀ before, ((ExceptT.run reader).run before).1 = .error (.invalidArgument field fault)

theorem Refuses.refuse (field : String) (fault : ArgumentFault) :
    Refuses (ArgumentReader.refuse field fault : ArgumentReader α) field fault :=
  fun _ => rfl

theorem Refuses.bind {next : α → ArgumentReader β} {field : String} {fault : ArgumentFault}
    (refuses : Refuses reader field fault) : Refuses (reader >>= next) field fault := by
  intro before
  have ended := refuses before
  rw [ExceptT.run_bind, StateT.run_bind]
  cases run : (ExceptT.run reader).run before with
  | mk outcome after =>
    rw [run] at ended
    subst ended
    rfl

theorem Refuses.enforcesOn {field : String} {fault : ArgumentFault} (refuses : Refuses reader field fault)
    {rules : List ArgumentRule} {before : Arguments}
    (broken : firstError? rules before.given = some (.invalidArgument field fault)) :
    reader.EnforcesOn rules before := by
  have ended := refuses before
  rw [EnforcesOn]
  cases run : (ExceptT.run reader).run before with
  | mk outcome after =>
    rw [run] at ended
    subst ended
    exact broken

theorem run_optional (decode : Json → Except ArgumentFault α) (field : String) (before : Arguments) :
    (ExceptT.run (optional decode field)).run before =
      ((value? decode (before.given.get? field)).mapError (.invalidArgument field),
        { before with known := field :: before.known }) := by
  have read : (ExceptT.run (raw field)).run before =
      (.ok (before.given.get? field), { before with known := field :: before.known }) := rfl
  rw [optional, ExceptT.run_bind, StateT.run_bind, read]
  dsimp only [Bind.bind]
  split
  next missing => rw [missing]; rfl
  next null => rw [null]; rfl
  next json given found =>
    rw [found, value?_some given]
    cases decode json <;> rfl

namespace Enforces

theorem pure (value : α) : Enforces (pure value) [] :=
  fun _ => ⟨rfl, rfl⟩

theorem bind {first rest : List ArgumentRule} {next : α → ArgumentReader β}
    (reads : Enforces reader first) (goes_on : ∀ value, Enforces (next value) rest) :
    Enforces (reader >>= next) (first ++ rest) := by
  intro before
  have reads := reads before
  rw [EnforcesOn] at reads ⊢
  rw [ExceptT.run_bind, StateT.run_bind]
  simp only [firstError?, List.findSome?_append]
  cases run : (ExceptT.run reader).run before with
  | mk outcome between =>
    rw [run] at reads
    cases outcome with
    | error error =>
      rw [firstError?] at reads
      simp only [reads, Option.some_or]
      rfl
    | ok value =>
      obtain ⟨passed, same⟩ := reads
      have goes_on := goes_on value between
      rw [EnforcesOn, same] at goes_on
      rw [firstError?] at passed
      simp only [passed, Option.none_or]
      exact goes_on

theorem map {rules : List ArgumentRule} (f : α → β) (reads : Enforces reader rules) :
    Enforces (f <$> reader) rules := by
  rw [map_eq_pure_bind]
  simpa using reads.bind fun value => .pure (f value)

/-- A field is read, its value may be refused, and other fields follow. -/
theorem field {name : String} {decode : Json → Except ArgumentFault α}
    {reject : Option α → Option ArgumentFault} {rest : List ArgumentRule}
    {next : Option α → ArgumentReader β}
    (rejected : ∀ value fault, reject value = some fault → Refuses (next value) name fault)
    (accepted : ∀ value, reject value = none → Enforces (next value) rest) :
    Enforces (ArgumentReader.optional decode name >>= next) (decoded name decode reject :: rest) := by
  intro before
  have rules : firstError? (decoded name decode reject :: rest) before.given =
      (((decoded name decode reject).fault? (before.given.get? name)).map
        (.invalidArgument name)).or (firstError? rest before.given) := firstError?_cons ..
  have goes_on : ∀ value, (decoded name decode reject).fault? (before.given.get? name) = reject value →
      (next value).EnforcesOn (decoded name decode reject :: rest)
        { before with known := name :: before.known } := by
    intro value same
    rw [same] at rules
    cases verdict : reject value with
    | some fault =>
      refine (rejected value fault verdict).enforcesOn ?_
      simpa [verdict] using rules
    | none =>
      have follows := accepted value verdict { before with known := name :: before.known }
      simp only [verdict, Option.map_none, Option.none_or] at rules
      rw [EnforcesOn] at follows ⊢
      rwa [rules]
  rw [EnforcesOn, ExceptT.run_bind, StateT.run_bind, run_optional]
  cases found : value? decode (before.given.get? name) with
  | ok value => exact goes_on value (by simp only [decoded, found])
  | error fault =>
    have fault_eq : (decoded name decode reject).fault? (before.given.get? name) = some fault := by
      simp only [decoded, found]
    rw [fault_eq] at rules
    exact rules

/-- A field whose absence is refused too. -/
theorem required {name : String} {decode : Json → Except ArgumentFault α}
    {reject : α → Option ArgumentFault} {rest : List ArgumentRule} {next : α → ArgumentReader β}
    (rejected : ∀ value fault, reject value = some fault → Refuses (next value) name fault)
    (accepted : ∀ value, reject value = none → Enforces (next value) rest) :
    Enforces (ArgumentReader.required decode name >>= next)
      (ArgumentRule.required name decode reject :: rest) := by
  rw [ArgumentReader.required, bind_assoc]
  refine field ?_ ?_
  · intro value fault refused
    cases value with
    | none =>
      obtain rfl := Option.some.inj refused
      exact (Refuses.refuse name .missing).bind
    | some value => simpa using rejected value fault refused
  · intro value passed
    cases value with
    | none => simp at passed
    | some value => simpa using accepted value passed

/-- A field that only has to be decoded. -/
theorem optional {name : String} {decode : Json → Except ArgumentFault α}
    {rest : List ArgumentRule} {next : Option α → ArgumentReader β}
    (goes_on : ∀ value, Enforces (next value) rest) :
    Enforces (ArgumentReader.optional decode name >>= next) (.optional name decode :: rest) :=
  field (by simp) fun value _ => goes_on value

/-- A field with a value that is refused under some condition. -/
theorem guarded {name : String} {decode : Json → Except ArgumentFault α} {bad : Option α → Prop}
    [DecidablePred bad] {fault : ArgumentFault} {rest : List ArgumentRule}
    {next : Option α → Unit → ArgumentReader β} (goes_on : ∀ value, Enforces (next value ()) rest) :
    Enforces
      (ArgumentReader.optional decode name >>= fun value =>
        if bad value then refuse name fault >>= next value else next value ())
      (decoded name decode (fun value => if bad value then some fault else none) :: rest) := by
  refine field ?_ ?_
  · intro value other refused
    split at refused
    next holds =>
      obtain rfl := Option.some.inj refused
      rw [if_pos holds]
      exact (Refuses.refuse name fault).bind
    next => simp at refused
  · intro value passed
    split at passed
    next => simp at passed
    next fine =>
      rw [if_neg fine]
      exact goes_on value

theorem outcome {rules : List ArgumentRule} (enforces : Enforces reader rules) (given : Table Json) :
    Outcome (fun _ => True) (firstError? rules given) (reader.on given).1 := by
  have ended := enforces (.ofTable given)
  rw [EnforcesOn] at ended
  rw [on]
  cases run : (ExceptT.run reader).run (.ofTable given) with
  | mk outcome after =>
    rw [run] at ended
    cases outcome with
    | error error =>
      have first : firstError? rules given = some error := ended
      exact first ▸ .error
    | ok value =>
      have none : firstError? rules given = none := ended.1
      exact none ▸ .ok trivial

end Enforces
end ArgumentReader

namespace ArgumentRule
open ArgumentReader

theorem ofSelect_enforced (metric : String) : Enforces (Planner.readSelection metric) ofSelect := by
  unfold Planner.readSelection tagFilter strings
  simp only [bind_assoc, pure_bind]
  exact .optional fun _ => .optional fun _ => .pure _

theorem threshold_enforced (defaults : PlanDefaults) :
    Enforces (ThresholdRule.read defaults) (ofKind defaults .threshold) := by
  refine .required ?_ ?_
  · intro x fault refused
    by_cases finite : x.isFinite
    · simp [finite] at refused
    · obtain rfl : .notFinite = fault := by simpa [finite] using refused
      simpa [finite] using (Refuses.refuse "threshold" .notFinite).bind
  · intro x passed
    have finite : x.isFinite :=
      Decidable.byContradiction fun infinite => by simp [infinite] at passed
    simp only [finite, Bool.not_true, Bool.false_eq_true, if_false]
    refine .required ?_ ?_
    · intro name fault refused
      cases named : Comparison.ofName? name with
      | none =>
        obtain rfl : .unknownComparison name = fault := by simpa [named] using refused
        exact .refuse "operator" _
      | some _ => simp [named] at refused
    · intro name passed
      cases named : Comparison.ofName? name with
      | none => simp [named] at passed
      | some _ => exact .optional fun _ => .optional fun _ => .pure _

theorem dataAbsent_enforced (defaults : PlanDefaults) :
    Enforces (AbsenceRule.read defaults) (ofKind defaults .dataAbsent) :=
  .guarded fun _ => .optional fun _ => .pure _

theorem ranking_enforced (defaults : PlanDefaults) {kind : AggregatorKind}
    (ranks : kind = .top ∨ kind = .bottom) :
    Enforces (Ranking.read kind) (ofKind defaults kind) := by
  rcases ranks with rfl | rfl
  · exact .guarded fun _ => .optional fun _ => .pure _
  · exact .guarded fun _ => .pure _

theorem percentage_enforced :
    Enforces (Aggregation.readFunction .percentile) [percentage "percentile"] := by
  refine .required ?_ ?_
  · intro target fault refused
    split at refused
    next => simp at refused
    next outside =>
      obtain rfl := Option.some.inj refused
      rw [if_neg outside]
      exact .refuse "percentile" _
  · intro target passed
    split at passed
    next inside =>
      rw [if_pos inside]
      exact .pure _
    next => simp at passed

/-- A function with buckets is read before its period. -/
theorem sampled_enforced {kind : AggregatorKind} {rules : List ArgumentRule}
    (reads : Enforces (Aggregation.readFunction kind) rules) (sampled : kind.hasSampling)
    (standard : Span) :
    Enforces (Aggregation.read kind standard) (rules ++ [positivePeriod "period" standard]) := by
  refine .bind reads fun function => ?_
  rw [if_pos sampled]
  exact .guarded fun _ => .pure _

theorem plain_enforced {kind : AggregatorKind} {function : AggregationFunction}
    (plain : Aggregation.readFunction kind = pure function) (sampled : kind.hasSampling)
    (defaults : PlanDefaults) :
    Enforces (Operation.aggregate <$> Aggregation.read kind defaults.sampling)
      [positivePeriod "period" defaults.sampling] := by
  have reads : Enforces (Aggregation.readFunction kind) [] := plain ▸ .pure function
  exact .map _ (sampled_enforced reads sampled _)

/-- The reader of an operation enforces the rules of its kind. -/
theorem ofKind_enforced (defaults : PlanDefaults) (kind : AggregatorKind) :
    Enforces (Operation.read kind defaults) (ofKind defaults kind) := by
  cases kind with
  | min => exact plain_enforced rfl rfl defaults
  | max => exact plain_enforced rfl rfl defaults
  | merge => exact plain_enforced rfl rfl defaults
  | percentile => exact .map _ (sampled_enforced percentage_enforced rfl _)
  | count => exact plain_enforced rfl rfl defaults
  | avg => exact plain_enforced rfl rfl defaults
  | sum => exact plain_enforced rfl rfl defaults
  | diff => exact .pure _
  | threshold => exact .map _ (threshold_enforced defaults)
  | dataAbsent => exact .map _ (dataAbsent_enforced defaults)
  | union => exact .pure _
  | top => exact .map _ (ranking_enforced defaults (.inl rfl))
  | bottom => exact .map _ (ranking_enforced defaults (.inr rfl))

end ArgumentRule
end MetricEngine
