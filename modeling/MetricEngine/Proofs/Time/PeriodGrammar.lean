import MetricEngine.Proofs.Text.Numerals
import MetricEngine.Time.Period

/-!
The texts that state periods, by a grammar that tells how many milliseconds each amounts to: seconds, a
count with a unit, or an ISO duration.
-/
namespace MetricEngine.Period
open Text

/-- The units in which periods are counted. -/
inductive TimeUnit where
  | millisecond
  | second
  | minute
  | hour
  | day
  | week

namespace TimeUnit

def millis : TimeUnit → Nat
  | millisecond => 1
  | second => 1000
  | minute => 60 * 1000
  | hour => 60 * 60 * 1000
  | day => 24 * 60 * 60 * 1000
  | week => 7 * 24 * 60 * 60 * 1000

/-- The names that may stand behind a count. -/
def names : TimeUnit → List String
  | millisecond => ["ms", "millis", "milliseconds"]
  | second => ["s", "sec", "secs", "second", "seconds"]
  | minute => ["m", "min", "mins", "minute", "minutes"]
  | hour => ["h", "hr", "hour", "hours"]
  | day => ["d", "day", "days"]
  | week => ["w", "week", "weeks"]

/-- The letter that stands for a unit in a half of an ISO duration. -/
def designator? : IsoPart → TimeUnit → Option Char
  | .date, week => some 'W'
  | .date, day => some 'D'
  | .time, hour => some 'H'
  | .time, minute => some 'M'
  | .time, second => some 'S'
  | _, _ => none

variable {unit : TimeUnit} {part : IsoPart} {name : List Char} {c : Char}

theorem millis_pos (unit : TimeUnit) : 0 < unit.millis := by
  cases unit <;> decide

theorem letters_of_mem_names {name : String} (named : name ∈ unit.names) :
    name.toList ≠ [] ∧ ∀ c ∈ name.toList, 97 ≤ c.toNat ∧ c.toNat ≤ 122 := by
  have all : ∀ unit : TimeUnit, ∀ name ∈ unit.names,
      name.toList ≠ [] ∧ name.toList.all fun c => 97 ≤ c.toNat && c.toNat ≤ 122 := by
    intro unit
    cases unit <;> decide
  obtain ⟨filled, letters⟩ := all unit name named
  exact ⟨filled, fun c member => by simpa using List.all_eq_true.mp letters c member⟩

theorem ne_nil_of_named (named : String.ofList (lower name) ∈ unit.names) : name ≠ [] := by
  rintro rfl
  exact (letters_of_mem_names named).1 (by simp [lower])

theorem letter_of_named (named : String.ofList (lower name) ∈ unit.names) (member : c ∈ name) :
    97 ≤ c.toLower.toNat ∧ c.toLower.toNat ≤ 122 := by
  refine (letters_of_mem_names named).2 c.toLower ?_
  rw [String.toList_ofList]
  exact List.mem_map_of_mem member

theorem not_isDigit_of_named (named : String.ofList (lower name) ∈ unit.names) (member : c ∈ name) :
    ¬c.isDigit := by
  intro digit
  have letter := letter_of_named named member
  have range : 48 ≤ c.toNat ∧ c.toNat ≤ 57 := Char.isDigit_iff_toNat.mp digit
  rw [toLower_of_isDigit digit] at letter
  omega

theorem not_isBlank_of_named (named : String.ofList (lower name) ∈ unit.names) (member : c ∈ name) :
    ¬isBlank c := by
  intro blank
  have letter := letter_of_named named member
  rw [toLower_of_isBlank blank] at letter
  exact (toNat_of_isBlank blank).2 letter

theorem not_of_designator? (designates : unit.designator? part = some c) :
    c ≠ 'T' ∧ ¬c.isDigit ∧ ¬isBlank c := by
  cases part <;> cases unit <;> simp only [designator?, Option.some.injEq, reduceCtorEq] at designates <;>
    subst designates <;> decide

end TimeUnit

variable {part : IsoPart} {text : String} {s digits name : List Char} {c : Char} {count millis : Nat}
  {unit : TimeUnit} {total total' : Int} {span : Span}

theorem designatorMillis?_eq_some_iff :
    part.designatorMillis? c = some millis ↔
      ∃ unit : TimeUnit, unit.designator? part = some c ∧ unit.millis = millis := by
  constructor
  · intro found
    unfold IsoPart.designatorMillis? at found
    split at found
    · exact ⟨.week, rfl, Option.some.inj found⟩
    · exact ⟨.day, rfl, Option.some.inj found⟩
    · exact ⟨.hour, rfl, Option.some.inj found⟩
    · exact ⟨.minute, rfl, Option.some.inj found⟩
    · exact ⟨.second, rfl, Option.some.inj found⟩
    · simp at found
  · rintro ⟨unit, designates, rfl⟩
    cases part <;> cases unit <;>
      simp only [TimeUnit.designator?, Option.some.injEq, reduceCtorEq] at designates <;>
      subst designates <;> rfl

theorem unitMillis?_eq_some_iff {name : String} :
    unitMillis? name = some millis ↔ ∃ unit : TimeUnit, name ∈ unit.names ∧ unit.millis = millis := by
  constructor
  · intro found
    unfold unitMillis? at found
    split at found
    all_goals first
      | exact ⟨.millisecond, by decide, Option.some.inj found⟩
      | exact ⟨.second, by decide, Option.some.inj found⟩
      | exact ⟨.minute, by decide, Option.some.inj found⟩
      | exact ⟨.hour, by decide, Option.some.inj found⟩
      | exact ⟨.day, by decide, Option.some.inj found⟩
      | exact ⟨.week, by decide, Option.some.inj found⟩
      | simp at found
  · rintro ⟨unit, named, rfl⟩
    have all : ∀ unit : TimeUnit, ∀ name ∈ unit.names, unitMillis? name = some unit.millis := by
      intro unit
      cases unit <;> decide
    exact all unit name named

/-! The grammar. -/

/-- Counts with a designator behind each, in capitals, and the milliseconds of all of them. -/
inductive Components (part : IsoPart) : List Char → Nat → Prop where
  | nil : Components part [] 0
  | cons {digits rest : List Char} {count millis : Nat} {unit : TimeUnit} {c : Char} :
      Numeral digits count → unit.designator? part = some c → Components part rest millis →
      Components part (digits ++ c :: rest) (count * unit.millis + millis)

/-- An ISO duration in capitals. It has a component at least, and one behind a `T`. -/
inductive IsoText : List Char → Nat → Prop where
  | date {date : List Char} {days : Nat} :
      Components .date date days → date ≠ [] → IsoText ('P' :: date) days
  | dateTime {date time : List Char} {days rest : Nat} :
      Components .date date days → Components .time time rest → time ≠ [] →
      IsoText ('P' :: (date ++ 'T' :: time)) (days + rest)

/-- A text without a sign states a number of milliseconds. -/
inductive States : List Char → Nat → Prop where
  | seconds {digits : List Char} {count : Nat} :
      Numeral digits count → States digits (count * TimeUnit.second.millis)
  | counted {digits name : List Char} {count : Nat} {unit : TimeUnit} :
      Numeral digits count → String.ofList (lower name) ∈ unit.names →
      States (digits ++ name) (count * unit.millis)
  | iso {s : List Char} {millis : Nat} : IsoText (upper s) millis → States s millis

/-- Seconds may have a sign. -/
inductive StatesSigned : List Char → Int → Prop where
  | unsigned {s : List Char} {millis : Nat} : States s millis → StatesSigned s millis
  | seconds {s : List Char} {count : Int} :
      SignedNumeral s count → StatesSigned s (count * TimeUnit.second.millis)

/-! No text of the grammar has a blank in it. -/

namespace Components

theorem mem_cases (components : Components part s millis) {c : Char} (member : c ∈ s) :
    c.isDigit ∨ ∃ unit : TimeUnit, unit.designator? part = some c := by
  induction components with
  | nil => simp at member
  | @cons _ _ _ _ unit _ numeral designates _ ih =>
    rcases List.mem_append.mp member with digit | behind
    · exact .inl (numeral.isDigit c digit)
    · rcases List.mem_cons.mp behind with rfl | later
      · exact .inr ⟨unit, designates⟩
      · exact ih later

theorem eq_zero_of_nil (components : Components part [] millis) : millis = 0 := by
  generalize empty : ([] : List Char) = s at components
  cases components with
  | nil => rfl
  | cons => simp at empty

theorem not_mem_T (components : Components part s millis) : 'T' ∉ s := by
  intro member
  rcases components.mem_cases member with digit | ⟨unit, designates⟩
  · simp at digit
  · exact (TimeUnit.not_of_designator? designates).1 rfl

theorem not_isBlank (components : Components part s millis) {c : Char} (member : c ∈ s) : ¬isBlank c := by
  rcases components.mem_cases member with digit | ⟨unit, designates⟩
  · exact not_isBlank_of_isDigit digit
  · exact (TimeUnit.not_of_designator? designates).2.2

end Components

theorem IsoText.exists_cons (iso : IsoText s millis) : ∃ rest, s = 'P' :: rest := by
  cases iso <;> exact ⟨_, rfl⟩

theorem IsoText.not_isBlank (iso : IsoText s millis) (member : c ∈ s) : ¬isBlank c := by
  cases iso with
  | date dates =>
    rcases List.mem_cons.mp member with rfl | in_date
    · decide
    · exact dates.not_isBlank in_date
  | dateTime dates times =>
    rcases List.mem_cons.mp member with rfl | behind
    · decide
    · rcases List.mem_append.mp behind with in_date | after
      · exact dates.not_isBlank in_date
      · rcases List.mem_cons.mp after with rfl | in_time
        · decide
        · exact times.not_isBlank in_time

theorem States.ne_nil (states : States s millis) : s ≠ [] := by
  cases states with
  | seconds numeral => exact numeral.ne_nil
  | counted numeral => simp [numeral.ne_nil]
  | iso iso =>
    rintro rfl
    obtain ⟨rest, capitals⟩ := iso.exists_cons
    simp [upper] at capitals

theorem States.not_isBlank (states : States s millis) (member : c ∈ s) : ¬isBlank c := by
  cases states with
  | seconds numeral => exact not_isBlank_of_isDigit (numeral.isDigit c member)
  | counted numeral named =>
    rcases List.mem_append.mp member with digit | letter
    · exact not_isBlank_of_isDigit (numeral.isDigit c digit)
    · exact TimeUnit.not_isBlank_of_named named letter
  | iso iso =>
    intro blank
    have capital : c.toUpper ∈ upper s := List.mem_map_of_mem member
    rw [toUpper_of_isBlank blank] at capital
    exact iso.not_isBlank capital blank

theorem StatesSigned.ne_nil {value : Int} (states : StatesSigned s value) : s ≠ [] := by
  cases states with
  | unsigned states => exact states.ne_nil
  | seconds signed =>
    obtain ⟨first, rest, rfl, _⟩ := signed.exists_cons
    simp

theorem StatesSigned.not_isBlank {value : Int} (states : StatesSigned s value) (member : c ∈ s) :
    ¬isBlank c := by
  cases states with
  | unsigned states => exact states.not_isBlank member
  | seconds signed => exact signed.not_isBlank member

end MetricEngine.Period
