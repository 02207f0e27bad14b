import MetricEngine.Proofs.Time.PeriodGrammar

/-!
Reading periods. A text is read exactly if the grammar of periods has it and it is not too long, and it is
read as what it states.
-/
namespace MetricEngine.Period
open Text

variable {part : IsoPart} {text : String} {s digits name : List Char} {c : Char} {count millis : Nat}
  {unit : TimeUnit} {total total' : Int} {span : Span}

/-! Seconds and counts with a unit. -/

theorem withinBounds_of_long {millis : Int} (long : longestMillis < millis) :
    withinBounds millis = .error .outOfRange :=
  if_neg (Int.not_le.mpr long)

theorem longestMillis_lt : longestMillis < int64Max := by decide

/-- A count that does not fit 64 bits is out of range in any unit. -/
theorem withinBounds_of_crowded (unit : TimeUnit) (crowded : int64Max < count) :
    withinBounds (count * unit.millis : Nat) = .error .outOfRange := by
  have at_least : count ≤ count * unit.millis := Nat.le_mul_of_pos_right count unit.millis_pos
  have longest := longestMillis_lt
  exact withinBounds_of_long (by omega)

theorem ofUnit_eq (numeral : Numeral digits count) (named : String.ofList (lower name) ∈ unit.names) :
    ofUnit text (digits ++ name) = withinBounds (count * unit.millis : Nat) := by
  obtain ⟨first, rest, rfl⟩ := List.exists_cons_of_ne_nil (TimeUnit.ne_nil_of_named named)
  have not_digit : ¬first.isDigit := TimeUnit.not_isDigit_of_named named List.mem_cons_self
  have counted : (digits ++ first :: rest).takeWhile Char.isDigit = digits := by
    rw [List.takeWhile_append_of_pos numeral.isDigit, List.takeWhile_cons_of_neg not_digit,
      List.append_nil]
  have behind : (digits ++ first :: rest).dropWhile Char.isDigit = first :: rest := by
    rw [List.dropWhile_append_of_pos numeral.isDigit, List.dropWhile_cons_of_neg not_digit]
  have unit_millis : unitMillis? (String.ofList (lower (first :: rest))) = some unit.millis :=
    unitMillis?_eq_some_iff.mpr ⟨unit, named, rfl⟩
  have filled : digits.isEmpty = false := List.isEmpty_eq_false_iff.mpr numeral.ne_nil
  simp only [ofUnit, counted, behind, filled, numeral.digitsValue_eq, unit_millis, List.isEmpty_cons,
    Bool.false_eq_true, if_false]
  split
  next crowded => exact (withinBounds_of_crowded unit crowded).symm
  next => rw [Int.natCast_mul]

theorem ofUnit_digits (numeral : Numeral digits count) : ofUnit text digits = .error .outOfRange := by
  have behind : (digits ++ []).dropWhile Char.isDigit = [] := List.dropWhile_append_of_pos numeral.isDigit
  rw [List.append_nil] at behind
  simp [ofUnit, behind]

theorem states_of_ofUnit (read : ofUnit text s = .ok span) :
    ∃ millis : Nat, States s millis ∧ withinBounds millis = .ok span := by
  simp only [ofUnit] at read
  split at read
  next => simp at read
  next =>
    split at read
    next => simp at read
    next filled =>
      split at read
      next => simp at read
      next =>
        split at read
        next => simp at read
        next unit_millis found =>
          obtain ⟨unit, named, rfl⟩ := unitMillis?_eq_some_iff.mp found
          have numeral := Numeral.of_isDigit (by simpa using filled)
            (List.all_eq_true.mp (List.all_takeWhile (p := Char.isDigit) (l := s)))
          have stated := States.counted numeral named
          rw [List.takeWhile_append_dropWhile] at stated
          exact ⟨_, stated, by rw [Int.natCast_mul]; exact read⟩

/-! ISO durations. -/

theorem isoComponents?_append {taken : List Char} (all : ∀ c ∈ digits, c.isDigit) :
    isoComponents? taken (digits ++ s) = isoComponents? (taken ++ digits) s := by
  induction digits generalizing taken with
  | nil => simp
  | cons first rest ih =>
    have ⟨digit, others⟩ := List.forall_mem_cons.mp all
    rw [List.cons_append, isoComponents?, if_pos digit, ih others]
    simp

theorem isoComponents?_cons (numeral : Numeral digits count) (designates : unit.designator? part = some c) :
    isoComponents? [] (digits ++ c :: s) = (isoComponents? [] s).map ((digits, c) :: ·) := by
  have not_digit := (TimeUnit.not_of_designator? designates).2.1
  have filled : digits.isEmpty = false := List.isEmpty_eq_false_iff.mpr numeral.ne_nil
  rw [isoComponents?_append numeral.isDigit, List.nil_append, isoComponents?, if_neg not_digit]
  simp [filled]

theorem addComponent_eq (numeral : Numeral digits count) (designates : unit.designator? part = some c)
    (nonneg : 0 ≤ total) :
    addComponent part text total (digits, c) =
      if total + (count * unit.millis : Nat) ≤ Span.maxMillis then .ok (total + (count * unit.millis : Nat))
      else .error .outOfRange := by
  have at_least : count ≤ count * unit.millis := Nat.le_mul_of_pos_right count unit.millis_pos
  have designated : part.designatorMillis? c = some unit.millis :=
    designatorMillis?_eq_some_iff.mpr ⟨unit, designates, rfl⟩
  generalize millis_eq : count * unit.millis = millis at at_least
  have max_eq : int64Max = Span.maxMillis := rfl
  simp only [addComponent, numeral.digitsValue_eq, designated, ← Int.natCast_mul, millis_eq, max_eq,
    Bool.or_eq_true, decide_eq_true_eq]
  by_cases fits : total + millis ≤ Span.maxMillis
  · have count_fits : ¬Span.maxMillis < (count : Int) := by omega
    have sum_fits : ¬(Span.maxMillis < (millis : Int) ∨ Span.maxMillis < total + millis) := by omega
    rw [if_pos fits, if_neg count_fits, if_neg sum_fits]
    rfl
  · rw [if_neg fits]
    split
    next => rfl
    next =>
      have crowded : Span.maxMillis < (millis : Int) ∨ Span.maxMillis < total + millis := by omega
      rw [if_pos crowded]
      rfl

theorem addComponent_ok (added : addComponent part text total (digits, c) = .ok total') :
    ∃ unit : TimeUnit, unit.designator? part = some c ∧
      total' = total + (digitsValue digits * unit.millis : Nat) := by
  simp only [addComponent] at added
  split at added
  next => cases added
  next =>
    split at added
    next => cases added
    next unit_millis found =>
      obtain ⟨unit, designates, rfl⟩ := designatorMillis?_eq_some_iff.mp found
      split at added
      next => cases added
      next =>
        refine ⟨unit, designates, ?_⟩
        rw [Int.natCast_mul]
        exact (Except.ok.inj added).symm

/-- A half is split into its components, which are added unless their sum is too large. -/
theorem Components.exists_split (components : Components part s millis) :
    ∃ split, isoComponents? [] s = some split ∧ ∀ total : Int, 0 ≤ total → total ≤ Span.maxMillis →
      split.foldlM (addComponent part text) total =
        if total + millis ≤ Span.maxMillis then .ok (total + millis) else .error .outOfRange := by
  induction components with
  | nil => exact ⟨[], rfl, fun total _ fits => by simp [fits]; rfl⟩
  | @cons digits rest count millis unit c numeral designates _ ih =>
    obtain ⟨split, found, sum⟩ := ih
    refine ⟨(digits, c) :: split, by rw [isoComponents?_cons numeral designates, found]; rfl, ?_⟩
    intro total nonneg fits
    rw [List.foldlM_cons, addComponent_eq numeral designates nonneg]
    have whole : ((count * unit.millis + millis : Nat) : Int) = (count * unit.millis : Nat) + millis :=
      Int.natCast_add ..
    generalize count * unit.millis = first at whole ⊢
    by_cases first_fits : total + first ≤ Span.maxMillis
    · rw [if_pos first_fits, whole, ← Int.add_assoc]
      exact sum _ (by omega) first_fits
    · rw [if_neg first_fits, if_neg (by omega)]
      rfl

theorem Components.addPart_eq (components : Components part s millis) (nonneg : 0 ≤ total)
    (fits : total ≤ Span.maxMillis) :
    addPart part text s total =
      if total + millis ≤ Span.maxMillis then .ok (total + millis) else .error .outOfRange := by
  obtain ⟨split, found, sum⟩ := components.exists_split
  rw [addPart, found]
  exact sum total nonneg fits

/-- What has been split and added is made of components; `digits` are those of the count being read. -/
theorem components_of_split {split : List (List Char × Char)} (all : ∀ c ∈ digits, c.isDigit)
    (found : isoComponents? digits s = some split)
    (sum : split.foldlM (addComponent part text) total = .ok total') :
    ∃ millis : Nat, Components part (digits ++ s) millis ∧ total' = total + millis := by
  induction s generalizing digits split total with
  | nil =>
    rw [isoComponents?] at found
    split at found
    next empty =>
      obtain rfl := Option.some.inj found
      obtain rfl : digits = [] := by simpa using empty
      exact ⟨0, .nil, by simpa using (Except.ok.inj sum).symm⟩
    next => simp at found
  | cons c rest ih =>
    rw [isoComponents?] at found
    split at found
    next digit =>
      have longer : ∀ d ∈ digits ++ [c], d.isDigit := by
        simpa [or_imp, forall_and] using ⟨all, digit⟩
      simpa using ih longer found sum
    next =>
      split at found
      next => simp at found
      next filled =>
        obtain ⟨later, found_later, rfl⟩ := Option.map_eq_some_iff.mp found
        rw [List.foldlM_cons] at sum
        cases first : addComponent part text total (digits, c) with
        | error error => rw [first] at sum; cases sum
        | ok between =>
          rw [first] at sum
          obtain ⟨unit, designates, rfl⟩ := addComponent_ok first
          obtain ⟨millis, components, rfl⟩ := ih (by simp) found_later sum
          have numeral := Numeral.of_isDigit (by simpa using filled) all
          exact ⟨_, .cons numeral designates components, by rw [Int.natCast_add, Int.add_assoc]⟩

theorem components_of_addPart (added : addPart part text s total = .ok total') :
    ∃ millis : Nat, Components part s millis ∧ total' = total + millis := by
  rw [addPart] at added
  split at added
  next => cases added
  next split found => exact components_of_split (by simp) found added

/-- The halves of an ISO duration, which the first `T` tells apart. -/
theorem halves {date : List Char} (before : 'T' ∉ date) (time : List Char) :
    (date ++ 'T' :: time).takeWhile (· ≠ 'T') = date ∧
      (date ++ 'T' :: time).dropWhile (· ≠ 'T') = 'T' :: time := by
  have other : ∀ c ∈ date, decide (c ≠ 'T') = true :=
    fun c member => decide_eq_true fun same => before (same ▸ member)
  constructor
  · rw [List.takeWhile_append_of_pos other, List.takeWhile_cons_of_neg (by simp), List.append_nil]
  · rw [List.dropWhile_append_of_pos other, List.dropWhile_cons_of_neg (by simp)]

theorem only_date {date : List Char} (before : 'T' ∉ date) :
    date.takeWhile (· ≠ 'T') = date ∧ date.dropWhile (· ≠ 'T') = [] := by
  have other : ∀ c ∈ date, decide (c ≠ 'T') = true :=
    fun c member => decide_eq_true fun same => before (same ▸ member)
  have taken : (date ++ []).takeWhile (· ≠ 'T') = date ++ [] := List.takeWhile_append_of_pos other
  have dropped : (date ++ []).dropWhile (· ≠ 'T') = [] := List.dropWhile_append_of_pos other
  rw [List.append_nil] at taken dropped
  exact ⟨taken, dropped⟩

/-- The sum of both halves is checked once more; before, it only has to fit 64 bits. -/
theorem IsoText.read (iso : IsoText ('P' :: upper s) millis) : ofIso text s = withinBounds millis := by
  have longest : longestMillis < Span.maxMillis := longestMillis_lt
  generalize upper_eq : upper s = capitals at iso
  cases iso with
  | date dates filled =>
    obtain ⟨first, second⟩ := only_date dates.not_mem_T
    have no_T : capitals.contains 'T' = false := by simpa using dates.not_mem_T
    have filled : capitals.isEmpty = false := List.isEmpty_eq_false_iff.mpr filled
    simp only [ofIso, upper_eq, first, second, no_T, filled, dates.addPart_eq (Int.le_refl 0) (by decide),
      Bool.false_and, Bool.false_eq_true, if_false, Int.zero_add]
    by_cases fits : (millis : Int) ≤ Span.maxMillis
    · rw [if_pos fits]
      rfl
    · rw [if_neg fits, withinBounds_of_long (by omega)]
      rfl
  | @dateTime date time days rest dates times filled =>
    obtain ⟨first, second⟩ := halves dates.not_mem_T time
    have filled : time.isEmpty = false := List.isEmpty_eq_false_iff.mpr filled
    simp only [ofIso, upper_eq, first, second, dates.addPart_eq (Int.le_refl 0) (by decide), filled,
      List.drop_succ_cons, List.drop_zero, Bool.and_false, Bool.false_eq_true, if_false, Int.zero_add]
    by_cases fits : (days : Int) ≤ Span.maxMillis
    · simp only [if_pos fits, bind, Except.bind, times.addPart_eq (Int.natCast_nonneg days) fits]
      by_cases both_fit : (days : Int) + rest ≤ Span.maxMillis
      · rw [if_pos both_fit, Int.natCast_add]
      · rw [if_neg both_fit, withinBounds_of_long (by omega)]
    · rw [if_neg fits, withinBounds_of_long (by omega)]
      rfl

/-- Whatever precedes the first `T` and whatever follows it. -/
theorem exists_halves (capitals : List Char) :
    ∃ date behind, capitals = date ++ behind ∧ capitals.takeWhile (· ≠ 'T') = date ∧
      capitals.dropWhile (· ≠ 'T') = behind ∧ (behind = [] ∨ ∃ time, behind = 'T' :: time) := by
  refine ⟨_, _, List.takeWhile_append_dropWhile.symm, rfl, rfl, ?_⟩
  cases behind : capitals.dropWhile (· ≠ 'T') with
  | nil => exact .inl rfl
  | cons first time =>
    have stopped := List.head?_dropWhile_not (· ≠ 'T') capitals
    rw [behind] at stopped
    obtain rfl : first = 'T' := by simpa using stopped
    exact .inr ⟨time, rfl⟩

theorem isoText_of_ofIso (read : ofIso text s = .ok span) :
    ∃ millis : Nat, IsoText ('P' :: upper s) millis ∧ withinBounds millis = .ok span := by
  simp only [ofIso] at read
  generalize upper s = capitals at read ⊢
  obtain ⟨date, behind, split, before, after, which⟩ := exists_halves capitals
  rw [before, after] at read
  split at read
  next => cases read
  next followed =>
    cases dates : addPart .date text date 0 with
    | error error => rw [dates] at read; cases read
    | ok total =>
      rw [dates] at read
      cases times : addPart .time text (behind.drop 1) total with
      | error error => simp only [bind, Except.bind, times] at read; cases read
      | ok total' =>
        simp only [bind, Except.bind, times] at read
        split at read
        next => cases read
        next filled =>
          obtain ⟨days, date_components, rfl⟩ := components_of_addPart dates
          obtain ⟨rest, time_components, rfl⟩ := components_of_addPart times
          rcases which with rfl | ⟨time, rfl⟩
          · -- Nothing follows, so there is a component before.
            rw [List.append_nil] at split
            subst split
            obtain rfl := time_components.eq_zero_of_nil
            exact ⟨days, .date date_components (by simpa using filled), by simpa using read⟩
          · subst split
            rw [List.drop_succ_cons, List.drop_zero] at time_components followed
            exact ⟨days + rest, .dateTime date_components time_components (by simpa using followed),
              by simpa using read⟩

/-! Texts of all kinds. -/

theorem eq_of_toUpper_eq_P {c : Char} (capital : c.toUpper = 'P') : c = 'P' ∨ c = 'p' := by
  by_cases letter : 97 ≤ c.toNat ∧ c.toNat ≤ 122
  · have raised : c.toUpper = ⟨c.val + ('A'.val - 'a'.val), _⟩ := dif_pos letter
    have moved : c.val + ('A'.val - 'a'.val) = 'p'.val + ('A'.val - 'a'.val) :=
      (congrArg Char.val (raised.symm.trans capital)).trans (by decide)
    exact .inr (Char.ext ((UInt32.add_left_inj _).mp moved))
  · have kept : c.toUpper = c := dif_neg letter
    exact .inl (kept.symm.trans capital)

/-- A text that starts with a digit or a sign is no ISO duration. -/
theorem ofString_of_head {first : Char} {rest : List Char} (trimmed : trim text.toList = first :: rest)
    (head : first.isDigit ∨ first = '+' ∨ first = '-') :
    ofString text =
      match readInt64? (first :: rest) with
      | some seconds => ofSeconds seconds
      | none => ofUnit text (first :: rest) := by
  have not_iso : (first = 'P' || first = 'p') = false := by
    rw [Bool.or_eq_false_iff, decide_eq_false_iff_not, decide_eq_false_iff_not]
    constructor <;> rintro rfl <;> simp at head
  rw [ofString, trimmed]
  exact if_neg (ne_true_of_eq_false not_iso)

theorem ofSeconds_natCast (count : Nat) :
    ofSeconds count = withinBounds (count * TimeUnit.second.millis : Nat) := by
  rw [ofSeconds, if_neg (Int.not_lt.mpr (Int.natCast_nonneg count)), Int.natCast_mul]
  rfl

theorem States.read (states : States s millis) (trimmed : trim text.toList = s) :
    ofString text = withinBounds millis := by
  cases states with
  | @seconds _ count numeral =>
    obtain ⟨first, rest, rfl, digit⟩ := numeral.exists_cons
    rw [ofString_of_head trimmed (.inl digit)]
    by_cases fits : fitsInt64 count
    · rw [readInt64?_eq_some_iff.mpr ⟨.plain numeral, fits⟩]
      exact ofSeconds_natCast count
    · have no_integer : readInt64? (first :: rest) = none := by
        refine Option.eq_none_iff_forall_ne_some.mpr fun value read => ?_
        obtain ⟨signed, in_range⟩ := readInt64?_eq_some_iff.mp read
        obtain ⟨n, rfl, again⟩ := signed.exists_numeral rfl digit
        exact fits (numeral.digitsValue_eq ▸ again.digitsValue_eq ▸ in_range)
      have crowded : int64Max < count := Int.not_le.mp fun small => fits (fitsInt64_natCast.mpr small)
      rw [no_integer, withinBounds_of_crowded .second crowded]
      exact ofUnit_digits numeral
  | @counted digits name count unit numeral named =>
    have counted : ofUnit text (digits ++ name) = _ := ofUnit_eq numeral named
    obtain ⟨first, rest, rfl, digit⟩ := numeral.exists_cons
    rw [List.cons_append] at trimmed counted
    have no_integer : readInt64? (first :: (rest ++ name)) = none := by
      refine Option.eq_none_iff_forall_ne_some.mpr fun value read => ?_
      obtain ⟨n, _, whole⟩ := (readInt64?_eq_some_iff.mp read).1.exists_numeral rfl digit
      obtain ⟨letter, more, rfl⟩ := List.exists_cons_of_ne_nil (TimeUnit.ne_nil_of_named named)
      exact TimeUnit.not_isDigit_of_named named List.mem_cons_self (whole.isDigit letter (by simp))
    rw [ofString_of_head trimmed (.inl digit), no_integer]
    exact counted
  | iso iso =>
    obtain ⟨rest, capitals⟩ := iso.exists_cons
    obtain ⟨p, behind, rfl, capital, rfl⟩ := List.map_eq_cons_iff.mp capitals
    have is_iso : (p = 'P' || p = 'p') = true := by
      rcases eq_of_toUpper_eq_P capital with rfl | rfl <;> rfl
    rw [capitals] at iso
    rw [ofString, trimmed]
    simp only [is_iso, if_true]
    exact iso.read

/-- Seconds with a sign fit 64 bits unless they are too many. -/
theorem StatesSigned.read {value : Int} (states : StatesSigned s value) (trimmed : trim text.toList = s)
    (nonneg : 0 ≤ value) (short : value ≤ longestMillis) : ofString text = withinBounds value := by
  cases states with
  | unsigned states => exact states.read trimmed
  | @seconds count signed =>
    obtain ⟨first, rest, rfl, head⟩ := signed.exists_cons
    have second : (TimeUnit.second.millis : Int) = 1000 := rfl
    have longest := longestMillis_lt
    have least : int64Min < 0 := by decide
    rw [second] at nonneg short
    have fits : fitsInt64 count := by
      simp only [fitsInt64, Bool.and_eq_true, decide_eq_true_eq]
      omega
    rw [ofString_of_head trimmed head, readInt64?_eq_some_iff.mpr ⟨signed, fits⟩]
    exact if_neg (by omega)

theorem statesSigned_of_ofString (read : ofString text = .ok span) :
    ∃ millis, StatesSigned (trim text.toList) millis ∧ 0 ≤ millis ∧ withinBounds millis = .ok span := by
  unfold ofString at read
  split at read
  next => simp at read
  next first rest trimmed =>
    rw [trimmed]
    split at read
    next iso =>
      obtain ⟨millis, iso_text, bounded⟩ := isoText_of_ofIso read
      have capital : first.toUpper = 'P' := by
        rcases (by simpa using iso) with rfl | rfl <;> rfl
      refine ⟨millis, .unsigned (.iso ?_), Int.natCast_nonneg millis, bounded⟩
      rwa [upper, List.map_cons, capital]
    next =>
      split at read
      next seconds found =>
        rw [ofSeconds] at read
        split at read
        next => simp at read
        next nonneg =>
          refine ⟨_, .seconds (readInt64?_eq_some_iff.mp found).1, ?_, read⟩
          have := Int.not_lt.mp nonneg
          simp only [TimeUnit.millis]
          omega
      next =>
        obtain ⟨millis, states, bounded⟩ := states_of_ofUnit read
        exact ⟨millis, .unsigned states, Int.natCast_nonneg millis, bounded⟩

/-- A text is read as a period exactly if, with blanks around it or not, it states a number of milliseconds
from zero to 36500 days, and that is how long the period is. If it has no sign and states more than that, it
is out of range, however many digits it has. -/
theorem texts_read_exactly (text : String) :
    (∀ span, ofString text = .ok span ↔ ∃ body millis, Padded text.toList body ∧
      StatesSigned body millis ∧ 0 ≤ millis ∧ millis ≤ 36500 * TimeUnit.day.millis ∧
      span = .ofMillis millis) ∧
    ∀ body millis, Padded text.toList body → States body millis → 36500 * TimeUnit.day.millis < millis →
      (ofString text).mapError PeriodError.message = .error "out of range" := by
  have longest : longestMillis = 36500 * (TimeUnit.day.millis : Int) := rfl
  rw [← longest]
  constructor
  · intro span
    constructor
    · intro read
      obtain ⟨millis, states, nonneg, bounded⟩ := statesSigned_of_ofString read
      rw [withinBounds] at bounded
      split at bounded
      next short =>
        exact ⟨_, millis, padded_trim _, states, nonneg, short, (Except.ok.inj bounded).symm⟩
      next => simp at bounded
    · rintro ⟨body, millis, padded, states, nonneg, short, rfl⟩
      have trimmed := padded.trim_eq states.ne_nil fun _ => states.not_isBlank
      rw [states.read trimmed nonneg short, withinBounds, if_pos short]
  · intro body millis padded states long
    have trimmed := padded.trim_eq states.ne_nil fun _ => states.not_isBlank
    have too_long : longestMillis < millis := by
      rw [longest]
      exact Int.ofNat_lt.mpr long
    rw [states.read trimmed, withinBounds_of_long too_long]
    rfl

/-- The longest period is read, and a second more is out of range. -/
theorem longestPeriod_read :
    ofString " p36500d " = .ok (.ofMillis 3153600000000) ∧
      (ofString "P36500DT1S").mapError PeriodError.message = .error "out of range" := by
  have count : Numeral ['3', '6', '5', '0', '0'] 36500 := .of_isDigit (by decide) (List.all_eq_true.mp rfl)
  have one : Numeral ['1'] 1 := .of_isDigit (by decide) (List.all_eq_true.mp rfl)
  have day : TimeUnit.day.designator? .date = some 'D' := rfl
  have second : TimeUnit.second.designator? .time = some 'S' := rfl
  have days : Components .date ['3', '6', '5', '0', '0', 'D'] _ := .cons count day .nil
  have rest : Components .time ['1', 'S'] _ := .cons one second .nil
  constructor
  · have states : States ['p', '3', '6', '5', '0', '0', 'd'] (36500 * TimeUnit.day.millis) :=
      .iso (.date days (by decide))
    have padded : Padded " p36500d ".toList ['p', '3', '6', '5', '0', '0', 'd'] :=
      ⟨[' '], [' '], by decide, List.all_eq_true.mp rfl, List.all_eq_true.mp rfl⟩
    exact ((texts_read_exactly _).1 _).mpr ⟨_, _, padded, .unsigned states, by decide, by decide, rfl⟩
  · have states : States ['P', '3', '6', '5', '0', '0', 'D', 'T', '1', 'S'] _ :=
      .iso (.dateTime days rest (by decide))
    exact (texts_read_exactly _).2 _ _ ⟨[], [], by decide, by simp, by simp⟩ states (by decide)

end MetricEngine.Period
