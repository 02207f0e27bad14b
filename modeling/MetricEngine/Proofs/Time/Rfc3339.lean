import MetricEngine.Time.Rfc3339
import MetricEngine.Proofs.Text.WrittenNumbers
import MetricEngine.Proofs.Time.Calendar

/-!
Instants as they are written. Every instant, in whatever year and also in a leap second, is read back from its
text, whichever way the offset is written.
-/
namespace MetricEngine.Rfc3339
open Text Calendar
variable {digits rest : List Char} {n most : Nat}

theorem trimStart_of_digits (numeral : Numeral digits n) (rest : List Char) :
    trimStart (digits ++ rest) = digits ++ rest := by
  obtain ⟨first, more, rfl, digit⟩ := numeral.exists_cons
  exact List.dropWhile_cons_of_neg (not_isBlank_of_isDigit digit)

/-- Digits are read if the field has room for them and ends behind them. -/
theorem readField?_append (numeral : Numeral digits n) (room : digits.length ≤ most)
    (stops : StopsBefore Char.isDigit (rest.take (most - digits.length))) :
    readField? most (digits ++ rest) = some (n, rest) := by
  have taken : (digits ++ rest).take most = digits ++ rest.take (most - digits.length) := by
    rw [List.take_append, List.take_of_length_le room]
  have filled : digits.isEmpty = false := List.isEmpty_eq_false_iff.mpr numeral.ne_nil
  rw [readField?, taken, (stops.run numeral.isDigit).1]
  simp [filled, numeral.digitsValue_eq]

theorem readField?_padded {width : Nat} (positive : 0 < width) (fits : n < 10 ^ width) (rest : List Char) :
    readField? width ((padded width n).toList ++ rest) = some (n, rest) := by
  have length := length_padded positive fits
  refine readField?_append (numeral_padded width n) (Nat.le_of_eq length) ?_
  rw [length, Nat.sub_self, List.take_zero]
  exact stopsBefore_nil

theorem readPart?_padded {separator : Char} (solid : isBlank separator = false) (fits : n < 100)
    (rest : List Char) :
    readPart? separator (separator :: ((padded 2 n).toList ++ rest)) = some (n, rest) := by
  have front : trimStart (separator :: ((padded 2 n).toList ++ rest)) =
      separator :: ((padded 2 n).toList ++ rest) := List.dropWhile_cons_of_neg (by simp [solid])
  have field := readField?_padded (by decide : 0 < 2) fits rest
  simp [readPart?, front, trimStart_of_digits (numeral_padded 2 n), field]

theorem readYear?_of_digits (numeral : Numeral digits n) (rest : List Char) :
    readYear? (digits ++ rest) = (readField? 4 (digits ++ rest)).map fun (n, rest) => ((n : Int), rest) := by
  rw [readYear?, trimStart_of_digits numeral]
  obtain ⟨first, more, rfl, digit⟩ := numeral.exists_cons
  split
  next same =>
    obtain ⟨rfl, _⟩ := List.cons.inj same
    simp at digit
  next same =>
    obtain ⟨rfl, _⟩ := List.cons.inj same
    simp at digit
  next => rfl

theorem readYear?_minus (s : List Char) :
    readYear? ('-' :: s) = (readField? s.length s).map fun (n, rest) => (-(n : Int), rest) := rfl

theorem readYear?_plus (s : List Char) :
    readYear? ('+' :: s) = (readField? s.length s).map fun (n, rest) => ((n : Int), rest) := rfl

theorem readYear?_yearText (year : Int) (stops : StopsBefore Char.isDigit rest) :
    readYear? ((yearText year).toList ++ rest) = some (year, rest) := by
  -- Behind a sign the field is as long as the text.
  have signed : ∀ n, readField? ((padded 4 n).toList ++ rest).length ((padded 4 n).toList ++ rest) =
      some (n, rest) := by
    intro n
    refine readField?_append (numeral_padded 4 n) (by simp) ?_
    rw [List.length_append, Nat.add_sub_cancel_left, List.take_length]
    exact stops
  unfold yearText
  split
  next plain =>
    obtain ⟨n, rfl⟩ := Int.eq_ofNat_of_zero_le plain.1
    have fits : n < 10 ^ 4 := by omega
    rw [Int.toNat_natCast, readYear?_of_digits (numeral_padded 4 n), readField?_padded (by decide) fits]
    rfl
  next =>
    have sign : "-".toList = ['-'] ∧ "+".toList = ['+'] := ⟨rfl, rfl⟩
    rw [String.toList_append, List.append_assoc]
    split
    next before =>
      have value : -(year.natAbs : Int) = year := by omega
      rw [sign.1, List.singleton_append, readYear?_minus, signed]
      simp only [Option.map_some, value]
    next after =>
      have value : (year.natAbs : Int) = year := by omega
      rw [sign.2, List.singleton_append, readYear?_plus, signed]
      simp only [Option.map_some, value]

/-- As many decimals as are written give the nanoseconds again. -/
theorem readFraction?_padded {width scale : Nat} (positive : 0 < width) (short : width ≤ 9)
    (fits : n < 10 ^ width) (power : Nat.pow 10 (9 - width) = scale) (stops : StopsBefore Char.isDigit rest) :
    readFraction? (("." ++ padded width n).toList ++ rest) = some (n * scale, rest) := by
  have length := length_padded positive fits
  obtain ⟨front, back⟩ := stops.run (numeral_padded width n).isDigit
  have filled : (padded width n).toList.isEmpty = false :=
    List.isEmpty_eq_false_iff.mpr (numeral_padded width n).ne_nil
  have kept : (padded width n).toList.take 9 = (padded width n).toList :=
    List.take_of_length_le (Nat.le_trans (Nat.le_of_eq length) short)
  have point : ".".toList = ['.'] := rfl
  rw [String.toList_append, List.append_assoc, point, List.singleton_append]
  simp only [readFraction?, front, back, filled, kept, length, (numeral_padded width n).digitsValue_eq, power]
  rfl

theorem readFraction?_of_ne {s : List Char} (plain : s.head? ≠ some '.') : readFraction? s = some (0, s) := by
  unfold readFraction?
  split
  next => simp at plain
  next => rfl

theorem readFraction?_fractionText {nanos : Nat} (below : nanos < 1000000000) (plain : rest.head? ≠ some '.')
    (stops : StopsBefore Char.isDigit rest) :
    readFraction? ((fractionText nanos).toList ++ rest) = some (nanos, rest) := by
  unfold fractionText
  split
  next zero =>
    subst zero
    exact readFraction?_of_ne plain
  split
  next millis =>
    have whole : nanos / 1000000 * 1000000 = nanos := by omega
    rw [readFraction?_padded (by decide) (by decide) (by omega) rfl stops, whole]
  split
  next micros =>
    have whole : nanos / 1000 * 1000 = nanos := by omega
    rw [readFraction?_padded (by decide) (by decide) (by omega) rfl stops, whole]
  next =>
    rw [readFraction?_padded (by decide) (by decide) (by omega) rfl stops, Nat.mul_one]

theorem readOffset?_text (zone : Zone) : readOffset? zone.text.toList = some (0, []) := by
  cases zone <;> rfl

theorem readMark?_digits (numeral : Numeral digits n) (rest : List Char) :
    readMark? ('T' :: (digits ++ rest)) = some (digits ++ rest) := by
  simp [readMark?, trimStart_of_digits numeral]

/-- The fields of a text are those that were written. -/
theorem readReading?_append {date : Date} {hour minute second nanos : Nat} (zone : Zone)
    (days : date.month < 100 ∧ date.day < 100) (times : hour < 100 ∧ minute < 100 ∧ second < 100)
    (below : nanos < 1000000000) :
    Reading.read? ((yearText date.year).toList ++ '-' :: ((padded 2 date.month).toList ++
      '-' :: ((padded 2 date.day).toList ++ 'T' :: ((padded 2 hour).toList ++
      ':' :: ((padded 2 minute).toList ++ ':' :: ((padded 2 second).toList ++
      ((fractionText nanos).toList ++ zone.text.toList))))))) =
    some ⟨date, hour, minute, second, nanos, 0⟩ := by
  have plain : zone.text.toList.head? ≠ some '.' := by cases zone <;> simp [Zone.text]
  have stops : StopsBefore Char.isDigit zone.text.toList := by cases zone <;> simp [Zone.text, StopsBefore]
  have hyphen : isBlank '-' = false := by decide
  have colon : isBlank ':' = false := by decide
  simp only [Reading.read?, readYear?_yearText _ (stopsBefore_cons (by decide : Char.isDigit '-' = false)),
    readPart?_padded hyphen days.1, readPart?_padded hyphen days.2, readMark?_digits (numeral_padded 2 hour),
    readField?_padded (by decide : 0 < 2) times.1, readPart?_padded colon times.2.1,
    readPart?_padded colon times.2.2, readFraction?_fractionText below plain stops, readOffset?_text,
    Option.bind_eq_bind, Option.bind_some]
  rfl

theorem make?_self (t : Instant) : Instant.make? t.second t.nanos = some t :=
  dif_pos ⟨⟨t.earliest_le, t.le_latest⟩, t.nanos_lt, t.leap_ends_minute⟩

theorem toList_render (zone : Zone) (t : Instant) {date : Date} {second : Nat}
    (day : date = .ofDayNumber (t.second / 86400)) (time : second = t.secondOfDay.toNat) :
    (render zone t).toList = (yearText date.year).toList ++ '-' :: ((padded 2 date.month).toList ++
      '-' :: ((padded 2 date.day).toList ++ 'T' :: ((padded 2 (second / 3600)).toList ++
      ':' :: ((padded 2 (second / 60 % 60)).toList ++
      ':' :: ((padded 2 (second % 60 + if t.isLeap then 1 else 0)).toList ++
      ((fractionText (t.nanos % 1000000000)).toList ++ zone.text.toList)))))) := by
  subst day time
  simp [render]

/-- The fields that are written for an instant denote it. -/
theorem instant?_eq_some (t : Instant) {date : Date} {second : Nat} (valid : date.isValid)
    (day : date.dayNumber = t.second / 86400) (time : (second : Int) = t.second % 86400) :
    Reading.instant? ⟨date, second / 3600, second / 60 % 60, second % 60 + if t.isLeap then 1 else 0,
      t.nanos % 1000000000, 0⟩ = some t := by
  have nanos_lt := t.nanos_lt
  have leap_ends_minute := t.leap_ends_minute
  have in_range : (date.isValid && second / 3600 < 24 && second / 60 % 60 < 60 &&
      (second % 60 + if t.isLeap then 1 else 0) ≤ 60) = true := by
    simp only [valid, Bool.true_and, Bool.and_eq_true, decide_eq_true_eq]
    refine ⟨⟨by omega, by omega⟩, ?_⟩
    split <;> omega
  have fields : (if (second % 60 + if t.isLeap then 1 else 0) = 60 then (59, t.nanos % 1000000000 + 1000000000)
      else (second % 60 + if t.isLeap then 1 else 0, t.nanos % 1000000000)) = (second % 60, t.nanos) := by
    by_cases leap : t.isLeap
    · have late : 1000000000 ≤ t.nanos := by simpa [Instant.isLeap] using leap
      have minute_end := leap_ends_minute late
      have last : second % 60 = 59 := by omega
      have nanos : t.nanos % 1000000000 + 1000000000 = t.nanos := by omega
      simp [leap, last, nanos]
    · have early : t.nanos < 1000000000 := by simpa [Instant.isLeap] using leap
      have regular : second % 60 ≠ 60 := by omega
      simp [leap, regular, Nat.mod_eq_of_lt early]
  have place : t.second / 86400 * 86400 + (second / 3600 : Nat) * 3600 + (second / 60 % 60 : Nat) * 60 +
      (second % 60 : Nat) = t.second := by omega
  rw [Reading.instant?, if_pos in_range, day]
  simp only [fields, place, make?_self, Option.bind_eq_bind, Option.bind_some, Int.zero_mul, Int.sub_zero]

/-- Every instant is read back from its text. -/
theorem read?_render (zone : Zone) (t : Instant) : read? (render zone t) = some t := by
  obtain ⟨date, day⟩ : ∃ date, date = Date.ofDayNumber (t.second / 86400) := ⟨_, rfl⟩
  obtain ⟨second, time⟩ : ∃ second, second = t.secondOfDay.toNat := ⟨_, rfl⟩
  have valid : date.isValid := day ▸ isValid_ofDayNumber _
  have number : date.dayNumber = t.second / 86400 := day ▸ dayNumber_ofDayNumber _
  have second_eq : (second : Int) = t.second % 86400 := by
    rw [time, Instant.secondOfDay]
    omega
  have days : date.month < 100 ∧ date.day < 100 := by
    simp only [Date.isValid, Bool.and_eq_true, decide_eq_true_eq] at valid
    have short := daysInMonth_le date.year date.month
    omega
  have last : (second % 60 + if t.isLeap then 1 else 0) < 100 := by split <;> omega
  rw [read?, toList_render zone t day time,
    readReading?_append zone days ⟨by omega, by omega, last⟩ (Nat.mod_lt _ (by decide)), Option.bind_some]
  exact instant?_eq_some t valid number second_eq

end MetricEngine.Rfc3339
