import MetricEngine.Json.Printer
import MetricEngine.Json.Reader
import MetricEngine.Proofs.Text.WrittenNumbers

/-!
Strings and numbers in JSON texts. A quoted string is read back whatever follows it, and so is an integer of
64 bits. A number is read up to what ends a value.
-/
namespace MetricEngine.Json
open Text
variable {s rest : List Char}

/-! Strings. -/

theorem hexValue?_hexDigit : ∀ n, n < 16 → hexValue? (hexDigit n) = some n := by decide

theorem readUnit?_eq_some {a b c d : Char} {w x y z : Nat} (first : hexValue? a = some w)
    (second : hexValue? b = some x) (third : hexValue? c = some y) (fourth : hexValue? d = some z) :
    readUnit? (a :: b :: c :: d :: rest) = some (w * 4096 + x * 256 + y * 16 + z, rest) := by
  simp [readUnit?, first, second, third, fourth]

/-- A control character in hexadecimal digits. -/
theorem readCodePoint?_control {c : Char} (control : c.toNat < 0x20) :
    readCodePoint? ('0' :: '0' :: hexDigit (c.toNat / 16) :: hexDigit (c.toNat % 16) :: rest) =
      some (c, rest) := by
  have zero : hexValue? '0' = some 0 := rfl
  have unit : readUnit? ('0' :: '0' :: hexDigit (c.toNat / 16) :: hexDigit (c.toNat % 16) :: rest) =
      some (0 * 4096 + 0 * 256 + c.toNat / 16 * 16 + c.toNat % 16, rest) :=
    readUnit?_eq_some zero zero (hexValue?_hexDigit (c.toNat / 16) (by omega))
      (hexValue?_hexDigit (c.toNat % 16) (by omega))
  have value : 0 * 4096 + 0 * 256 + c.toNat / 16 * 16 + c.toNat % 16 = c.toNat := by omega
  have below_surrogates : ¬0xd800 ≤ c.toNat ∧ ¬0xdc00 ≤ c.toNat := by omega
  rw [value] at unit
  simp [readCodePoint?, unit, below_surrogates]

theorem readChars?_escape (fuel : Nat) (collected : List Char) (c : Char) :
    readChars? (fuel + 1) collected (escape c ++ rest) = readChars? fuel (c :: collected) rest := by
  unfold escape
  split
  case h_8 quote backslash _ _ _ _ _ =>
    split
    next control =>
      simp [readChars?, readEscape?, readCodePoint?_control control]
    next plain =>
      have not_quote : c ≠ '"' := quote
      have not_backslash : c ≠ '\\' := backslash
      simp [readChars?, plain]
  all_goals rfl

/-- Characters take up one step each, and the closing quote one more. -/
theorem readChars?_quoted (text : List Char) (fuel : Nat) (collected : List Char)
    (enough : text.length < fuel) :
    readChars? fuel collected (text.flatMap escape ++ '"' :: rest) =
      some (String.ofList (collected.reverse ++ text), rest) := by
  induction text generalizing fuel collected with
  | nil =>
    obtain ⟨fuel, rfl⟩ := Nat.exists_eq_succ_of_ne_zero (Nat.ne_of_gt enough)
    simp [readChars?]
  | cons c text ih =>
    obtain ⟨fuel, rfl⟩ := Nat.exists_eq_succ_of_ne_zero (Nat.ne_zero_of_lt enough)
    rw [List.flatMap_cons, List.append_assoc, Nat.succ_eq_add_one, readChars?_escape,
      ih fuel (c :: collected) (Nat.lt_of_succ_lt_succ enough), List.reverse_cons, List.append_assoc]
    rfl

theorem length_le_flatMap_escape (text : List Char) : text.length ≤ (text.flatMap escape).length := by
  have filled : ∀ c, 1 ≤ (escape c).length := by
    intro c
    unfold escape
    split
    case h_8 => split <;> simp
    all_goals simp
  induction text with
  | nil => simp
  | cons c text ih =>
    rw [List.flatMap_cons, List.length_append, List.length_cons]
    have := filled c
    omega

theorem toList_quote (text : String) :
    (quote text).toList = '"' :: (text.toList.flatMap escape ++ ['"']) := by
  rw [quote, String.toList_ofList]

theorem readString?_quoted (text : String) :
    readString? (text.toList.flatMap escape ++ '"' :: rest) = some (text, rest) := by
  have long := length_le_flatMap_escape text.toList
  rw [readString?, readChars?_quoted _ _ _ (by rw [List.length_append, List.length_cons]; omega)]
  simp

/-! Numbers. -/

/-- What may come behind a value in a compact text. -/
def Ends (rest : List Char) : Prop :=
  ∀ c, rest.head? = some c → c = ',' ∨ c = ']' ∨ c = '\x7d'

theorem ends_cons {c : Char} (mark : c = ',' ∨ c = ']' ∨ c = '\x7d') : Ends (c :: rest) := by
  simpa [Ends] using mark

theorem Ends.stopsBefore_digit (ends : Ends rest) : StopsBefore Char.isDigit rest := by
  intro c first
  rcases ends c first with rfl | rfl | rfl <;> rfl

theorem Ends.head?_ne (ends : Ends rest) (c : Char) (other : c ≠ ',' ∧ c ≠ ']' ∧ c ≠ '\x7d') :
    rest.head? ≠ some c := by
  intro first
  rcases ends c first with rfl | rfl | rfl <;> simp at other

theorem readSign_of_ne (plain : s.head? ≠ some '-') : readSign s = (false, s) := by
  unfold readSign
  split
  next => simp at plain
  next => rfl

theorem readFraction?_of_ne (plain : s.head? ≠ some '.') : readFraction? s = some (none, s) := by
  unfold readFraction?
  split
  next => simp at plain
  next => rfl

theorem readExponent?_of_ne (plain : s.head? ≠ some 'e' ∧ s.head? ≠ some 'E') :
    readExponent? s = some (none, s) := by
  cases s with
  | nil => rfl
  | cons c s =>
    have no_mark : ¬(c = 'e' ∨ c = 'E') := by simpa [not_or] using plain
    simp [readExponent?, no_mark]

theorem readSign_append (ends : Ends rest) (s : List Char) :
    readSign (s ++ rest) = ((readSign s).1, (readSign s).2 ++ rest) := by
  cases s with
  | nil => rw [List.nil_append, readSign_of_ne (ends.head?_ne '-' (by decide))]; rfl
  | cons c s =>
    by_cases minus : c = '-'
    · subst minus
      rfl
    · rw [List.cons_append, readSign_of_ne (by simpa using minus), readSign_of_ne (by simpa using minus),
        List.cons_append]

theorem readFraction?_append (ends : Ends rest) (s : List Char) :
    readFraction? (s ++ rest) = (readFraction? s).map fun read => (read.1, read.2 ++ rest) := by
  cases s with
  | nil => rw [List.nil_append, readFraction?_of_ne (ends.head?_ne '.' (by decide))]; rfl
  | cons c s =>
    by_cases point : c = '.'
    · subst point
      simp only [List.cons_append, readFraction?, ends.stopsBefore_digit.takeWhile_append,
        ends.stopsBefore_digit.dropWhile_append]
      split <;> rfl
    · rw [List.cons_append, readFraction?_of_ne (by simpa using point),
        readFraction?_of_ne (by simpa using point)]
      rfl

theorem readExponentSign_of_ne (plain : s.head? ≠ some '-' ∧ s.head? ≠ some '+') :
    readExponentSign s = (1, s) := by
  unfold readExponentSign
  split
  next => simp at plain
  next => simp at plain
  next => rfl

theorem readExponentSign_append (ends : Ends rest) (s : List Char) :
    readExponentSign (s ++ rest) = ((readExponentSign s).1, (readExponentSign s).2 ++ rest) := by
  cases s with
  | nil =>
    rw [List.nil_append,
      readExponentSign_of_ne ⟨ends.head?_ne '-' (by decide), ends.head?_ne '+' (by decide)⟩]
    rfl
  | cons c s =>
    by_cases signed : c = '-' ∨ c = '+'
    · rcases signed with rfl | rfl <;> rfl
    · rw [List.cons_append, readExponentSign_of_ne (by simpa [not_or] using signed),
        readExponentSign_of_ne (by simpa [not_or] using signed), List.cons_append]

theorem readExponent?_append (ends : Ends rest) (s : List Char) :
    readExponent? (s ++ rest) = (readExponent? s).map fun read => (read.1, read.2 ++ rest) := by
  cases s with
  | nil =>
    rw [List.nil_append, readExponent?_of_ne ⟨ends.head?_ne 'e' (by decide), ends.head?_ne 'E' (by decide)⟩]
    rfl
  | cons mark s =>
    by_cases is_mark : mark = 'e' ∨ mark = 'E'
    · simp only [List.cons_append, readExponent?, readExponentSign_append ends,
        ends.stopsBefore_digit.takeWhile_append, ends.stopsBefore_digit.dropWhile_append,
        decide_eq_true_eq, Bool.or_eq_true, is_mark, if_true]
      split <;> rfl
    · rw [List.cons_append, readExponent?_of_ne (by simpa [not_or] using is_mark),
        readExponent?_of_ne (by simpa [not_or] using is_mark)]
      rfl

/-- What ends a value ends a number in it. -/
theorem readNumber?_append (ends : Ends rest) (s : List Char) :
    readNumber? (s ++ rest) = (readNumber? s).map fun read => (read.1, read.2 ++ rest) := by
  simp only [readNumber?, readSign_append ends, ends.stopsBefore_digit.takeWhile_append,
    ends.stopsBefore_digit.dropWhile_append, readFraction?_append ends]
  split
  next => rfl
  next =>
    cases readFraction? ((readSign s).2.dropWhile Char.isDigit) with
    | none => rfl
    | some fraction =>
      simp only [Option.map_some, Option.bind_eq_bind, Option.bind_some, readExponent?_append ends,
        Option.pure_def]
      cases readExponent? fraction.2 with
      | none => rfl
      | some exponent =>
        simp only [Option.map_some, Option.bind_some]
        cases numberValue? (readSign s).1 ((readSign s).2.takeWhile Char.isDigit) fraction.1 exponent.1 <;> rfl

theorem readNumber?_toDigits (n : Nat) {negative : Bool} {s : List Char}
    (sign : readSign s = (negative, Nat.toDigits 10 n)) :
    readNumber? s =
      (numberValue? negative (Nat.toDigits 10 n) none none).map fun value => (value, []) := by
  have run := (stopsBefore_nil (p := Char.isDigit)).run (numeral_toDigits n).isDigit
  rw [List.append_nil] at run
  have no_zero : ((Nat.toDigits 10 n).isEmpty ||
      ((Nat.toDigits 10 n).length != 1 && (Nat.toDigits 10 n).head? == some '0')) = false := by
    have filled := (numeral_toDigits n).ne_nil
    have zero : (Nat.toDigits 10 n).head? = some '0' → (Nat.toDigits 10 n).length = 1 := by
      intro first
      obtain rfl := toDigits_head? n first
      rfl
    simp only [Bool.or_eq_false_iff, List.isEmpty_eq_false_iff, Bool.and_eq_false_iff, bne_eq_false_iff_eq,
      beq_eq_false_iff_ne]
    exact ⟨filled, or_iff_not_imp_right.mpr fun first => zero (not_not.mp first)⟩
  simp only [readNumber?, sign, run.1, run.2, no_zero, Bool.false_eq_true, if_false,
    readFraction?_of_ne (s := []) (by simp), readExponent?_of_ne (s := []) (by simp), Option.bind_eq_bind,
    Option.bind_some, Option.pure_def]
  cases numberValue? negative (Nat.toDigits 10 n) none none <;> rfl

/-- An integer of 64 bits, with or without a sign, is read as itself. -/
theorem readNumber?_int {value : Int} (least : int64Min ≤ value) (most : value ≤ uint64Max) :
    readNumber? (toString value).toList = some (.int value, []) := by
  obtain ⟨n, ⟨rfl, text⟩ | ⟨positive, rfl, text⟩⟩ := exists_toDigits value
  · have no_minus : (Nat.toDigits 10 n).head? ≠ some '-' := by
      obtain ⟨first, rest, digits, digit⟩ := (numeral_toDigits n).exists_cons
      rw [digits]
      rintro ⟨⟩
      simp at digit
    rw [text, readNumber?_toDigits n (readSign_of_ne no_minus)]
    simp [numberValue?, (numeral_toDigits n).digitsValue_eq, most]
  · have fits : 0 < n ∧ (n : Int) ≤ -int64Min := ⟨positive, by omega⟩
    have sign : readSign ('-' :: Nat.toDigits 10 n) = (true, Nat.toDigits 10 n) := rfl
    rw [text, readNumber?_toDigits n sign]
    simp [numberValue?, (numeral_toDigits n).digitsValue_eq, fits]

end MetricEngine.Json
