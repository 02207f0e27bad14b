import MetricEngine.Text.Blank
import MetricEngine.Text.Integer
import Mathlib.Data.List.Induction

/-!
Texts with blanks around them, and decimal numerals with or without a sign. Readers trim exactly the blanks
around a text without any, and read exactly the numerals that fit 64 bits, with the number that the digits
denote.
-/
namespace MetricEngine.Text
variable {text body before after s digits : List Char} {c : Char} {n : Nat} {value : Int}

/-! Blanks. -/

/-- A text is some other one with blanks on either side. -/
def Padded (text body : List Char) : Prop :=
  ∃ before after, text = before ++ body ++ after ∧ (∀ c ∈ before, isBlank c) ∧ ∀ c ∈ after, isBlank c

theorem exists_append_trimStart (s : List Char) :
    ∃ before, s = before ++ trimStart s ∧ ∀ c ∈ before, isBlank c := by
  refine ⟨s.takeWhile isBlank, List.takeWhile_append_dropWhile.symm, ?_⟩
  intro c member
  exact List.all_eq_true.mp List.all_takeWhile c member

theorem padded_trim (text : List Char) : Padded text (trim text) := by
  obtain ⟨before, front, before_blank⟩ := exists_append_trimStart text
  obtain ⟨after, back, after_blank⟩ := exists_append_trimStart (trimStart text).reverse
  refine ⟨before, after.reverse, ?_, before_blank, fun c member => after_blank c (by simpa using member)⟩
  have kept : trimStart text = trim text ++ after.reverse := by
    rw [trim, ← List.reverse_append, ← back, List.reverse_reverse]
  rw [List.append_assoc, ← kept, ← front]

theorem trimStart_append (blank : ∀ c ∈ before, isBlank c) (solid : ¬isBlank c) :
    trimStart (before ++ c :: after) = c :: after := by
  rw [trimStart, List.dropWhile_append_of_pos blank, List.dropWhile_cons_of_neg solid]

/-- Nothing but the blanks around a text without blanks is trimmed. -/
theorem Padded.trim_eq (padded : Padded text body) (filled : body ≠ []) (solid : ∀ c ∈ body, ¬isBlank c) :
    trim text = body := by
  obtain ⟨before, after, rfl, before_blank, after_blank⟩ := padded
  obtain ⟨first, more, rfl⟩ := List.exists_cons_of_ne_nil filled
  obtain ⟨front, last, split⟩ := (List.eq_nil_or_concat (first :: more)).resolve_left filled
  have front_trimmed : trimStart (before ++ (first :: more) ++ after) = front ++ [last] ++ after := by
    rw [← List.concat_eq_append, ← split, List.append_assoc, List.cons_append]
    exact trimStart_append before_blank (solid first List.mem_cons_self)
  have last_solid : ¬isBlank last := solid last (by simp [split])
  have back_blank : ∀ c ∈ after.reverse, isBlank c := fun c member => after_blank c (by simpa using member)
  have reversed : (front ++ [last] ++ after).reverse = after.reverse ++ last :: front.reverse := by simp
  rw [trim, front_trimmed, reversed, trimStart_append back_blank last_solid, split]
  simp

theorem toNat_of_isBlank (blank : isBlank c) :
    ¬(65 ≤ c.toNat ∧ c.toNat ≤ 90) ∧ ¬(97 ≤ c.toNat ∧ c.toNat ≤ 122) := by
  simp only [isBlank, Bool.or_eq_true, Bool.and_eq_true, decide_eq_true_eq, beq_iff_eq] at blank
  omega

theorem toUpper_of_isBlank (blank : isBlank c) : c.toUpper = c :=
  dif_neg (toNat_of_isBlank blank).2

theorem toLower_of_isBlank (blank : isBlank c) : c.toLower = c :=
  dif_neg (toNat_of_isBlank blank).1

theorem not_isBlank_of_isDigit (digit : c.isDigit) : ¬isBlank c := by
  have range : 48 ≤ c.toNat ∧ c.toNat ≤ 57 := Char.isDigit_iff_toNat.mp digit
  simp only [isBlank, Bool.or_eq_true, Bool.and_eq_true, decide_eq_true_eq, beq_iff_eq]
  omega

theorem toLower_of_isDigit (digit : c.isDigit) : c.toLower = c := by
  have range : 48 ≤ c.toNat ∧ c.toNat ≤ 57 := Char.isDigit_iff_toNat.mp digit
  refine dif_neg fun letter => ?_
  have letter : 65 ≤ c.toNat ∧ c.toNat ≤ 90 := letter
  omega

/-! Numerals. -/

/-- Decimal digits and the number that they denote. -/
inductive Numeral : List Char → Nat → Prop where
  | digit {c : Char} : c.isDigit → Numeral [c] (digitValue c)
  | more {digits : List Char} {n : Nat} {c : Char} : Numeral digits n → c.isDigit →
      Numeral (digits ++ [c]) (10 * n + digitValue c)

namespace Numeral

theorem ne_nil (numeral : Numeral digits n) : digits ≠ [] := by
  cases numeral <;> simp

theorem isDigit (numeral : Numeral digits n) : ∀ c ∈ digits, c.isDigit := by
  induction numeral with
  | digit is_digit => simpa using is_digit
  | more _ is_digit ih =>
    intro c member
    rcases List.mem_append.mp member with before | last
    · exact ih c before
    · exact List.mem_singleton.mp last ▸ is_digit

theorem digitsValue_eq (numeral : Numeral digits n) : digitsValue digits = n := by
  induction numeral with
  | digit => simp [digitsValue]
  | more _ _ ih =>
    rw [digitsValue] at ih
    simp [digitsValue, ih]

theorem exists_cons (numeral : Numeral digits n) :
    ∃ first rest, digits = first :: rest ∧ first.isDigit := by
  obtain ⟨first, rest, rfl⟩ := List.exists_cons_of_ne_nil numeral.ne_nil
  exact ⟨first, rest, rfl, numeral.isDigit first List.mem_cons_self⟩

theorem of_isDigit (filled : digits ≠ []) (all : ∀ c ∈ digits, c.isDigit) :
    Numeral digits (digitsValue digits) := by
  induction digits using List.reverseRecOn with
  | nil => exact absurd rfl filled
  | append_singleton front last ih =>
    have is_digit : last.isDigit := all last (by simp)
    by_cases only : front = []
    · subst only
      simpa [digitsValue] using digit is_digit
    · have before := ih only fun c member => all c (List.mem_append_left _ member)
      have value : digitsValue (front ++ [last]) = 10 * digitsValue front + digitValue last := by
        simp [digitsValue]
      exact value ▸ before.more is_digit

end Numeral

theorem readDigits?_eq_some_iff : readDigits? s = some n ↔ Numeral s n := by
  rw [readDigits?]
  constructor
  · intro read
    split at read
    next digits =>
      simp only [Bool.and_eq_true, Bool.not_eq_true', List.isEmpty_eq_false_iff,
        List.all_eq_true] at digits
      exact Option.some.inj read ▸ .of_isDigit digits.1 digits.2
    next => simp at read
  · intro numeral
    have digits : (!s.isEmpty && s.all Char.isDigit) = true := by
      simp only [Bool.and_eq_true, Bool.not_eq_true', List.isEmpty_eq_false_iff, List.all_eq_true]
      exact ⟨numeral.ne_nil, numeral.isDigit⟩
    rw [if_pos digits, numeral.digitsValue_eq]

/-- A numeral that may have a sign in front. -/
inductive SignedNumeral : List Char → Int → Prop where
  | plain {digits : List Char} {n : Nat} : Numeral digits n → SignedNumeral digits n
  | plus {digits : List Char} {n : Nat} : Numeral digits n → SignedNumeral ('+' :: digits) n
  | minus {digits : List Char} {n : Nat} : Numeral digits n → SignedNumeral ('-' :: digits) (-n)

theorem SignedNumeral.exists_cons (signed : SignedNumeral s value) :
    ∃ first rest, s = first :: rest ∧ (first.isDigit ∨ first = '+' ∨ first = '-') := by
  cases signed with
  | plain numeral =>
    obtain ⟨first, rest, rfl, digit⟩ := numeral.exists_cons
    exact ⟨first, rest, rfl, .inl digit⟩
  | plus => exact ⟨'+', _, rfl, .inr (.inl rfl)⟩
  | minus => exact ⟨'-', _, rfl, .inr (.inr rfl)⟩

theorem SignedNumeral.not_isBlank (signed : SignedNumeral s value) (member : c ∈ s) : ¬isBlank c := by
  cases signed with
  | plain numeral => exact not_isBlank_of_isDigit (numeral.isDigit c member)
  | plus numeral =>
    rcases List.mem_cons.mp member with rfl | digit
    · decide
    · exact not_isBlank_of_isDigit (numeral.isDigit c digit)
  | minus numeral =>
    rcases List.mem_cons.mp member with rfl | digit
    · decide
    · exact not_isBlank_of_isDigit (numeral.isDigit c digit)

/-- One that starts with a digit has no sign. -/
theorem SignedNumeral.exists_numeral (signed : SignedNumeral s value) {first : Char}
    (head : s.head? = some first) (digit : first.isDigit) : ∃ n : Nat, value = n ∧ Numeral s n := by
  cases signed with
  | plain numeral => exact ⟨_, rfl, numeral⟩
  | plus =>
    obtain rfl := Option.some.inj head
    simp at digit
  | minus =>
    obtain rfl := Option.some.inj head
    simp at digit

theorem fitsInt64_natCast : fitsInt64 (n : Int) ↔ (n : Int) ≤ int64Max := by
  have least : int64Min ≤ (n : Int) := Int.le_trans (by decide) (Int.natCast_nonneg n)
  simp [fitsInt64, least]

theorem readInt64?_eq_some_iff : readInt64? s = some value ↔ SignedNumeral s value ∧ fitsInt64 value := by
  unfold readInt64?
  rw [Option.filter_eq_some_iff]
  apply and_congr_left
  intro _
  constructor
  · intro read
    split at read
    next digits =>
      cases found : readDigits? digits with
      | none => simp [found] at read
      | some n =>
        obtain rfl : -(n : Int) = value := by simpa [found] using read
        exact .minus (readDigits?_eq_some_iff.mp found)
    next =>
      obtain ⟨n, found, rfl⟩ := Option.map_eq_some_iff.mp read
      exact .plus (readDigits?_eq_some_iff.mp found)
    next =>
      obtain ⟨n, found, rfl⟩ := Option.map_eq_some_iff.mp read
      exact .plain (readDigits?_eq_some_iff.mp found)
  · intro numeral
    cases numeral with
    | plus numeral => simp [readDigits?_eq_some_iff.mpr numeral]
    | minus numeral => simp [readDigits?_eq_some_iff.mpr numeral]
    | plain numeral =>
      -- A numeral without a sign starts with a digit.
      obtain ⟨first, rest, rfl, is_digit⟩ := numeral.exists_cons
      split
      next same =>
        obtain ⟨rfl, _⟩ := List.cons.inj same
        simp at is_digit
      next same =>
        obtain ⟨rfl, _⟩ := List.cons.inj same
        simp at is_digit
      next => simp [readDigits?_eq_some_iff.mpr numeral]

end MetricEngine.Text
