import Mathlib.Algebra.Group.Nat.Defs
import MetricEngine.Proofs.Text.Numerals

/-!
Numbers as they are written. Their digits denote them, without a leading zero or padded to some width, and a
run of digits is found again whatever follows it.
-/
namespace MetricEngine.Text
variable {front rest s : List Char} {p : Char → Bool} {n : Nat}

/-! Where a run of characters ends. -/

/-- A text does not go on with a character of some kind. -/
def StopsBefore (p : Char → Bool) (rest : List Char) : Prop :=
  ∀ c ∈ rest.head?, p c = false

theorem stopsBefore_nil : StopsBefore p [] := by simp [StopsBefore]

theorem stopsBefore_cons {c : Char} (other : p c = false) : StopsBefore p (c :: rest) := by
  simpa [StopsBefore] using other

theorem StopsBefore.append (front_stops : StopsBefore p front) (stops : StopsBefore p rest) :
    StopsBefore p (front ++ rest) := by
  cases front with
  | nil => exact stops
  | cons c front => exact stopsBefore_cons (front_stops c rfl)

theorem StopsBefore.take (stops : StopsBefore p rest) (n : Nat) : StopsBefore p (rest.take n) := by
  cases n with
  | zero => exact stopsBefore_nil
  | succ n =>
    cases rest with
    | nil => exact stopsBefore_nil
    | cons c rest => exact stopsBefore_cons (stops c rfl)

theorem StopsBefore.takeWhile_eq_nil (stops : StopsBefore p rest) : rest.takeWhile p = [] := by
  cases rest with
  | nil => rfl
  | cons c rest => rw [List.takeWhile_cons_of_neg]; simpa using stops c rfl

theorem StopsBefore.dropWhile_eq_self (stops : StopsBefore p rest) : rest.dropWhile p = rest := by
  cases rest with
  | nil => rfl
  | cons c rest => rw [List.dropWhile_cons_of_neg]; simpa using stops c rfl

theorem StopsBefore.takeWhile_append (stops : StopsBefore p rest) (front : List Char) :
    (front ++ rest).takeWhile p = front.takeWhile p := by
  induction front with
  | nil => rw [List.nil_append, stops.takeWhile_eq_nil, List.takeWhile_nil]
  | cons c front ih => simp only [List.cons_append, List.takeWhile_cons, ih]

theorem StopsBefore.dropWhile_append (stops : StopsBefore p rest) (front : List Char) :
    (front ++ rest).dropWhile p = front.dropWhile p ++ rest := by
  induction front with
  | nil => rw [List.nil_append, stops.dropWhile_eq_self, List.dropWhile_nil, List.nil_append]
  | cons c front ih =>
    simp only [List.cons_append, List.dropWhile_cons, ih]
    split <;> rfl

/-- What is left of a run is what follows it. -/
theorem StopsBefore.run (stops : StopsBefore p rest) (all : ∀ c ∈ front, p c) :
    (front ++ rest).takeWhile p = front ∧ (front ++ rest).dropWhile p = rest := by
  rw [List.takeWhile_append_of_pos all, List.dropWhile_append_of_pos all, stops.takeWhile_eq_nil,
    stops.dropWhile_eq_self, List.append_nil]
  exact ⟨rfl, rfl⟩

/-! Decimal digits. -/

theorem toList_toString (n : Nat) : (toString n).toList = Nat.toDigits 10 n := by
  rw [Nat.toString_eq_ofList_toDigits, String.toList_ofList]

theorem numeral_toDigits (n : Nat) : Numeral (Nat.toDigits 10 n) n := by
  have numeral := Numeral.of_isDigit (Nat.toDigits_ne_nil (n := n) (b := 10))
    fun c member => Nat.isDigit_of_mem_toDigits (by decide) (by decide) member
  have value : digitsValue (Nat.toDigits 10 n) = Nat.ofDigitChars 10 (Nat.toDigits 10 n) 0 :=
    Nat.ofDigitChars_eq_foldl.symm
  rwa [value, Nat.ofDigitChars_ten_toDigits] at numeral

/-- An integer is written as its digits, behind a minus sign if it is negative. -/
theorem exists_toDigits (value : Int) : ∃ n : Nat,
    value = n ∧ (toString value).toList = Nat.toDigits 10 n ∨
    0 < n ∧ value = -(n : Int) ∧ (toString value).toList = '-' :: Nat.toDigits 10 n := by
  cases value with
  | ofNat n => exact ⟨n, .inl ⟨rfl, toList_toString n⟩⟩
  | negSucc n =>
    refine ⟨n + 1, .inr ⟨Nat.succ_pos n, rfl, ?_⟩⟩
    change ("-" ++ toString (n + 1)).toList = _
    rw [String.toList_append, toList_toString]
    rfl

theorem toList_toString_ne_nil (value : Int) : (toString value).toList ≠ [] := by
  obtain ⟨n, ⟨_, text⟩ | ⟨_, _, text⟩⟩ := exists_toDigits value
  · exact text ▸ (numeral_toDigits n).ne_nil
  · rw [text]
    exact List.cons_ne_nil _ _

theorem minus_or_isDigit_of_mem (value : Int) : ∀ c ∈ (toString value).toList, c = '-' ∨ c.isDigit := by
  intro c member
  obtain ⟨n, ⟨_, text⟩ | ⟨_, _, text⟩⟩ := exists_toDigits value
  · exact .inr ((numeral_toDigits n).isDigit c (text ▸ member))
  · rw [text, List.mem_cons] at member
    exact member.imp_right ((numeral_toDigits n).isDigit c)

/-- No number but zero is written with a leading zero. -/
theorem toDigits_head? (n : Nat) : (Nat.toDigits 10 n).head? = some '0' → n = 0 := by
  induction n using Nat.strongRecOn with
  | ind n ih =>
    rw [Nat.toDigits_eq_if (by decide)]
    split
    next small =>
      intro zero
      have values : ∀ m, m < 10 → m.digitChar = '0' → m = 0 := by decide
      exact values n small (by simpa using zero)
    next large =>
      intro zero
      obtain ⟨first, rest, front⟩ :=
        List.exists_cons_of_ne_nil (Nat.toDigits_ne_nil (n := n / 10) (b := 10))
      have := ih (n / 10) (by omega) (by simpa [front] using zero)
      omega

theorem toDigits_zero_tail (n : Nat) {tail : List Char} (digits : Nat.toDigits 10 n = '0' :: tail) :
    tail = [] := by
  obtain rfl := toDigits_head? n (by rw [digits]; rfl)
  simpa using digits.symm

theorem digitsValue_zeros (k : Nat) (digits : List Char) :
    digitsValue (List.replicate k '0' ++ digits) = digitsValue digits := by
  induction k with
  | zero => rfl
  | succ k ih =>
    rw [List.replicate_succ, List.cons_append]
    exact ih

/-- Zeros in front of a numeral do not count. -/
theorem Numeral.zeros {digits : List Char} (numeral : Numeral digits n) (k : Nat) :
    Numeral (List.replicate k '0' ++ digits) n := by
  rw [← numeral.digitsValue_eq, ← digitsValue_zeros k]
  refine .of_isDigit (by simp [numeral.ne_nil]) fun c member => ?_
  rcases List.mem_append.mp member with zero | digit
  · rw [List.eq_of_mem_replicate zero]
    rfl
  · exact numeral.isDigit c digit

theorem toList_padded (width n : Nat) :
    (padded width n).toList =
      List.replicate (width - (Nat.toDigits 10 n).length) '0' ++ Nat.toDigits 10 n := by
  rw [padded, String.toList_append, String.toList_ofList, toList_toString, ← toList_toString,
    String.length_toList]

theorem numeral_padded (width n : Nat) : Numeral (padded width n).toList n := by
  rw [toList_padded]
  exact (numeral_toDigits n).zeros _

theorem length_padded {width n : Nat} (positive : 0 < width) (fits : n < 10 ^ width) :
    (padded width n).toList.length = width := by
  have short := (Nat.length_toDigits_le_iff (b := 10) (by decide) positive).mpr fits
  rw [toList_padded, List.length_append, List.length_replicate]
  omega

end MetricEngine.Text
