import MetricEngine.Toml.Printer
import MetricEngine.Toml.Reader
import MetricEngine.Proofs.ListFacts
import MetricEngine.Proofs.Toml.Strings

/-!
Values and keys of TOML documents: integers, booleans and strings are read back from what is written for
them, and bare names from themselves.
-/
namespace MetricEngine.Toml
open Text
variable {rest digits : List Char} {n : Nat}

/-! Integers and booleans. -/

theorem groupedDigits?_digits {isDigit : Char → Bool} (no_group : isDigit '_' = false) (filled : digits ≠ [])
    (all : ∀ c ∈ digits, isDigit c) : groupedDigits? isDigit digits = some digits := by
  induction digits with
  | nil => exact absurd rfl filled
  | cons c rest ih =>
    obtain ⟨first, others⟩ := List.forall_mem_cons.mp all
    cases rest with
    | nil => simp [groupedDigits?, first]
    | cons d rest =>
      have no_mark : d ≠ '_' := by
        rintro rfl
        simp [no_group] at others
      rw [groupedDigits?]
      · simp [first, ih (by simp) others]
      · simp
      · rintro _ same
        exact no_mark (List.cons.inj same).1

theorem hexValue?_digit {c : Char} (digit : c.isDigit) : hexValue? c = some (digitValue c) :=
  if_pos digit

theorem isDigitIn_ten {c : Char} (digit : c.isDigit) : isDigitIn 10 c := by
  have range : 48 ≤ c.toNat ∧ c.toNat ≤ 57 := Char.isDigit_iff_toNat.mp digit
  have zero : '0'.toNat = 48 := rfl
  have small : digitValue c < 10 := by
    rw [digitValue, zero]
    omega
  simp [isDigitIn, hexValue?_digit digit, small]

theorem inBase?_numeral (numeral : Numeral digits n) : inBase? 10 digits = some (n : Int) := by
  have grouped := groupedDigits?_digits (by decide) numeral.ne_nil fun c member =>
    isDigitIn_ten (numeral.isDigit c member)
  have values : digits.mapM hexValue? = some (digits.map digitValue) := by
    rw [ListFacts.mapM_eq_some_iff, List.map_map]
    exact List.map_congr_left fun c member => hexValue?_digit (numeral.isDigit c member)
  have value : (digits.map digitValue).foldl (fun n v => 10 * n + v) 0 = n := by
    rw [List.foldl_map]
    exact numeral.digitsValue_eq
  simp [inBase?, grouped, values, value]

theorem decimal?_toDigits (n : Nat) : decimal? (Nat.toDigits 10 n) = some (n : Int) := by
  unfold decimal?
  split
  next zero => simpa using toDigits_zero_tail n zero
  next => exact inBase?_numeral (numeral_toDigits n)

theorem anyInteger?_toDigits (n : Nat) : anyInteger? (Nat.toDigits 10 n) = some (n : Int) := by
  have digits := (numeral_toDigits n).isDigit
  unfold anyInteger?
  split
  next text => simpa using toDigits_zero_tail n text
  next text => simpa using toDigits_zero_tail n text
  next text => simpa using toDigits_zero_tail n text
  next text => simpa using digits '+' (by simp [text])
  next text => simpa using digits '-' (by simp [text])
  next => exact decimal?_toDigits n

theorem integer?_toString {value : Int} (fits : fitsInt64 value) :
    integer? (toString value).toList = some value := by
  have read : anyInteger? (toString value).toList = some value := by
    obtain ⟨n, ⟨rfl, text⟩ | ⟨_, rfl, text⟩⟩ := exists_toDigits value
    · rw [text, anyInteger?_toDigits]
    · rw [text]
      exact congrArg (Option.map Int.neg) (decimal?_toDigits n)
  rw [integer?, read, Option.filter_some, if_pos fits]

theorem isWordChar_of_mem (value : Int) : ∀ c ∈ (toString value).toList, isWordChar c := by
  intro c member
  rcases minus_or_isDigit_of_mem value c member with rfl | digit
  · decide
  · simp [isWordChar, Char.isAlphanum, digit]

/-- An integer is read up to the end of its line. -/
theorem readScalar?_int {value : Int} (fits : fitsInt64 value) (rest : List Char) :
    readScalar? ((toString value).toList ++ '\n' :: rest) = some (.int value, '\n' :: rest) := by
  have read := integer?_toString fits
  obtain ⟨front, back⟩ :=
    (stopsBefore_cons (by decide : isWordChar '\n' = false)).run (isWordChar_of_mem value)
  have no_word : ∀ word : String, integer? word.toList = none → toString value ≠ word := by
    rintro word unread rfl
    rw [unread] at read
    cases read
  rw [readScalar?, front, back, String.ofList_toList]
  split
  next same => exact absurd same (no_word "true" rfl)
  next same => exact absurd same (no_word "false" rfl)
  next => rw [read]

theorem readScalar?_bool (b : Bool) (rest : List Char) :
    readScalar? ((if b then "true" else "false").toList ++ '\n' :: rest) =
      some (.bool b, '\n' :: rest) := by
  cases b <;> rfl

/-! Values. -/

theorem ne_of_kind {kind : Char → Bool} {c d : Char} (holds : kind c) (fails : kind d = false) : c ≠ d := by
  rintro rfl
  simp [holds] at fails

theorem readValue?_scalar {first : Char} (word : isWordChar first) (fuel levels : Nat) (more : List Char) :
    readValue? (fuel + 1) levels (first :: more) = readScalar? (first :: more) := by
  unfold readValue?
  split
  next same => exact absurd (List.cons.inj same).1 (ne_of_kind word (by decide))
  next same => exact absurd (List.cons.inj same).1 (ne_of_kind word (by decide))
  next same => exact absurd (List.cons.inj same).1 (ne_of_kind word (by decide))
  next same => exact absurd (List.cons.inj same).1 (ne_of_kind word (by decide))
  next => rfl

theorem isSpace_of_isWordChar {c : Char} (word : isWordChar c) : isSpace c = false := by
  have no_blank : c ≠ ' ' := ne_of_kind word (by decide)
  have no_tab : c ≠ '\t' := ne_of_kind word (by decide)
  simp [isSpace, no_blank, no_tab]

/-- A text that starts with no blank and is read as a value, up to the end of its line. -/
structure ReadsAs (value : Json) (text : List Char) : Prop where
  solid : StopsBefore isSpace text
  read : ∀ fuel levels rest,
    readValue? (fuel + 1) levels (text ++ '\n' :: rest) = some (value, '\n' :: rest)

theorem readsAs_word {value : Json} {word : List Char} (filled : word ≠ []) (all : ∀ c ∈ word, isWordChar c)
    (read : ∀ rest, readScalar? (word ++ '\n' :: rest) = some (value, '\n' :: rest)) : ReadsAs value word := by
  obtain ⟨first, more, rfl⟩ := List.exists_cons_of_ne_nil filled
  have first_word : isWordChar first := all first List.mem_cons_self
  refine ⟨stopsBefore_cons (isSpace_of_isWordChar first_word), fun fuel levels rest => ?_⟩
  rw [List.cons_append, readValue?_scalar first_word]
  exact read rest

theorem readsAs_quote (text : String) : ReadsAs (.str text) (quote text).toList := by
  have mark_line : ∀ rest, StopsBefore (fun c => c = '"' || c = '\'') ('\n' :: rest) := fun _ =>
    stopsBefore_cons (by decide)
  constructor
  · obtain ⟨mark, more, kind, shape, _⟩ := readString?_quote text (mark_line [])
    rw [shape]
    rcases kind with rfl | rfl <;> exact stopsBefore_cons (by decide)
  · intro fuel levels rest
    obtain ⟨mark, more, kind, shape, read⟩ := readString?_quote text (mark_line rest)
    rw [shape, List.cons_append]
    rcases kind with rfl | rfl <;> simp [readValue?, read]

/-- Whatever is written for a value is read as the value. -/
theorem readsAs_renderValue? {value : Json} {text : String} (written : renderValue? value = some text) :
    ReadsAs value text.toList := by
  cases value with
  | str s =>
    obtain rfl : quote s = text := by simpa [renderValue?] using written
    exact readsAs_quote s
  | bool b =>
    obtain rfl : (if b then "true" else "false") = text := by simpa [renderValue?] using written
    cases b with
    | false => exact readsAs_word (List.cons_ne_nil _ _) (List.all_eq_true.mp rfl) (readScalar?_bool false)
    | true => exact readsAs_word (List.cons_ne_nil _ _) (List.all_eq_true.mp rfl) (readScalar?_bool true)
  | int n =>
    obtain ⟨fits, rfl⟩ : fitsInt64 n ∧ toString n = text := by simpa [renderValue?] using written
    exact readsAs_word (toList_toString_ne_nil n) (isWordChar_of_mem n) (readScalar?_int fits)
  | null => simp [renderValue?] at written
  | double x => simp [renderValue?] at written
  | arr items => simp [renderValue?] at written
  | obj fields => simp [renderValue?] at written

/-! Keys. -/

/-- Names that stand without quotes. -/
def IsBare (name : String) : Prop :=
  name.toList ≠ [] ∧ ∀ c ∈ name.toList, isBareKey c

instance (name : String) : Decidable (IsBare name) :=
  decidable_of_iff (!name.toList.isEmpty && name.toList.all isBareKey) (by simp [IsBare])

theorem IsBare.exists_cons {name : String} (bare : IsBare name) :
    ∃ first more, name.toList = first :: more ∧ isBareKey first := by
  obtain ⟨first, more, letters⟩ := List.exists_cons_of_ne_nil bare.1
  exact ⟨first, more, letters, bare.2 first (by simp [letters])⟩

theorem IsBare.ne_cons {name : String} (bare : IsBare name) {c : Char} (other : isBareKey c = false)
    (rest more : List Char) : name.toList ++ rest ≠ c :: more := by
  obtain ⟨first, tail, letters, first_bare⟩ := bare.exists_cons
  rw [letters]
  intro same
  exact ne_of_kind first_bare other (List.cons.inj same).1

/-- Neither blanks nor line breaks are part of a bare name. -/
theorem isSpace_of_isBareKey {c : Char} (bare : isBareKey c) : isSpace c = false ∧ isInLine c := by
  have no_blank : c ≠ ' ' := ne_of_kind bare (by decide)
  have no_tab : c ≠ '\t' := ne_of_kind bare (by decide)
  have no_break : c ≠ '\n' := ne_of_kind bare (by decide)
  have no_return : c ≠ '\r' := ne_of_kind bare (by decide)
  simp [isSpace, isInLine, no_blank, no_tab, no_break, no_return]

theorem readSimpleKey?_bare {name : String} (bare : IsBare name) (stops : StopsBefore isBareKey rest) :
    readSimpleKey? (name.toList ++ rest) = some (name, rest) := by
  obtain ⟨front, back⟩ := stops.run bare.2
  unfold readSimpleKey?
  split
  next same => exact absurd same (bare.ne_cons (by decide) _ _)
  next same => exact absurd same (bare.ne_cons (by decide) _ _)
  next => simp [front, back, bare.1]

/-- A bare name is a key of one part. -/
theorem readKey?_bare {name : String} (bare : IsBare name) (stops : StopsBefore isBareKey rest)
    (no_point : StopsBefore (· = '.') (skipSpace rest)) :
    readKey? (name.toList ++ rest) = some ([name], skipSpace rest) := by
  obtain ⟨first, more, letters, first_bare⟩ := bare.exists_cons
  have no_space : skipSpace (name.toList ++ rest) = name.toList ++ rest := by
    rw [letters, List.cons_append]
    exact List.dropWhile_cons_of_neg (by simp [isSpace_of_isBareKey first_bare])
  change readParts? (78 + 1) (name.toList ++ rest) = _
  rw [readParts?, no_space, readSimpleKey?_bare bare stops]
  simp only [Option.bind_eq_bind, Option.bind_some]
  split
  next point => simpa using no_point '.' (by rw [point]; rfl)
  next => rfl

end MetricEngine.Toml
