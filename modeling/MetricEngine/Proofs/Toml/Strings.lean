import MetricEngine.Toml.Printer
import MetricEngine.Toml.Quoted
import MetricEngine.Proofs.Text.WrittenNumbers

/-!
Strings of TOML documents. Whatever form a string is written in, it is read back: the four forms share one
grammar of bodies, in which marks stand alone only as far as they do not close the string.
-/
namespace MetricEngine.Toml
open Text
variable {form : Form} {c : Char} {code s body rest : List Char} {marks fuel : Nat}

namespace Form

/-- How strings of a form are read. -/
def quoting (form : Form) : Quoting :=
  ⟨form.mark, !form.literal, form.multiline⟩

/-- What stands before and behind a body. -/
def run (form : Form) : List Char :=
  List.replicate (if form.multiline then 3 else 1) form.mark

end Form

/-- The writing of one character: itself, a line break, or a backslash and a code. -/
inductive Piece (form : Form) : Char → List Char → Prop where
  | plain {c : Char} : c ≠ form.mark → (form.literal ∨ c ≠ '\\') → isForbidden c = false → Piece form c [c]
  | lineBreak : form.multiline → Piece form '\n' ['\n']
  | escaped {c first : Char} {code : List Char} : form.literal = false → isSpace first = false →
      isInLine first → (∀ rest, readEscape? (first :: (code ++ rest)) = some (c, rest)) →
      Piece form c ('\\' :: first :: code)

/-- A text and the body of a string that spells it, behind so many plain marks. -/
inductive Body (form : Form) : Nat → List Char → List Char → Prop where
  | nil {marks : Nat} : Body form marks [] []
  | mark {marks : Nat} {s body : List Char} : marks < form.mostMarks → Body form (marks + 1) s body →
      Body form marks (form.mark :: s) (form.mark :: body)
  | piece {marks : Nat} {c : Char} {code s body : List Char} : Piece form c code → Body form 0 s body →
      Body form marks (c :: s) (code ++ body)

theorem mark_ne_backslash (form : Form) : form.mark ≠ '\\' := by
  unfold Form.mark
  split <;> decide

theorem mark_ne_lineBreak (form : Form) : form.mark ≠ '\n' := by
  unfold Form.mark
  split <;> decide

/-- A piece starts with something else than a mark. -/
theorem Piece.exists_cons (piece : Piece form c code) :
    ∃ first more, code = first :: more ∧ first ≠ form.mark := by
  cases piece with
  | plain other => exact ⟨_, _, rfl, other⟩
  | lineBreak => exact ⟨_, _, rfl, (mark_ne_lineBreak form).symm⟩
  | escaped => exact ⟨_, _, rfl, (mark_ne_backslash form).symm⟩

theorem dropBreak?_of_isInLine (in_line : isInLine c) (rest : List Char) : dropBreak? (c :: rest) = none := by
  have no_break : c ≠ '\n' ∧ c ≠ '\r' := by simpa [isInLine] using in_line
  unfold dropBreak?
  split
  next same => exact absurd (List.cons.inj same).1 no_break.1
  next same => exact absurd (List.cons.inj same).1 no_break.2
  next => rfl

theorem isInLine_of_allowed (allowed : isForbidden c = false) : isInLine c := by
  simp only [isInLine, Bool.and_eq_true, decide_eq_true_eq]
  constructor
  · rintro rfl
    simp [isForbidden] at allowed
  · rintro rfl
    simp [isForbidden] at allowed

/-- One character is read from its piece. -/
theorem Piece.readChars? (piece : Piece form c code) (fuel : Nat) (collected : List Char) :
    readChars? form.quoting (fuel + 1) collected (code ++ rest) =
      readChars? form.quoting fuel (c :: collected) rest := by
  cases piece with
  | plain other no_escape allowed =>
    have no_mark : ¬c = form.quoting.mark := other
    have no_break := dropBreak?_of_isInLine (isInLine_of_allowed allowed) rest
    have plain : (c = '\\' && form.quoting.escapes) = false := by
      rcases no_escape with literal | other
      · simp [Form.quoting, literal]
      · simp [other]
    rw [List.singleton_append, Toml.readChars?, if_neg no_mark, plain, no_break]
    simp [allowed]
  | lineBreak multiline =>
    have no_mark : ¬ '\n' = form.quoting.mark := (mark_ne_lineBreak form).symm
    rw [List.singleton_append, Toml.readChars?, if_neg no_mark]
    simp [Form.quoting, multiline, dropBreak?]
  | @escaped _ first code escapes solid in_line read =>
    have no_mark : ¬ '\\' = form.quoting.mark := (mark_ne_backslash form).symm
    have line : skipSpace (first :: (code ++ rest)) = first :: (code ++ rest) :=
      List.dropWhile_cons_of_neg (by simp [solid])
    have no_fold : (form.quoting.multiline && (dropBreak? (first :: (code ++ rest))).isSome) = false := by
      rw [dropBreak?_of_isInLine in_line]
      simp
    rw [List.cons_append, List.cons_append, Toml.readChars?, if_neg no_mark]
    simp only [line, no_fold, read]
    simp [Form.quoting, escapes]

/-! Marks that close a string, and marks that do not. -/

theorem closeRun_replicate (mark : Char) {count : Nat} (few : count ≤ 5)
    (stops : StopsBefore (· = mark) rest) :
    closeRun mark (List.replicate count mark ++ rest) = (count, rest) := by
  have marks : ∀ c ∈ List.replicate count mark, decide (c = mark) := fun c member =>
    decide_eq_true (List.eq_of_mem_replicate member)
  have front : (List.replicate count mark ++ rest).take 5 =
      List.replicate count mark ++ rest.take (5 - count) := by
    rw [List.take_append, List.length_replicate, List.take_of_length_le (by simpa using few)]
  have run : ((List.replicate count mark ++ rest).take 5).takeWhile (· = mark) =
      List.replicate count mark := by
    rw [front, ((stops.take (5 - count)).run marks).1]
  simp only [closeRun, run, List.length_replicate]
  rw [List.drop_left' List.length_replicate]

theorem Form.multiline_of_lt {form : Form} (more : marks < form.mostMarks) :
    form.multiline ∧ ¬3 ≤ marks + 1 := by
  unfold Form.mostMarks at more
  split at more
  next multiline => exact ⟨multiline, by omega⟩
  next => omega

/-- Marks that are too few to close a string are part of it. -/
theorem readChars?_marks (few : marks ≤ form.mostMarks) (fuel : Nat) (collected : List Char)
    (stops : StopsBefore (· = form.mark) rest) :
    readChars? form.quoting (fuel + marks) collected (List.replicate marks form.mark ++ rest) =
      readChars? form.quoting fuel (List.replicate marks form.mark ++ collected) rest := by
  induction marks generalizing collected with
  | zero => rfl
  | succ marks ih =>
    obtain ⟨multiline, short⟩ := form.multiline_of_lt few
    have run : closeRun form.quoting.mark (form.mark :: (List.replicate marks form.mark ++ rest)) =
        (marks + 1, rest) := closeRun_replicate form.mark (show marks + 1 ≤ 5 by omega) stops
    have is_mark : form.mark = form.quoting.mark := rfl
    rw [List.replicate_succ, List.cons_append, ← Nat.add_assoc, Toml.readChars?, if_pos is_mark,
      if_pos (show form.quoting.multiline from multiline)]
    simp only [run, short, if_false]
    rw [ih (Nat.le_of_succ_le few), ← List.replicate_succ, List.replicate_succ', List.append_assoc,
      List.singleton_append]

/-- The last marks of a run close the string. -/
theorem readChars?_run (few : marks ≤ form.mostMarks) (fuel : Nat) (collected : List Char)
    (stops : StopsBefore (· = form.mark) rest) :
    readChars? form.quoting (fuel + 1) collected (List.replicate marks form.mark ++ (form.run ++ rest)) =
      some (String.ofList (collected.reverse ++ List.replicate marks form.mark), rest) := by
  by_cases multiline : form.multiline
  · have few : marks ≤ 2 := by simpa [Form.mostMarks, multiline] using few
    have whole : List.replicate marks form.mark ++ (form.run ++ rest) =
        form.mark :: (List.replicate (marks + 2) form.mark ++ rest) := by
      rw [Form.run, if_pos multiline, ← List.append_assoc, List.replicate_append_replicate]
      rfl
    have run := closeRun_replicate form.mark (show marks + 3 ≤ 5 by omega) stops
    have closes : 3 ≤ marks + 3 := by omega
    rw [List.replicate_succ, List.cons_append] at run
    rw [whole, Toml.readChars?]
    simp only [Form.quoting, if_true, multiline, run, closes, Nat.add_sub_cancel]
  · have none : marks = 0 := by simpa [Form.mostMarks, multiline] using few
    subst none
    have whole : List.replicate 0 form.mark ++ (form.run ++ rest) = form.mark :: rest := by
      simp [Form.run, multiline]
    rw [whole, Toml.readChars?]
    simp [Form.quoting, multiline]

/-- A body is read as the text that it spells, with the plain marks before it. -/
theorem Body.readChars? (spells : Body form marks s body) (few : marks ≤ form.mostMarks) (fuel : Nat)
    (collected : List Char) (enough : marks + body.length < fuel) (stops : StopsBefore (· = form.mark) rest) :
    readChars? form.quoting fuel collected
        (List.replicate marks form.mark ++ (body ++ (form.run ++ rest))) =
      some (String.ofList (collected.reverse ++ (List.replicate marks form.mark ++ s)), rest) := by
  induction spells generalizing fuel collected with
  | nil =>
    obtain ⟨fuel, rfl⟩ := Nat.exists_eq_succ_of_ne_zero (Nat.ne_zero_of_lt enough)
    rw [List.nil_append, List.append_nil]
    exact readChars?_run few fuel collected stops
  | @mark marks s body more _ ih =>
    have next := ih more fuel collected (by rw [List.length_cons] at enough; omega)
    simpa only [List.replicate_succ', List.append_assoc, List.cons_append, List.nil_append] using next
  | @piece marks c code s body piece _ ih =>
    obtain ⟨first, more, starts, other⟩ := piece.exists_cons
    have stops_piece : StopsBefore (· = form.mark) (code ++ (body ++ (form.run ++ rest))) := by
      rw [starts]
      exact stopsBefore_cons (by simpa using other)
    obtain ⟨fuel, rfl⟩ : ∃ left, fuel = left + 1 + marks := by
      rw [starts, List.length_append, List.length_cons] at enough
      exact ⟨fuel - 1 - marks, by omega⟩
    have left : 0 + body.length < fuel := by
      rw [starts, List.length_append, List.length_cons] at enough
      omega
    have next := ih (Nat.zero_le _) fuel (c :: (List.replicate marks form.mark ++ collected)) left
    rw [List.append_assoc, readChars?_marks few _ _ stops_piece, piece.readChars?]
    simpa using next

/-! The bodies that are written. -/

theorem isForbidden_of_not_needsEscape (plain : needsEscape c = false) (in_line : c ≠ '\n') :
    isForbidden c = false := by
  simpa [needsEscape, isForbidden, in_line] using plain

theorem hexValue?_hexUpper : ∀ n, n < 16 → hexValue? (hexUpper n) = some n := by decide

/-- A control character in hexadecimal digits. -/
theorem readEscape?_control (control : c.toNat < 0x80) (rest : List Char) :
    readEscape? ('u' :: (['0', '0', hexUpper (c.toNat / 16), hexUpper (c.toNat % 16)] ++ rest)) =
      some (c, rest) := by
  have high := hexValue?_hexUpper (c.toNat / 16) (by omega)
  have low := hexValue?_hexUpper (c.toNat % 16) (by omega)
  have zero : hexValue? '0' = some 0 := rfl
  have value : 16 * (c.toNat / 16) + c.toNat % 16 = c.toNat := by omega
  have valid : c.toNat.isValidChar := c.valid
  simp [readEscape?, hexDigits?, high, low, zero, value, scalarValue?, valid]

theorem toNat_of_needsEscape (control : needsEscape c) : c.toNat < 0x80 := by
  simp only [needsEscape, Bool.or_eq_true, Bool.and_eq_true, decide_eq_true_eq] at control
  omega

/-- A character other than a quote is written as one piece. -/
theorem piece_escape (escapes : form.literal = false) (other : c ≠ '"') :
    Piece form c (escape form.multiline c) := by
  unfold escape
  split
  case h_3 =>
    split
    next multiline => exact .lineBreak multiline
    next => exact .escaped escapes (by decide) (by decide) fun _ => rfl
  case h_7 backspace tab lineBreak feed carriage backslash =>
    split
    next control =>
      exact .escaped escapes (by decide) (by decide) (readEscape?_control (toNat_of_needsEscape control))
    next plain =>
      refine .plain (by simpa [Form.mark, escapes] using other) (.inr backslash) ?_
      exact isForbidden_of_not_needsEscape (by simpa using plain) lineBreak
  all_goals exact .escaped escapes (by decide) (by decide) fun _ => rfl

theorem body_escapeAll (escapes : form.literal = false) (s : List Char) (marks : Nat) :
    Body form marks s (escapeAll form marks s) := by
  induction s generalizing marks with
  | nil => exact .nil
  | cons c s ih =>
    rw [escapeAll]
    split
    next quote =>
      subst quote
      split
      next room =>
        have mark : form.mark = '"' := by simp [Form.mark, escapes]
        have step := Body.mark room (ih (marks + 1))
        rwa [mark] at step
      next full =>
        have quote : Piece form '"' ['\\', '"'] :=
          .escaped escapes (by decide) (by decide) fun _ => rfl
        exact .piece quote (ih 0)
    next other => exact .piece (piece_escape escapes other) (ih 0)

/-- The state of the search for the longest run of marks: the current run and the longest one so far. -/
def runStep (mark : Char) (state : Nat × Nat) (c : Char) : Nat × Nat :=
  if c = mark then (state.1 + 1, Nat.max state.2 (state.1 + 1)) else (0, state.2)

theorem longestRun_eq (mark : Char) (s : List Char) :
    longestRun mark s = (s.foldl (runStep mark) (0, 0)).2 := rfl

theorem le_foldl_runStep (mark : Char) (s : List Char) (state : Nat × Nat) :
    state.2 ≤ (s.foldl (runStep mark) state).2 := by
  induction s generalizing state with
  | nil => exact Nat.le_refl _
  | cons c s ih =>
    refine Nat.le_trans ?_ (ih (runStep mark state c))
    unfold runStep
    split
    · exact Nat.le_max_left _ _
    · exact Nat.le_refl _

/-- A literal string holds characters that need no escape and runs of marks that are short enough. -/
theorem body_literal (literal : form.literal) (plain : ∀ c ∈ s, needsEscape c = false)
    (lines : form.multiline ∨ '\n' ∉ s) {longest : Nat}
    (short : (s.foldl (runStep form.mark) (marks, longest)).2 ≤ form.mostMarks) : Body form marks s s := by
  induction s generalizing marks longest with
  | nil => exact .nil
  | cons c s ih =>
    obtain ⟨first, others⟩ := List.forall_mem_cons.mp plain
    have lines_rest : form.multiline ∨ '\n' ∉ s := lines.imp_right fun one => by simp_all
    rw [List.foldl_cons] at short
    by_cases mark : c = form.mark
    · subst mark
      have step : runStep form.mark (marks, longest) form.mark =
          (marks + 1, Nat.max longest (marks + 1)) := if_pos rfl
      rw [step] at short
      have reached : Nat.max longest (marks + 1) ≤ form.mostMarks :=
        Nat.le_trans (le_foldl_runStep form.mark s (marks + 1, Nat.max longest (marks + 1))) short
      have room : marks < form.mostMarks := Nat.le_trans (Nat.le_max_right longest (marks + 1)) reached
      exact .mark room (ih others lines_rest short)
    · have step : runStep form.mark (marks, longest) c = (0, longest) := if_neg mark
      rw [step] at short
      have rest := ih others lines_rest short
      by_cases line_break : c = '\n'
      · subst line_break
        exact .piece (.lineBreak (lines.resolve_right fun one => one List.mem_cons_self)) rest
      · exact .piece (.plain mark (.inl literal) (isForbidden_of_not_needsEscape first line_break)) rest

/-- The form that is chosen shows the text as it is, or has escapes. -/
theorem formOf_fits (s : List Char) : (formOf s).fits s ∨ (formOf s).literal = false := by
  unfold formOf
  cases found : forms.find? (·.fits s) with
  | none => exact .inr rfl
  | some form =>
    have fits : form.fits s := by simpa using List.find?_some found
    exact .inl fits

/-- What is written between the marks spells the text. -/
theorem body_formOf (s : List Char) :
    Body (formOf s) 0 s (if (formOf s).literal then s else escapeAll (formOf s) 0 s) := by
  generalize chosen : formOf s = form
  split
  next literal =>
    have fits : form.fits s := by
      rcases formOf_fits s with fits | escapes
      · exact chosen ▸ fits
      · simp [chosen, literal] at escapes
    simp only [Form.fits, Bool.and_eq_true, Bool.or_eq_true, Bool.not_eq_true', List.any_eq_false,
      decide_eq_true_eq] at fits
    obtain ⟨⟨⟨plain, short⟩, lines⟩, _⟩ := fits
    rw [longestRun_eq] at short
    exact body_literal literal (by simpa using plain) (by simpa using lines) short
  next escapes => exact body_escapeAll (by simpa using escapes) s 0

/-! Whole strings. -/

/-- How the reader of a string takes its opening mark. -/
theorem quoting_eq (form : Form) : form.quoting = ⟨form.mark, form.mark = '"', form.multiline⟩ := by
  cases form with
  | mk literal multiline => cases literal <;> rfl

theorem Body.head_ne {first : Char} {more : List Char} (one : form.multiline = false)
    (spells : Body form marks s (first :: more)) : first ≠ form.mark := by
  generalize whole : first :: more = body at spells
  cases spells with
  | nil => simp at whole
  | mark room => simp [Form.mostMarks, one] at room
  | piece piece _ =>
    obtain ⟨start, tail, rfl, other⟩ := piece.exists_cons
    rw [List.cons_append] at whole
    exact (List.cons.inj whole).1 ▸ other

theorem readString?_of_ne {mark : Char} {s : List Char}
    (apart : ∀ first second more, s = first :: second :: more → ¬(first = mark ∧ second = mark)) :
    readString? mark s = readChars? ⟨mark, mark = '"', false⟩ (s.length + 1) [] s := by
  match s with
  | [] => rfl
  | [_] => rfl
  | first :: second :: more =>
    have not_opened : ¬(first = mark && second = mark) := by simpa using apart first second more rfl
    rw [readString?, if_neg not_opened]

/-- A body on one line is not taken for the opening of several lines. -/
theorem readString?_line (one : form.multiline = false) (spells : Body form 0 s body)
    (stops : StopsBefore (· = form.mark) rest) :
    readString? form.mark (body ++ (form.run ++ rest)) = some (String.ofList s, rest) := by
  have read := spells.readChars? (Nat.zero_le _) ((body ++ (form.run ++ rest)).length + 1) []
    (by rw [List.length_append]; omega) stops
  rw [quoting_eq, one] at read
  rw [readString?_of_ne]
  · exact read
  · rintro first second more same ⟨rfl, rfl⟩
    cases body with
    | nil =>
      have run : form.run = [form.mark] := by simp [Form.run, one]
      rw [run, List.nil_append, List.singleton_append] at same
      simpa using stops form.mark (by rw [(List.cons.inj same).2]; rfl)
    | cons start tail => exact spells.head_ne one (List.cons.inj same).1

/-- A body does not start with a line break if its text has none. -/
theorem Body.dropBreak?_append (one : '\n' ∉ s) (spells : Body form marks s body) :
    dropBreak? (body ++ (form.run ++ rest)) = none := by
  have mark_in_line : isInLine form.mark := by
    unfold Form.mark
    split <;> decide
  cases spells with
  | nil =>
    obtain ⟨more, run⟩ : ∃ more, form.run = form.mark :: more := by
      unfold Form.run
      split <;> exact ⟨_, rfl⟩
    rw [run]
    exact dropBreak?_of_isInLine mark_in_line _
  | mark => exact dropBreak?_of_isInLine mark_in_line _
  | piece piece _ =>
    cases piece with
    | plain _ _ allowed => exact dropBreak?_of_isInLine (isInLine_of_allowed allowed) _
    | lineBreak => exact absurd List.mem_cons_self one
    | escaped => exact dropBreak?_of_isInLine (by decide) _

/-- A line break behind the opening marks is left out, and a text without line breaks has none there. -/
theorem readString?_lines (several : form.multiline) (spells : Body form 0 s body)
    (stops : StopsBefore (· = form.mark) rest) :
    readString? form.mark (form.mark :: form.mark ::
      ((if s.contains '\n' then ['\n'] else []) ++ (body ++ (form.run ++ rest)))) =
      some (String.ofList s, rest) := by
  have opened : (dropBreak? ((if s.contains '\n' then ['\n'] else []) ++ (body ++ (form.run ++ rest)))).getD
      ((if s.contains '\n' then ['\n'] else []) ++ (body ++ (form.run ++ rest))) =
      body ++ (form.run ++ rest) := by
    split
    next => rfl
    next one =>
      rw [List.nil_append, spells.dropBreak?_append (by simpa using one)]
      rfl
  have read := spells.readChars? (Nat.zero_le _) ((body ++ (form.run ++ rest)).length + 1) []
    (by rw [List.length_append]; omega) stops
  rw [quoting_eq, several] at read
  rw [readString?, if_pos (by simp)]
  simp only [opened]
  exact read

/-- A string is read back from what is written for it, if no mark follows. -/
theorem readString?_quote (text : String) (stops : StopsBefore (fun c => c = '"' || c = '\'') rest) :
    ∃ mark more, (mark = '"' ∨ mark = '\'') ∧ (quote text).toList = mark :: more ∧
      readString? mark (more ++ rest) = some (text, rest) := by
  obtain ⟨form, chosen⟩ : ∃ form, form = formOf text.toList := ⟨_, rfl⟩
  obtain ⟨body, written⟩ : ∃ body, body = if form.literal then text.toList else escapeAll form 0 text.toList :=
    ⟨_, rfl⟩
  have spells : Body form 0 text.toList body := by
    subst written chosen
    exact body_formOf text.toList
  have whole : (quote text).toList = form.run ++
      (if form.multiline && text.toList.contains '\n' then ['\n'] else []) ++ body ++ form.run := by
    rw [written, chosen, quote, String.toList_ofList]
    rfl
  have mark : form.mark = '"' ∨ form.mark = '\'' := by
    unfold Form.mark
    split
    · exact .inr rfl
    · exact .inl rfl
  have stops : StopsBefore (· = form.mark) rest := by
    intro c first
    have neither : c ≠ '"' ∧ c ≠ '\'' := by simpa using stops c first
    rcases mark with quote | quote <;> simp [quote, neither]
  by_cases several : form.multiline
  · have run : form.run = [form.mark, form.mark, form.mark] := by simp [Form.run, several]
    have read := readString?_lines several spells stops
    rw [String.ofList_toList] at read
    refine ⟨form.mark, form.mark :: form.mark ::
      ((if text.toList.contains '\n' then ['\n'] else []) ++ (body ++ form.run)), mark, ?_, ?_⟩
    · simp [whole, run, several]
    · simpa using read
  · have run : form.run = [form.mark] := by simp [Form.run, several]
    have read := readString?_line (by simpa using several) spells stops
    rw [String.ofList_toList] at read
    refine ⟨form.mark, body ++ form.run, mark, ?_, ?_⟩
    · simp [whole, run, several]
    · simpa using read

end MetricEngine.Toml
