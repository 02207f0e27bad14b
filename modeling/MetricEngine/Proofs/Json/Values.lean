import MetricEngine.Proofs.Json.Scalars

/-!
Whole values. The compact text of a value is read as the value with the fields of each object in key order,
if it nests no deeper than the reader goes, and is refused otherwise.
-/
namespace MetricEngine

/-- A number is read back from the text that is written for it. -/
def Binary64.ReadsBack (x : Binary64) : Prop :=
  Json.readNumber? x.jsonText.toList = some (.double x, [])

namespace Json
open Text
variable {depth fuel : Nat} {value : Json} {rest : List Char}

/-- Arrays and objects nest at most so deep. -/
def nestsWithin : Nat → Json → Bool
  | 0, arr _ => false
  | 0, obj _ => false
  | depth + 1, arr items => items.all (nestsWithin depth)
  | depth + 1, obj fields => fields.all fun field => nestsWithin depth field.2
  | _, _ => true

@[simp]
theorem nestsWithin_str (depth : Nat) (text : String) : nestsWithin depth (str text) := by
  cases depth <;> simp [nestsWithin]

@[simp]
theorem nestsWithin_int (depth : Nat) (n : Int) : nestsWithin depth (int n) := by
  cases depth <;> simp [nestsWithin]

theorem nestsWithin_arr (depth : Nat) (items : List Json) :
    nestsWithin (depth + 1) (arr items) = items.all (nestsWithin depth) := by
  rw [nestsWithin]

theorem nestsWithin_obj (depth : Nat) (fields : List (String × Json)) :
    nestsWithin (depth + 1) (obj fields) = fields.all fun field => nestsWithin depth field.2 := by
  rw [nestsWithin]

mutual

/-- The fields of each object in key order; of several fields with one key the last counts. -/
def ordered : Json → Json
  | arr items => arr (orderedItems items)
  | obj fields => obj (Table.ofList (orderedFields fields)).entries
  | value => value

def orderedItems : List Json → List Json
  | [] => []
  | item :: rest => ordered item :: orderedItems rest

def orderedFields : List (String × Json) → List (String × Json)
  | [] => []
  | (key, value) :: rest => (key, ordered value) :: orderedFields rest

end

theorem orderedItems_eq_map (items : List Json) : orderedItems items = items.map ordered := by
  induction items with
  | nil => rfl
  | cons item items ih => rw [orderedItems, ih, List.map_cons]

theorem orderedFields_eq_map (fields : List (String × Json)) :
    orderedFields fields = fields.map fun field => (field.1, ordered field.2) := by
  induction fields with
  | nil => rfl
  | cons field fields ih => rw [orderedFields, ih, List.map_cons]

theorem ordered_str (text : String) : ordered (str text) = str text := by
  simp [ordered]

theorem ordered_arr (items : List Json) : ordered (arr items) = arr (items.map ordered) := by
  rw [ordered, orderedItems_eq_map]

theorem ordered_obj (fields : List (String × Json)) :
    ordered (obj fields) =
      obj (Table.ofList (fields.map fun field => (field.1, ordered field.2))).entries := by
  rw [ordered, orderedFields_eq_map]

/-- Integers are of 64 bits and the other numbers are read back. -/
inductive Readable : Json → Prop where
  | null : Readable null
  | bool (b : Bool) : Readable (bool b)
  | int {n : Int} : int64Min ≤ n → n ≤ uint64Max → Readable (int n)
  | double {x : Binary64} : x.ReadsBack → Readable (double x)
  | str (text : String) : Readable (str text)
  | arr {items : List Json} : (∀ item ∈ items, Readable item) → Readable (arr items)
  | obj {fields : List (String × Json)} : (∀ field ∈ fields, Readable field.2) → Readable (obj fields)

@[simp]
theorem readable_str (text : String) : Readable (Json.str text) :=
  .str text

theorem readable_arr {items : List Json} : Readable (arr items) ↔ ∀ item ∈ items, Readable item :=
  ⟨fun | .arr each => each, .arr⟩

theorem readable_obj {fields : List (String × Json)} :
    Readable (obj fields) ↔ ∀ field ∈ fields, Readable field.2 :=
  ⟨fun | .obj each => each, .obj⟩

theorem readable_ofTable {α : Type} {encode : α → Json} {table : Table α} :
    Readable (ofTable encode table) ↔ ∀ entry ∈ table.entries, Readable (encode entry.2) := by
  rw [ofTable, readable_obj, List.forall_mem_map]

/-! Numbers. -/

theorem exists_cons_of_readNumber? {s : List Char} {read : Json × List Char}
    (number : readNumber? s = some read) : ∃ c more, s = c :: more ∧ (c = '-' ∨ c.isDigit) := by
  cases s with
  | nil => simp [readNumber?, readSign] at number
  | cons c more =>
    refine ⟨c, more, rfl, or_iff_not_imp_left.mpr fun no_minus => ?_⟩
    by_contra no_digit
    rw [readNumber?, readSign_of_ne (by simpa using no_minus)] at number
    simp [no_digit] at number

theorem not_isSpace_of_number {c : Char} (first : c = '-' ∨ c.isDigit) : isSpace c = false := by
  rw [Bool.eq_false_iff]
  intro space
  simp only [isSpace, Bool.or_eq_true, decide_eq_true_eq] at space
  rcases space with ((rfl | rfl) | rfl) | rfl <;> simp at first

theorem skipSpace_cons {c : Char} {more : List Char} (solid : isSpace c = false) :
    skipSpace (c :: more) = c :: more :=
  List.dropWhile_cons_of_neg (by simp [solid])

theorem readValue?_of_readNumber? {s : List Char} {read : Json × List Char}
    (number : readNumber? s = some read) : readValue? (fuel + 1) depth s = some read := by
  obtain ⟨c, more, rfl, first⟩ := exists_cons_of_readNumber? number
  have solid : skipSpace (c :: more) = c :: more := skipSpace_cons (not_isSpace_of_number first)
  rw [readValue?, solid]
  split
  case h_7 same =>
    obtain ⟨rfl, rfl⟩ := List.cons.inj same
    rwa [if_pos (by simpa using first)]
  case h_8 same => simp at same
  -- The other values start with characters that no number has.
  all_goals
    next same =>
      obtain ⟨rfl, _⟩ := List.cons.inj same
      simp at first

theorem readValue?_number {s : List Char} (ends : Ends rest) (number : readNumber? s = some (value, [])) :
    readValue? (fuel + 1) depth (s ++ rest) = some (value, rest) := by
  apply readValue?_of_readNumber?
  rw [readNumber?_append ends, number]
  rfl

/-! What a value is read as. -/

/-- Every value is read with so many brackets left to open, if it needs no more. -/
def Reads (depth : Nat) : Prop :=
  ∀ {value}, Readable value → ∀ {fuel rest}, 2 * (render value).toList.length ≤ fuel → Ends rest →
    readValue? fuel depth ((render value).toList ++ rest) =
      if nestsWithin depth value then some (ordered value, rest) else none

/-- The text of a value starts with neither a blank nor a closing bracket. -/
theorem exists_render_cons (readable : Readable value) :
    ∃ c more, (render value).toList = c :: more ∧ isSpace c = false ∧ c ≠ ']' := by
  have number : ∀ {s : List Char} {read}, readNumber? s = some read →
      ∃ c more, s = c :: more ∧ isSpace c = false ∧ c ≠ ']' := by
    intro s read number
    obtain ⟨c, more, rfl, first⟩ := exists_cons_of_readNumber? number
    refine ⟨c, more, rfl, not_isSpace_of_number first, ?_⟩
    rintro rfl
    simp at first
  cases readable with
  | null => exact ⟨'n', _, rfl, by decide⟩
  | bool b => cases b <;> exact ⟨_, _, rfl, by decide⟩
  | int least most => exact number (readNumber?_int least most)
  | double reads => exact number reads
  | str text => exact ⟨'"', _, toList_quote text, by decide⟩
  | arr => exact ⟨'[', _, by rw [render, String.toList_append, String.toList_append]; rfl, by decide⟩
  | obj => exact ⟨'\x7b', _, by rw [render, String.toList_append, String.toList_append]; rfl, by decide⟩

theorem toList_renderItems (item next : Json) (more : List Json) :
    (renderItems (item :: next :: more)).toList =
      (render item).toList ++ ',' :: (renderItems (next :: more)).toList := by
  simp [renderItems]

theorem toList_renderFields_singleton (key : String) (value : Json) :
    (renderFields [(key, value)]).toList = (quote key).toList ++ ':' :: (render value).toList := by
  simp [renderFields]

theorem toList_renderFields (key : String) (value : Json) (next : String × Json)
    (more : List (String × Json)) :
    (renderFields ((key, value) :: next :: more)).toList =
      (quote key).toList ++ ':' ::
        ((render value).toList ++ ',' :: (renderFields (next :: more)).toList) := by
  simp [renderFields]

theorem readItems?_render (reads : Reads depth) {items : List Json} (filled : items ≠ [])
    (readable : ∀ item ∈ items, Readable item) (collected : List Json) (rest : List Char)
    (enough : 2 * (renderItems items).toList.length + 1 ≤ fuel) :
    readItems? fuel depth collected ((renderItems items).toList ++ ']' :: rest) =
      if items.all (nestsWithin depth) then some (arr (collected.reverse ++ items.map ordered), rest)
      else none := by
  induction items generalizing fuel collected with
  | nil => exact absurd rfl filled
  | cons item items ih =>
    obtain ⟨fuel, rfl⟩ := Nat.exists_eq_succ_of_ne_zero (Nat.ne_zero_of_lt enough)
    obtain ⟨first, others⟩ := List.forall_mem_cons.mp readable
    cases items with
    | nil =>
      rw [renderItems] at enough ⊢
      rw [readItems?, reads first (by omega) (ends_cons (by simp))]
      by_cases within : nestsWithin depth item
      · simp [within, skipSpace, isSpace]
      · simp [within]
    | cons next more =>
      rw [toList_renderItems, List.length_append, List.length_cons] at enough
      rw [toList_renderItems, List.append_assoc, List.cons_append, readItems?,
        reads first (by omega) (ends_cons (by simp))]
      by_cases within : nestsWithin depth item
      · have enough_rest : 2 * (renderItems (next :: more)).toList.length + 1 ≤ fuel := by omega
        have rest_read := ih (by simp) others (ordered item :: collected) enough_rest
        simp [within, skipSpace, isSpace, rest_read]
      · simp [within]

/-- A key and its colon are read whatever follows them. -/
theorem readFields?_key (collected : Table Json) (key : String) (s : List Char) :
    readFields? (fuel + 1) depth collected ((quote key).toList ++ ':' :: s) =
      (readValue? fuel depth s).bind fun read =>
        match skipSpace read.2 with
        | ',' :: rest => readFields? fuel depth (collected.insert key read.1) rest
        | '\x7d' :: rest => some (.obj (collected.insert key read.1).entries, rest)
        | _ => none := by
  have opens : (quote key).toList ++ ':' :: s = '"' :: (key.toList.flatMap escape ++ '"' :: ':' :: s) := by
    simp [toList_quote]
  rw [opens, readFields?]
  change Option.bind (readString? (key.toList.flatMap escape ++ '"' :: ':' :: s)) _ = _
  rw [readString?_quoted]
  rfl

theorem readFields?_render (reads : Reads depth) {fields : List (String × Json)} (filled : fields ≠ [])
    (readable : ∀ field ∈ fields, Readable field.2) (collected : Table Json) (rest : List Char)
    (enough : 2 * (renderFields fields).toList.length + 1 ≤ fuel) :
    readFields? fuel depth collected ((renderFields fields).toList ++ '\x7d' :: rest) =
      if fields.all fun field => nestsWithin depth field.2 then
        some (obj (fields.foldl (fun table field => table.insert field.1 (ordered field.2)) collected).entries,
          rest)
      else none := by
  induction fields generalizing fuel collected with
  | nil => exact absurd rfl filled
  | cons field fields ih =>
    obtain ⟨key, value⟩ := field
    obtain ⟨fuel, rfl⟩ := Nat.exists_eq_succ_of_ne_zero (Nat.ne_zero_of_lt enough)
    obtain ⟨first, others⟩ : Readable value ∧ ∀ field ∈ fields, Readable field.2 :=
      List.forall_mem_cons.mp readable
    cases fields with
    | nil =>
      rw [toList_renderFields_singleton, List.length_append, List.length_cons] at enough
      rw [toList_renderFields_singleton, List.append_assoc, List.cons_append, Nat.succ_eq_add_one,
        readFields?_key, reads first (by omega) (ends_cons (by simp))]
      by_cases within : nestsWithin depth value
      · simp [within, skipSpace, isSpace]
      · simp [within]
    | cons next more =>
      rw [toList_renderFields, List.length_append, List.length_cons, List.length_append, List.length_cons]
        at enough
      rw [toList_renderFields, List.append_assoc, List.cons_append, Nat.succ_eq_add_one, readFields?_key,
        List.append_assoc, List.cons_append, reads first (by omega) (ends_cons (by simp))]
      by_cases within : nestsWithin depth value
      · have enough_rest : 2 * (renderFields (next :: more)).toList.length + 1 ≤ fuel := by omega
        have rest_read := ih (by simp) others (collected.insert key (ordered value)) enough_rest
        rw [List.all_cons, within, Bool.true_and, List.foldl_cons, ← rest_read]
        simp [skipSpace, isSpace]
      · simp [within]

/-- A value without items is read with any number of brackets left to open. -/
theorem readValue?_scalar (readable : Readable value) (flat : nestsWithin 0 value) (ends : Ends rest) :
    readValue? (fuel + 1) depth ((render value).toList ++ rest) = some (value, rest) := by
  cases readable with
  | null => rfl
  | bool b => cases b <;> rfl
  | int least most => exact readValue?_number ends (readNumber?_int least most)
  | double reads => exact readValue?_number ends reads
  | str text =>
    have written : (render (str text)).toList = (quote text).toList := rfl
    rw [written, toList_quote]
    simp [readValue?, skipSpace, isSpace, readString?_quoted]
  | arr => simp [nestsWithin] at flat
  | obj => simp [nestsWithin] at flat

theorem toList_render_arr (items : List Json) :
    (render (arr items)).toList = '[' :: ((renderItems items).toList ++ [']']) := by
  rw [render, String.toList_append, String.toList_append]
  rfl

theorem toList_render_obj (fields : List (String × Json)) :
    (render (obj fields)).toList = '\x7b' :: ((renderFields fields).toList ++ ['\x7d']) := by
  rw [render, String.toList_append, String.toList_append]
  rfl

theorem readValue?_arr (reads : Reads depth) {items : List Json} (readable : ∀ item ∈ items, Readable item)
    (enough : 2 * (renderItems items).toList.length + 1 ≤ fuel) :
    readValue? (fuel + 1) (depth + 1) ((render (arr items)).toList ++ rest) =
      if items.all (nestsWithin depth) then some (arr (items.map ordered), rest) else none := by
  rw [toList_render_arr, List.cons_append, List.append_assoc, List.singleton_append]
  cases items with
  | nil => rfl
  | cons item items =>
    have opened := readItems?_render reads (by simp) readable [] rest enough
    obtain ⟨c, more, text, solid, no_end⟩ :
        ∃ c more, (renderItems (item :: items)).toList = c :: more ∧ isSpace c = false ∧ c ≠ ']' := by
      obtain ⟨c, more, text, first⟩ := exists_render_cons (readable item List.mem_cons_self)
      cases items with
      | nil => exact ⟨c, more, text, first⟩
      | cons next items => exact ⟨c, _, by rw [toList_renderItems, text, List.cons_append], first⟩
    rw [List.reverse_nil, List.nil_append] at opened
    rw [← opened, text, List.cons_append]
    have bracket : skipSpace ('[' :: c :: (more ++ ']' :: rest)) = '[' :: c :: (more ++ ']' :: rest) := rfl
    simp only [readValue?, bracket]
    rw [skipSpace_cons solid]
    split
    next same =>
      obtain ⟨rfl, _⟩ := List.cons.inj same
      exact absurd rfl no_end
    next => rfl

theorem readValue?_obj (reads : Reads depth) {fields : List (String × Json)}
    (readable : ∀ field ∈ fields, Readable field.2)
    (enough : 2 * (renderFields fields).toList.length + 1 ≤ fuel) :
    readValue? (fuel + 1) (depth + 1) ((render (obj fields)).toList ++ rest) =
      if fields.all fun field => nestsWithin depth field.2 then some (ordered (obj fields), rest) else none := by
  rw [toList_render_obj, List.cons_append, List.append_assoc, List.singleton_append]
  cases fields with
  | nil => rfl
  | cons field fields =>
    have opened := readFields?_render reads (by simp) readable .empty rest enough
    rw [ordered_obj, Table.ofList, List.foldl_map, ← opened]
    obtain ⟨more, text⟩ : ∃ more, (renderFields (field :: fields)).toList = '"' :: more := by
      obtain ⟨key, value⟩ := field
      cases fields with
      | nil => exact ⟨_, by rw [toList_renderFields_singleton, toList_quote, List.cons_append]⟩
      | cons next fields => exact ⟨_, by rw [toList_renderFields, toList_quote, List.cons_append]⟩
    rw [text]
    rfl

theorem ordered_of_flat (flat : nestsWithin 0 value) : ordered value = value := by
  cases value with
  | arr => simp [nestsWithin] at flat
  | obj => simp [nestsWithin] at flat
  | _ => rfl

theorem nestsWithin_of_flat (flat : nestsWithin 0 value) : nestsWithin depth value := by
  cases value with
  | arr => simp [nestsWithin] at flat
  | obj => simp [nestsWithin] at flat
  | _ => cases depth <;> rfl

theorem reads : ∀ depth, Reads depth := by
  intro depth
  induction depth with
  | zero =>
    intro value readable fuel rest enough ends
    obtain ⟨c, more, text, _⟩ := exists_render_cons readable
    obtain ⟨fuel, rfl⟩ : ∃ n, fuel = n + 1 := ⟨fuel - 1, by rw [text, List.length_cons] at enough; omega⟩
    by_cases flat : nestsWithin 0 value
    · rw [readValue?_scalar readable flat ends, if_pos flat, ordered_of_flat flat]
    · rw [if_neg flat]
      -- Any bracket is one too many.
      cases readable with
      | arr => rw [toList_render_arr]; rfl
      | obj => rw [toList_render_obj]; rfl
      | _ => exact absurd rfl flat
  | succ depth ih =>
    intro value readable fuel rest enough ends
    obtain ⟨c, more, text, _⟩ := exists_render_cons readable
    obtain ⟨fuel, rfl⟩ : ∃ n, fuel = n + 1 := ⟨fuel - 1, by rw [text, List.length_cons] at enough; omega⟩
    by_cases flat : nestsWithin 0 value
    · rw [readValue?_scalar readable flat ends, if_pos (nestsWithin_of_flat flat), ordered_of_flat flat]
    · cases readable with
      | arr items_readable =>
        rw [toList_render_arr, List.length_cons, List.length_append, List.length_singleton] at enough
        rw [readValue?_arr ih items_readable (by omega), ordered_arr]
        rfl
      | obj fields_readable =>
        rw [toList_render_obj, List.length_cons, List.length_append, List.length_singleton] at enough
        rw [readValue?_obj ih fields_readable (by omega)]
        rfl
      | _ => exact absurd rfl flat

/-- The values that stand for a text: integers of 64 bits, finite doubles, and objects with their fields in
key order. -/
inductive Valid : Json → Prop where
  | null : Valid null
  | bool (b : Bool) : Valid (bool b)
  | int {n : Int} : int64Min ≤ n → n ≤ uint64Max → Valid (int n)
  | double {x : Binary64} : x.isFinite → Valid (double x)
  | str (text : String) : Valid (str text)
  | arr {items : List Json} : (∀ item ∈ items, Valid item) → Valid (arr items)
  | obj {fields : List (String × Json)} : (fields.Pairwise fun a b => a.1 < b.1) →
      (∀ field ∈ fields, Valid field.2) → Valid (obj fields)

/-- A double stands somewhere in a value. -/
inductive Mentions (x : Binary64) : Json → Prop where
  | double : Mentions x (double x)
  | item {item : Json} {items : List Json} : item ∈ items → Mentions x item → Mentions x (arr items)
  | field {field : String × Json} {fields : List (String × Json)} : field ∈ fields →
      Mentions x field.2 → Mentions x (obj fields)

theorem Valid.readable (valid : Valid value) (faithful : ∀ x, Mentions x value → x.isFinite → x.ReadsBack) :
    Readable value := by
  induction valid with
  | null => exact .null
  | bool b => exact .bool b
  | int least most => exact .int least most
  | double finite => exact .double (faithful _ .double finite)
  | str text => exact .str text
  | arr _ ih => exact .arr fun item member => ih item member fun x found => faithful x (.item member found)
  | obj _ _ ih => exact .obj fun field member => ih field member fun x found => faithful x (.field member found)

theorem Valid.ordered_eq (valid : Valid value) : ordered value = value := by
  induction valid with
  | @arr items _ ih =>
    have same : items.map ordered = items := (List.map_congr_left ih).trans (List.map_id _)
    rw [ordered_arr, same]
  | @obj fields ascending _ ih =>
    have same : (fields.map fun field => (field.1, ordered field.2)) = fields := by
      refine (List.map_congr_left fun field member => ?_).trans (List.map_id fields)
      rw [ih field member, id]
    rw [ordered_obj, same, Table.entries_ofList ascending]
  | _ => rfl

end Json
end MetricEngine
