import MetricEngine.Json.Record
import MetricEngine.Proofs.Json.Values
import MetricEngine.Proofs.ListFacts

/-!
Records whose fields have been put in key order. Each field is found under its name, and lists, tables and
texts decode to what was encoded, as long as their members do.
-/
namespace MetricEngine.Json
variable {α : Type} {encode : α → Json} {decode : Json → Option α}

/-- An encoded value decodes to itself, also when its fields have been put in order. -/
def Decodes (decode : Json → Option α) (encode : α → Json) (x : α) : Prop :=
  decode (encode x).ordered = some x

theorem find?_of_mem {fields : List (String × Json)} (distinct : (fields.map (·.1)).Nodup)
    {field : String × Json} (listed : field ∈ fields) : find? field.1 fields = some field.2 := by
  induction fields with
  | nil => simp at listed
  | cons first rest ih =>
    obtain ⟨fresh, distinct⟩ := List.nodup_cons.mp distinct
    rcases List.mem_cons.mp listed with rfl | later
    · simp [find?]
    · have other : ¬first.1 = field.1 := fun same => fresh (List.mem_map.mpr ⟨field, later, same.symm⟩)
      rw [find?, List.find?_cons_of_neg (by simpa using other)]
      exact ih distinct later

/-- Fields that are left out are not found, and the others are found as before. -/
theorem find?_filter (kept : String → Bool) (name : String) (fields : List (String × Json)) :
    find? name (fields.filter (kept ·.1)) = if kept name then find? name fields else none := by
  rw [find?, List.find?_filter]
  split
  next left =>
    have same : (fun field : String × Json => decide (kept field.1 ∧ decide (field.1 = name))) =
        fun field => decide (field.1 = name) := by
      funext field
      by_cases here : field.1 = name
      · simp [here, left]
      · simp [here]
    rw [same]
    rfl
  next gone =>
    have none : ∀ field ∈ fields, ¬(kept field.1 ∧ field.1 = name) := by
      rintro field _ ⟨left, rfl⟩
      exact gone left
    rw [List.find?_eq_none.mpr (by simpa using none)]
    rfl

/-- A field that is left out has its default. -/
theorem withDefault_filter (fields : List (String × Json)) (name : String) (kept : String → Bool)
    (standard : α) {json : Json} {value : α} (listed : find? name fields = some json)
    (decodes : decode json = some value) :
    withDefault standard decode (find? name (fields.filter (kept ·.1))) =
      some (if kept name then value else standard) := by
  rw [find?_filter, listed]
  split
  · exact decodes
  · rfl

theorem asInt64?_int {n : Int} (fits : Text.fitsInt64 n) : asInt64? (.int n) = some n :=
  if_pos fits

theorem asUInt64?_natCast (n : Nat) : asUInt64? (.int n) = some n := by
  rw [asUInt64?, if_pos (Int.natCast_nonneg n), Int.toNat_natCast]

theorem find?_ordered {fields : List (String × Json)} (distinct : (fields.map (·.1)).Nodup)
    (name : String) :
    find? name (Table.ofList (fields.map fun field => (field.1, ordered field.2))).entries =
      (find? name fields).map ordered := by
  have agree : ∀ entry ∈ fields.map fun field => (field.1, ordered field.2),
      (find? entry.1 fields).map ordered = some entry.2 := by
    intro entry member
    obtain ⟨field, listed, rfl⟩ := List.mem_map.mp member
    rw [find?_of_mem distinct listed]
    rfl
  refine (@Table.get?_ofList _ _ (fun name => (find? name fields).map ordered) agree name).trans ?_
  split
  next => rfl
  next unlisted =>
    have absent : fields.find? (·.1 = name) = none := by
      refine List.find?_eq_none.mpr fun field listed named => unlisted ?_
      rw [List.map_map]
      exact List.mem_map.mpr ⟨field, listed, by simpa using named⟩
    rw [find?, absent]
    rfl

theorem exists_ordered_obj (fields : List (String × Json)) (distinct : (fields.map (·.1)).Nodup) :
    ∃ sorted, ordered (obj fields) = obj sorted ∧
      ∀ name, find? name sorted = (find? name fields).map ordered :=
  ⟨_, ordered_obj fields, find?_ordered distinct⟩

theorem record?_ordered {fields : List (String × Json)} (distinct : (fields.map (·.1)).Nodup)
    (names : List String) :
    record? names (ordered (obj fields)) = some fun name => (find? name fields).map ordered := by
  rw [ordered_obj, record?]
  exact congrArg some (funext (find?_ordered distinct))

theorem asList?_ordered {xs : List α} (each : ∀ x ∈ xs, Decodes decode encode x) :
    asList? decode (ordered (arr (xs.map encode))) = some xs := by
  rw [ordered_arr, asList?, ListFacts.mapM_eq_some_iff, List.map_map, List.map_map]
  exact List.map_congr_left each

theorem asString?_ordered (text : String) : Decodes asString? str text := by
  rw [Decodes, ordered_str, asString?]

theorem asStrings?_ordered (texts : List String) : Decodes asStrings? ofStrings texts :=
  asList?_ordered fun text _ => asString?_ordered text

theorem asTable?_ordered {table : Table α} (each : ∀ entry ∈ table.entries, Decodes decode encode entry.2) :
    Decodes (asTable? decode) (ofTable encode) table := by
  have ascending : (table.entries.map fun entry => (entry.1, (encode entry.2).ordered)).Pairwise
      fun a b => a.1 < b.1 := List.pairwise_map.mpr table.ascending
  have fields : ordered (ofTable encode table) =
      obj (table.entries.map fun entry => (entry.1, (encode entry.2).ordered)) := by
    rw [ofTable, ordered_obj, List.map_map]
    exact congrArg obj (Table.entries_ofList ascending)
  have decoded : (table.entries.map fun entry => (entry.1, (encode entry.2).ordered)).mapM
      (fun field => (decode field.2).map (field.1, ·)) = some table.entries := by
    rw [ListFacts.mapM_eq_some_iff, List.map_map]
    refine List.map_congr_left fun entry listed => ?_
    have value : decode (encode entry.2).ordered = some entry.2 := each entry listed
    rw [Function.comp_apply, value]
    rfl
  rw [Decodes, fields, asTable?, decoded]
  exact congrArg some (Table.ofList_entries table)

end MetricEngine.Json
