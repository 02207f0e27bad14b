/-!
Tables keyed by strings. Entries are kept in strictly ascending key order, so two tables with
the same content are equal.
-/
namespace MetricEngine

structure Table (α : Type) where
  entries : List (String × α)
  ascending : entries.Pairwise fun a b => a.1 < b.1

namespace Table
variable {α β : Type}

def empty : Table α := ⟨[], .nil⟩

instance : Inhabited (Table α) := ⟨empty⟩

instance [DecidableEq α] : DecidableEq (Table α) := fun a b =>
  decidable_of_iff (a.entries = b.entries) ⟨fun h => by cases a; cases b; cases h; rfl, fun h => h ▸ rfl⟩

/-- Puts one entry in its place, replacing the entry of the same key. -/
def put (key : String) (value : α) : List (String × α) → List (String × α)
  | [] => [(key, value)]
  | entry :: rest =>
    if key < entry.1 then (key, value) :: entry :: rest
    else if key = entry.1 then (key, value) :: rest
    else entry :: put key value rest

theorem mem_put {key : String} {value : α} {entry : String × α} {entries : List (String × α)}
    (h : entry ∈ put key value entries) : entry = (key, value) ∨ entry ∈ entries := by
  induction entries with
  | nil => simpa [put] using h
  | cons first rest ih =>
    unfold put at h
    split at h
    · simpa using h
    · split at h
      · rcases List.mem_cons.1 h with h | h
        · exact .inl h
        · exact .inr (.tail _ h)
      · rcases List.mem_cons.1 h with h | h
        · exact .inr (h ▸ .head _)
        · exact (ih h).imp id (.tail _)

theorem pairwise_put {key : String} {value : α} {entries : List (String × α)}
    (h : entries.Pairwise fun a b => a.1 < b.1) :
    (put key value entries).Pairwise fun a b => a.1 < b.1 := by
  induction entries with
  | nil => simp [put]
  | cons first rest ih =>
    have ⟨below, tail⟩ := List.pairwise_cons.1 h
    unfold put
    split
    · rename_i lt
      refine List.pairwise_cons.2 ⟨fun b hb => ?_, h⟩
      rcases List.mem_cons.1 hb with rfl | hb
      · exact lt
      · exact Std.lt_trans lt (below b hb)
    · split
      · rename_i _ eq
        exact List.pairwise_cons.2 ⟨fun b hb => eq ▸ below b hb, tail⟩
      · rename_i nlt ne
        refine List.pairwise_cons.2 ⟨fun b hb => ?_, ih tail⟩
        rcases mem_put hb with rfl | hb
        · exact Std.lt_of_le_of_ne (Std.not_lt.1 nlt) (Ne.symm ne)
        · exact below b hb

def insert (table : Table α) (key : String) (value : α) : Table α :=
  ⟨put key value table.entries, pairwise_put table.ascending⟩

/-- Of several entries with one key the last counts. -/
def ofList (entries : List (String × α)) : Table α :=
  entries.foldl (fun table entry => table.insert entry.1 entry.2) empty

def get? (table : Table α) (key : String) : Option α :=
  (table.entries.find? (·.1 = key)).map (·.2)

theorem find?_put (key tag : String) (value : α) (entries : List (String × α)) :
    ((put key value entries).find? (·.1 = tag)).map (·.2) =
      if tag = key then some value else (entries.find? (·.1 = tag)).map (·.2) := by
  have first_entry : ∀ rest : List (String × α),
      (((key, value) :: rest).find? (·.1 = tag)).map (·.2) =
        if tag = key then some value else (rest.find? (·.1 = tag)).map (·.2) := by
    intro rest
    by_cases same : tag = key
    · simp [same]
    · simp [same, Ne.symm same]
  induction entries with
  | nil => exact first_entry []
  | cons entry rest ih =>
    unfold put
    split
    next => exact first_entry (entry :: rest)
    next =>
      split
      next here =>
        rw [first_entry rest]
        by_cases same : tag = key
        · rw [if_pos same, if_pos same]
        · have other : ¬entry.1 = tag := fun is_tag => same (is_tag.symm.trans here.symm)
          rw [if_neg same, if_neg same, List.find?_cons_of_neg (by simpa using other)]
      next elsewhere =>
        by_cases same : entry.1 = tag
        · have other : ¬tag = key := fun is_key => elsewhere (same.trans is_key).symm
          simp [same, other]
        · simpa [same] using ih

theorem get?_insert (table : Table α) (key tag : String) (value : α) :
    (table.insert key value).get? tag = if tag = key then some value else table.get? tag :=
  find?_put key tag value table.entries

theorem get?_foldl_insert {entries : List (String × α)} {value? : String → Option α}
    (agree : ∀ entry ∈ entries, value? entry.1 = some entry.2) (table : Table α) (key : String) :
    (entries.foldl (fun table entry => table.insert entry.1 entry.2) table).get? key =
      if key ∈ entries.map (·.1) then value? key else table.get? key := by
  induction entries generalizing table with
  | nil => simp
  | cons first rest ih =>
    obtain ⟨first_agrees, others⟩ := List.forall_mem_cons.mp agree
    rw [List.foldl_cons, ih others, get?_insert, List.map_cons]
    by_cases later : key ∈ rest.map (·.1)
    · rw [if_pos later, if_pos (List.mem_cons_of_mem _ later)]
    · rw [if_neg later]
      by_cases here : key = first.1
      · rw [if_pos here, here, if_pos List.mem_cons_self, first_agrees]
      · rw [if_neg here, if_neg fun listed => (List.mem_cons.mp listed).elim here later]

/-- If all entries with one key have one value, the table has it. -/
theorem get?_ofList {entries : List (String × α)} {value? : String → Option α}
    (agree : ∀ entry ∈ entries, value? entry.1 = some entry.2) (key : String) :
    (ofList entries).get? key = if key ∈ entries.map (·.1) then value? key else none :=
  get?_foldl_insert agree empty key

theorem find?_of_mem {entries : List (String × α)} (ascending : entries.Pairwise fun a b => a.1 < b.1)
    {key : String} {value : α} (listed : (key, value) ∈ entries) :
    entries.find? (·.1 = key) = some (key, value) := by
  induction ascending with
  | nil => simp at listed
  | @cons first rest above _ ih =>
    rcases List.mem_cons.mp listed with rfl | later
    · simp
    · have other : ¬first.1 = key := fun same => Std.lt_irrefl (same ▸ above _ later)
      rw [List.find?_cons_of_neg (by simpa using other), ih later]

theorem get?_eq_some_iff {table : Table α} {key : String} {value : α} :
    table.get? key = some value ↔ (key, value) ∈ table.entries := by
  constructor
  · intro found
    obtain ⟨entry, there, rfl⟩ := Option.map_eq_some_iff.mp found
    obtain rfl : entry.1 = key := by simpa using List.find?_some there
    exact List.mem_of_find?_eq_some there
  · intro listed
    rw [get?, find?_of_mem table.ascending listed]
    rfl

theorem put_append {key : String} (value : α) {entries : List (String × α)}
    (above : ∀ entry ∈ entries, entry.1 < key) : put key value entries = entries ++ [(key, value)] := by
  induction entries with
  | nil => rfl
  | cons first rest ih =>
    obtain ⟨head, tail⟩ := List.forall_mem_cons.mp above
    have not_before : ¬key < first.1 := Std.not_lt.mpr (Std.le_of_lt head)
    have not_here : ¬key = first.1 := fun same => Std.lt_irrefl (same ▸ head)
    rw [put, if_neg not_before, if_neg not_here, ih tail, List.cons_append]

theorem entries_foldl_insert {entries : List (String × α)} (table : Table α)
    (ascending : (table.entries ++ entries).Pairwise fun a b => a.1 < b.1) :
    (entries.foldl (fun table entry => table.insert entry.1 entry.2) table).entries =
      table.entries ++ entries := by
  induction entries generalizing table with
  | nil => simp
  | cons first rest ih =>
    have last : (table.insert first.1 first.2).entries = table.entries ++ [first] :=
      put_append first.2 fun entry listed =>
        (List.pairwise_append.mp ascending).2.2 entry listed first List.mem_cons_self
    rw [List.foldl_cons, ih _ (by simpa [last] using ascending), last, List.append_assoc,
      List.singleton_append]

/-- Entries in ascending order are those of their table. -/
theorem entries_ofList {entries : List (String × α)}
    (ascending : entries.Pairwise fun a b => a.1 < b.1) : (ofList entries).entries = entries :=
  entries_foldl_insert empty ascending

theorem ofList_entries (table : Table α) : ofList table.entries = table := by
  have same := entries_ofList table.ascending
  cases made : ofList table.entries
  cases table
  simpa [made] using same

/-- The values of the entries with a key: the only one, if there is one. -/
theorem filterMap_entries (table : Table α) (key : String) :
    table.entries.filterMap (fun entry => if entry.1 = key then some entry.2 else none) =
      (table.get? key).toList := by
  obtain ⟨entries, ascending⟩ := table
  change entries.filterMap _ = ((entries.find? _).map _).toList
  induction ascending with
  | nil => rfl
  | @cons first rest above _ ih =>
    by_cases here : first.1 = key
    · have none : rest.filterMap (fun entry => if entry.1 = key then some entry.2 else none) = [] := by
        apply List.filterMap_eq_nil_iff.mpr
        intro entry member
        exact if_neg fun same => Std.lt_irrefl ((here.trans same.symm) ▸ above entry member)
      rw [List.filterMap_cons, if_pos here, none, List.find?_cons_of_pos (by simpa using here)]
      rfl
    · rw [List.filterMap_cons, if_neg here, ih, List.find?_cons_of_neg (by simpa using here)]

def keys (table : Table α) : List String :=
  table.entries.map (·.1)

def isEmpty (table : Table α) : Bool :=
  table.entries.isEmpty

def map (f : α → β) (table : Table α) : Table β where
  entries := table.entries.map fun entry => (entry.1, f entry.2)
  ascending := List.pairwise_map.2 table.ascending

/-- Entries of `other` win where both tables have a key. -/
def union (table other : Table α) : Table α :=
  other.entries.foldl (fun all entry => all.insert entry.1 entry.2) table

end Table
end MetricEngine
