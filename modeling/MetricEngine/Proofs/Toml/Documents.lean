import MetricEngine.Proofs.Toml.Values

/-!
Documents of sections with plain fields. What is written for them is cut into parts, and any parts can be
taken out of a document without a change to what is read from the others, as long as no field is left without
its header.
-/
namespace MetricEngine.Toml
open Text
variable {rest text more : List Char} {name key : String} {draft middle last : Draft}

/-! Entries at the end of a table. -/

namespace Entries
variable {entries : Entries} {node other : Node}

theorem find?_fresh (fresh : ∀ entry ∈ entries, entry.1 ≠ key) : find? key entries = none := by
  rw [find?, List.find?_eq_none.mpr (by simpa using fresh)]
  rfl

theorem find?_concat (fresh : ∀ entry ∈ entries, entry.1 ≠ key) (node : Node) :
    find? key (entries ++ [(key, node)]) = some node := by
  rw [find?, List.find?_append, List.find?_eq_none.mpr (by simpa using fresh)]
  simp

theorem set_fresh (fresh : ∀ entry ∈ entries, entry.1 ≠ key) (node : Node) :
    set key node entries = entries ++ [(key, node)] := by
  induction entries with
  | nil => rfl
  | cons first rest ih =>
    obtain ⟨other, others⟩ := List.forall_mem_cons.mp fresh
    rw [set, if_neg other, ih others, List.cons_append]

theorem set_concat (fresh : ∀ entry ∈ entries, entry.1 ≠ key) (old node : Node) :
    set key node (entries ++ [(key, old)]) = entries ++ [(key, node)] := by
  induction entries with
  | nil => exact if_pos rfl
  | cons first rest ih =>
    obtain ⟨other, others⟩ := List.forall_mem_cons.mp fresh
    rw [List.cons_append, set, if_neg other, ih others, List.cons_append]

end Entries

/-! Lines. -/

theorem skipSpace_of_stopsBefore (solid : StopsBefore isSpace text) : skipSpace text = text :=
  solid.dropWhile_eq_self

/-- Behind a value the line ends, and behind a line the next one starts. -/
theorem endLine?_lineBreak (rest : List Char) : endLine? ('\n' :: rest) = some rest := by
  rw [endLine?, skipSpace_of_stopsBefore (stopsBefore_cons (by decide))]
  rfl

theorem endLine?_eq_none {first : Char} (solid : isSpace first = false) (no_comment : first ≠ '#')
    (in_line : isInLine first) (more : List Char) : endLine? (first :: more) = none := by
  rw [endLine?, skipSpace_of_stopsBefore (stopsBefore_cons solid)]
  simp [no_comment, dropBreak?_of_isInLine in_line]

theorem readLine?_blank (draft : Draft) (rest : List Char) :
    readLine? draft ('\n' :: rest) = some (draft, rest) := by
  rw [readLine?, endLine?_lineBreak]

/-- The text of a header. -/
def headerText (name : String) : String := "[" ++ name ++ "]\n"

/-- A header opens a table behind those that there are. -/
theorem readLine?_header (bare : IsBare name) (fresh : ∀ entry ∈ draft.root, entry.1 ≠ name)
    (rest : List Char) :
    readLine? draft ((headerText name).toList ++ rest) =
      some (⟨draft.root ++ [(name, .table .header [])], [name]⟩, rest) := by
  have read : readKey? (name.toList ++ ']' :: '\n' :: rest) = some ([name], ']' :: '\n' :: rest) :=
    readKey?_bare bare (stopsBefore_cons (by decide)) (stopsBefore_cons (by decide))
  have opened : draft.open? Entries.openTable [name] =
      some ⟨draft.root ++ [(name, .table .header [])], [name]⟩ := by
    simp [Draft.open?, Entries.reach, Entries.openTable, Entries.find?_fresh fresh,
      Entries.set_fresh fresh]
  have header : readHeader? draft (name.toList ++ ']' :: '\n' :: rest) =
      some (⟨draft.root ++ [(name, .table .header [])], [name]⟩, rest) := by
    unfold readHeader?
    split
    next same => exact absurd same (bare.ne_cons (by decide) _ _)
    next => simp [read, opened, dropChar?, endLine?_lineBreak]
  have shape : (headerText name).toList ++ rest = '[' :: (name.toList ++ ']' :: '\n' :: rest) := by
    simp [headerText]
  rw [shape, readLine?, skipSpace_of_stopsBefore (stopsBefore_cons (by decide)),
    endLine?_eq_none (by decide) (by decide) (by decide)]
  exact header

/-- The text of a field. -/
def fieldText (key text : String) : String := key ++ " = " ++ text ++ "\n"

/-- A field is put behind those that its section has. -/
theorem readLine?_field {root entries : Entries} {value : Json} {text : String} (bare : IsBare key)
    (reads : ReadsAs value text.toList) (unopened : ∀ entry ∈ root, entry.1 ≠ name)
    (fresh : ∀ entry ∈ entries, entry.1 ≠ key) (rest : List Char) :
    readLine? ⟨root ++ [(name, .table .header entries)], [name]⟩ ((fieldText key text).toList ++ rest) =
      some (⟨root ++ [(name, .table .header (entries ++ [(key, .leaf value)]))], [name]⟩, rest) := by
  obtain ⟨first, tail, letters, first_bare⟩ := bare.exists_cons
  have read : readKey? (key.toList ++ ' ' :: '=' :: ' ' :: (text.toList ++ '\n' :: rest)) =
      some ([key], '=' :: ' ' :: (text.toList ++ '\n' :: rest)) :=
    readKey?_bare bare (stopsBefore_cons (by decide)) (stopsBefore_cons (by decide))
  have no_space : skipSpace (' ' :: (text.toList ++ '\n' :: rest)) = text.toList ++ '\n' :: rest :=
    skipSpace_of_stopsBefore (reads.solid.append (stopsBefore_cons (by decide)))
  have put : Entries.reach (Entries.assign value [key]) [name] (root ++ [(name, .table .header entries)]) =
      some (root ++ [(name, .table .header (entries ++ [(key, .leaf value)]))]) := by
    simp [Entries.reach, Entries.assign, Entries.find?_concat unopened, Entries.find?_fresh fresh,
      Entries.set_fresh fresh, Entries.set_concat unopened]
  have assigned : readAssignment? ⟨root ++ [(name, .table .header entries)], [name]⟩
      (key.toList ++ ' ' :: '=' :: ' ' :: (text.toList ++ '\n' :: rest)) =
      some (⟨root ++ [(name, .table .header (entries ++ [(key, .leaf value)]))], [name]⟩, rest) := by
    simp [readAssignment?, read, dropChar?, no_space, reads.read, endLine?_lineBreak, put]
  have shape : (fieldText key text).toList ++ rest =
      key.toList ++ ' ' :: '=' :: ' ' :: (text.toList ++ '\n' :: rest) := by
    simp [fieldText]
  obtain ⟨solid, in_line⟩ := isSpace_of_isBareKey first_bare
  have no_comment : first ≠ '#' := ne_of_kind first_bare (by decide)
  rw [letters] at assigned
  rw [shape, letters, List.cons_append, readLine?, skipSpace_of_stopsBefore (stopsBefore_cons solid),
    endLine?_eq_none solid no_comment in_line]
  split
  next same => simp at same
  next same _ => exact absurd (List.cons.inj same).1 (ne_of_kind first_bare (by decide))
  next => exact assigned

/-! Runs of lines. -/

/-- A text takes the reader from one draft to another, whatever follows it. -/
structure Reads (draft : Draft) (text : List Char) (last : Draft) : Prop where
  unmarked : StopsBefore (· = '\ufeff') text
  run : ∃ count ≤ text.length, ∀ fuel rest,
    readLines? (fuel + count) draft (text ++ rest) = readLines? fuel last rest

namespace Reads

theorem nil (draft : Draft) : Reads draft [] draft :=
  ⟨stopsBefore_nil, 0, Nat.le_refl _, fun _ _ => rfl⟩

theorem append (first : Reads draft text middle) (second : Reads middle more last) :
    Reads draft (text ++ more) last := by
  obtain ⟨unmarked, count, short, run⟩ := first
  obtain ⟨unmarked', count', short', run'⟩ := second
  refine ⟨unmarked.append unmarked', count' + count, ?_, fun fuel rest => ?_⟩
  · rw [List.length_append]
    omega
  · rw [← Nat.add_assoc, List.append_assoc, run, run']

/-- One line is a run. -/
theorem line (filled : text ≠ []) (unmarked : StopsBefore (· = '\ufeff') text)
    (read : ∀ rest, readLine? draft (text ++ rest) = some (last, rest)) : Reads draft text last := by
  obtain ⟨first, more, rfl⟩ := List.exists_cons_of_ne_nil filled
  refine ⟨unmarked, 1, by simp, fun fuel rest => ?_⟩
  have step := read rest
  rw [List.cons_append] at step ⊢
  rw [readLines?, step]
  · rfl
  · exact nofun

theorem blank (draft : Draft) : Reads draft "\n".toList draft :=
  .line (List.cons_ne_nil _ _) (stopsBefore_cons (by decide)) (readLine?_blank draft)

theorem header (bare : IsBare name) (fresh : ∀ entry ∈ draft.root, entry.1 ≠ name) :
    Reads draft (headerText name).toList ⟨draft.root ++ [(name, .table .header [])], [name]⟩ := by
  have shape : (headerText name).toList = '[' :: (name.toList ++ [']', '\n']) := by simp [headerText]
  refine .line ?_ ?_ (readLine?_header bare fresh)
  · rw [shape]
    exact List.cons_ne_nil _ _
  · rw [shape]
    exact stopsBefore_cons (by decide)

theorem field {root entries : Entries} {value : Json} {text : String} (bare : IsBare key)
    (reads : ReadsAs value text.toList) (unopened : ∀ entry ∈ root, entry.1 ≠ name)
    (fresh : ∀ entry ∈ entries, entry.1 ≠ key) :
    Reads ⟨root ++ [(name, .table .header entries)], [name]⟩ (fieldText key text).toList
      ⟨root ++ [(name, .table .header (entries ++ [(key, .leaf value)]))], [name]⟩ := by
  obtain ⟨first, tail, letters, first_bare⟩ := bare.exists_cons
  have shape : (fieldText key text).toList = first :: (tail ++ " = ".toList ++ text.toList ++ ['\n']) := by
    simp [fieldText, letters]
  refine .line ?_ ?_ (readLine?_field bare reads unopened fresh)
  · rw [shape]
    exact List.cons_ne_nil _ _
  · rw [shape]
    have unmarked : first ≠ '\ufeff' := ne_of_kind first_bare (by decide)
    exact stopsBefore_cons (by simpa using unmarked)

/-- A whole document is a run from the empty draft. -/
theorem parse?_eq {text : String} (reads : Reads ⟨[], []⟩ text.toList last) :
    parse? text = some (.obj (entriesToJson last.root)) := by
  obtain ⟨unmarked, count, short, run⟩ := reads
  have whole : dropByteOrderMark text.toList = text.toList := by
    unfold dropByteOrderMark
    split
    next marked => simpa using unmarked '\ufeff' (by rw [marked]; rfl)
    next => rfl
  obtain ⟨fuel, enough⟩ : ∃ fuel, text.toList.length + 1 = fuel + count :=
    ⟨text.toList.length + 1 - count, by omega⟩
  have read := run fuel []
  rw [List.append_nil] at read
  rw [parse?, whole, enough, read, readLines?]
  rfl

end Reads

/-! Parts of a document. -/

inductive Part where
  /-- What stands between a section and the one before it. -/
  | gap (name : String)
  | header (name : String)
  | field (name key : String)

def fieldPart? (name : String) (field : String × Json) : Option (Part × String) :=
  (renderValue? field.2).map fun text => (.field name field.1, fieldText field.1 text)

def sectionParts? (gap : String) (given : String × List (String × Json)) : Option (List (Part × String)) :=
  (given.2.mapM (fieldPart? given.1)).map fun fields =>
    (.gap given.1, gap) :: (.header given.1, headerText given.1) :: fields

/-- The parts of the sections behind a gap. Each section but the first one stands behind an empty line. -/
def partsAfter? (gap : String) : List (String × List (String × Json)) → Option (List (Part × String))
  | [] => some []
  | given :: rest => do
    return (← sectionParts? gap given) ++ (← partsAfter? "\n" rest)

def parts? (sections : List (String × List (String × Json))) : Option (List (Part × String)) :=
  partsAfter? "" sections

def textOf (parts : List (Part × String)) : String :=
  String.join (parts.map (·.2))

theorem textOf_sectionParts? (gap : String) (given : String × List (String × Json)) :
    (sectionParts? gap given).map textOf = (renderSection? given.1 given.2).map (gap ++ ·) := by
  have lines : given.2.mapM renderField? = (given.2.mapM (fieldPart? given.1)).map (List.map (·.2)) :=
    ListFacts.mapM_map_eq fun field _ => by
      rw [renderField?, fieldPart?, Option.map_eq_map, Option.map_map]
      rfl
  rw [sectionParts?, renderSection?, lines, Option.map_map, Option.map_map, Option.map_map]
  refine congrArg (Option.map · _) (funext fun fields => ?_)
  simp [textOf, headerText]

theorem textOf_append (parts others : List (Part × String)) :
    textOf (parts ++ others) = textOf parts ++ textOf others := by
  rw [textOf, List.map_append, String.join_append]
  rfl

theorem textOf_partsAfter?_cons (gap : String) (given : String × List (String × Json))
    (rest : List (String × List (String × Json))) :
    (partsAfter? gap (given :: rest)).map textOf =
      (renderSection? given.1 given.2).bind fun text =>
        ((partsAfter? "\n" rest).map textOf).map fun others => gap ++ text ++ others := by
  have here := textOf_sectionParts? gap given
  rw [partsAfter?]
  cases first : sectionParts? gap given with
  | none =>
    have none : renderSection? given.1 given.2 = none := by simpa [first] using here.symm
    simp [none]
  | some parts =>
    obtain ⟨text, rendered, whole⟩ : ∃ text, renderSection? given.1 given.2 = some text ∧
        gap ++ text = textOf parts := by simpa [first, eq_comm] using here
    cases partsAfter? "\n" rest with
    | none => simp [rendered]
    | some others => simp [rendered, whole, textOf_append]

theorem textOf_partsAfter? (gap : String) (given : String × List (String × Json))
    (rest : List (String × List (String × Json))) :
    (partsAfter? gap (given :: rest)).map textOf =
      ((given :: rest).mapM fun given => renderSection? given.1 given.2).map
        fun texts => gap ++ String.intercalate "\n" texts := by
  induction rest generalizing given gap with
  | nil =>
    rw [textOf_partsAfter?_cons, List.mapM_cons]
    cases renderSection? given.1 given.2 with
    | none => rfl
    | some text => simp [partsAfter?, textOf]
  | cons next rest ih =>
    rw [textOf_partsAfter?_cons, ih]
    simp only [List.mapM_cons]
    cases renderSection? given.1 given.2 with
    | none => rfl
    | some text =>
      cases renderSection? next.1 next.2 with
      | none => rfl
      | some following =>
        cases rest.mapM fun given => renderSection? given.1 given.2 with
        | none => rfl
        | some texts => simp [String.intercalate_cons_cons, String.append_assoc]

/-- The parts together are the document. -/
theorem render?_eq (sections : List (String × List (String × Json))) :
    render? sections = (parts? sections).map textOf := by
  cases sections with
  | nil => rfl
  | cons given rest =>
    rw [parts?, textOf_partsAfter?]
    simp only [String.empty_append]
    rfl

/-! What is left of a document. -/

/-- A choice of parts: with a field goes its header. -/
structure Cut where
  keeps : Part → Bool
  closed : ∀ {name key : String}, keeps (.field name key) → keeps (.header name)

namespace Cut

/-- The document without the parts that are taken out. -/
def document (cut : Cut) (parts : List (Part × String)) : String :=
  textOf (parts.filter (cut.keeps ·.1))

/-- The fields that are left of a section. -/
def fieldsOf (cut : Cut) (name : String) (fields : List (String × Json)) : List (String × Json) :=
  fields.filter (cut.keeps <| .field name ·.1)

/-- The sections that are left, with the fields that are left of them. -/
def sectionsOf (cut : Cut) (sections : List (String × List (String × Json))) :
    List (String × List (String × Json)) :=
  (sections.filter (cut.keeps <| .header ·.1)).map fun given => (given.1, cut.fieldsOf given.1 given.2)

theorem document_cons (cut : Cut) (part : Part × String) (parts : List (Part × String)) :
    cut.document (part :: parts) = (if cut.keeps part.1 then part.2 else "") ++ cut.document parts := by
  rw [document, List.filter_cons]
  split <;> simp [document, textOf]

theorem document_append (cut : Cut) (parts others : List (Part × String)) :
    cut.document (parts ++ others) = cut.document parts ++ cut.document others := by
  rw [document, List.filter_append, textOf_append]
  rfl

end Cut

/-- The entries of plain fields. -/
def leaves (fields : List (String × Json)) : Entries :=
  fields.map fun field => (field.1, .leaf field.2)

/-- The entries of sections with plain fields. -/
def tables (sections : List (String × List (String × Json))) : Entries :=
  sections.map fun given => (given.1, .table .header (leaves given.2))

theorem entriesToJson_leaves (fields : List (String × Json)) : entriesToJson (leaves fields) = fields := by
  induction fields with
  | nil => rw [leaves, List.map_nil, entriesToJson]
  | cons field rest ih =>
    rw [leaves, List.map_cons, entriesToJson, Node.toJson]
    exact congrArg _ ih

theorem entriesToJson_tables (sections : List (String × List (String × Json))) :
    entriesToJson (tables sections) = sections.map fun given => (given.1, .obj given.2) := by
  induction sections with
  | nil => rw [tables, List.map_nil, entriesToJson, List.map_nil]
  | cons given rest ih =>
    rw [tables, List.map_cons, entriesToJson, Node.toJson, entriesToJson_leaves]
    exact congrArg _ ih

theorem leaves_concat (fields : List (String × Json)) (field : String × Json) :
    leaves (fields ++ [field]) = leaves fields ++ [(field.1, .leaf field.2)] := by
  rw [leaves, List.map_append]
  rfl

theorem tables_concat (sections : List (String × List (String × Json)))
    (given : String × List (String × Json)) :
    tables (sections ++ [given]) = tables sections ++ [(given.1, .table .header (leaves given.2))] := by
  rw [tables, List.map_append]
  rfl

theorem Cut.fieldsOf_concat (cut : Cut) (name : String) (before : List (String × Json))
    (field : String × Json) :
    cut.fieldsOf name (before ++ [field]) =
      cut.fieldsOf name before ++ if cut.keeps (.field name field.1) then [field] else [] := by
  rw [fieldsOf, List.filter_append, List.filter_singleton, Bool.cond_eq_ite]
  rfl

theorem Cut.sectionsOf_concat (cut : Cut) (before : List (String × List (String × Json)))
    (given : String × List (String × Json)) :
    cut.sectionsOf (before ++ [given]) = cut.sectionsOf before ++
      if cut.keeps (.header given.1) then [(given.1, cut.fieldsOf given.1 given.2)] else [] := by
  rw [sectionsOf, List.filter_append, List.filter_singleton, Bool.cond_eq_ite, List.map_append]
  split <;> rfl

/-- Names that stand without quotes and occur once. -/
structure Names (names : List String) : Prop where
  bare : ∀ name ∈ names, IsBare name
  distinct : names.Nodup

instance (names : List String) : Decidable (Names names) :=
  decidable_of_iff (names.all (IsBare ·) ∧ names.Nodup)
    ⟨fun both => ⟨by simpa using both.1, both.2⟩, fun names => ⟨by simpa using names.bare, names.distinct⟩⟩

theorem Names.fresh {α : Type} {before rest : List (String × α)} {next : String × α}
    (names : Names ((before ++ next :: rest).map (·.1))) : ∀ earlier ∈ before, earlier.1 ≠ next.1 := by
  intro earlier member
  have distinct := names.distinct
  rw [List.map_append] at distinct
  exact (List.nodup_append.mp distinct).2.2 _ (List.mem_map_of_mem member) _ List.mem_cons_self

theorem fieldPart?_eq_some {field : String × Json} {part : Part × String}
    (written : fieldPart? name field = some part) :
    ∃ text, renderValue? field.2 = some text ∧ part = (.field name field.1, fieldText field.1 text) := by
  obtain ⟨text, rendered, rfl⟩ := Option.map_eq_some_iff.mp written
  exact ⟨text, rendered, rfl⟩

variable {cut : Cut} {root : Entries} {fields : List (String × Json)} {parts : List (Part × String)}
  {sections : List (String × List (String × Json))} {given : String × List (String × Json)} {gap : String}

/-- The fields that are left of a section are read behind those before them. -/
theorem reads_fields (cut : Cut) (before : List (String × Json))
    (unopened : ∀ entry ∈ root, entry.1 ≠ name) (names : Names ((before ++ fields).map (·.1)))
    (written : fields.mapM (fieldPart? name) = some parts) :
    Reads ⟨root ++ [(name, .table .header (leaves (cut.fieldsOf name before)))], [name]⟩
      (cut.document parts).toList
      ⟨root ++ [(name, .table .header (leaves (cut.fieldsOf name (before ++ fields))))], [name]⟩ := by
  induction fields generalizing before parts with
  | nil =>
    obtain rfl : parts = [] := by simpa using written
    rw [List.append_nil]
    exact .nil _
  | cons field rest ih =>
    obtain ⟨part, here, others, following, rfl⟩ : ∃ part, fieldPart? name field = some part ∧
        ∃ others, rest.mapM (fieldPart? name) = some others ∧ part :: others = parts := by
      simpa [Option.bind_eq_some_iff] using written
    obtain ⟨text, rendered, rfl⟩ := fieldPart?_eq_some here
    have later := ih (before ++ [field]) (by simpa using names) following
    rw [List.append_assoc, List.singleton_append] at later
    rw [Cut.document_cons, String.toList_append]
    refine .append ?_ later
    have fresh : ∀ entry ∈ leaves (cut.fieldsOf name before), entry.1 ≠ field.1 := by
      intro entry member
      obtain ⟨earlier, left, rfl⟩ := List.mem_map.mp member
      exact names.fresh earlier (List.mem_of_mem_filter left)
    rw [Cut.fieldsOf_concat]
    split
    · rw [leaves_concat]
      exact .field (names.bare _ (by simp)) (readsAs_renderValue? rendered) unopened fresh
    · rw [List.append_nil]
      exact .nil _

/-- Without its header nothing is left of a section. -/
theorem document_fields_eq_empty (closed : ¬cut.keeps (.header name))
    (written : fields.mapM (fieldPart? name) = some parts) : cut.document parts = "" := by
  have none : parts.filter (cut.keeps ·.1) = [] := by
    rw [List.filter_eq_nil_iff]
    intro part member kept
    have listed : some part ∈ fields.map (fieldPart? name) := by
      rw [ListFacts.mapM_eq_some_iff.mp written]
      exact List.mem_map_of_mem member
    obtain ⟨field, _, here⟩ := List.mem_map.mp listed
    obtain ⟨text, _, rfl⟩ := fieldPart?_eq_some here
    exact closed (cut.closed kept)
  rw [Cut.document, none]
  rfl

theorem reads_gap (blank : gap = "" ∨ gap = "\n") (draft : Draft) : Reads draft gap.toList draft := by
  rcases blank with rfl | rfl
  · exact .nil draft
  · exact .blank draft

/-- What is left of a section is read behind the sections before it. -/
theorem reads_section (cut : Cut) (done : List (String × List (String × Json)))
    (blank : gap = "" ∨ gap = "\n") (bare : IsBare given.1)
    (fresh : ∀ earlier ∈ done, earlier.1 ≠ given.1) (keys : Names (given.2.map (·.1)))
    (written : sectionParts? gap given = some parts) (current : List String) :
    ∃ current', Reads ⟨tables (cut.sectionsOf done), current⟩ (cut.document parts).toList
      ⟨tables (cut.sectionsOf (done ++ [given])), current'⟩ := by
  obtain ⟨lines, filled, rfl⟩ := Option.map_eq_some_iff.mp written
  have apart : Reads ⟨tables (cut.sectionsOf done), current⟩
      (if cut.keeps (.gap given.1) then gap else "").toList ⟨tables (cut.sectionsOf done), current⟩ :=
    reads_gap (by split <;> simp [blank]) _
  rw [Cut.document_cons, Cut.document_cons, String.toList_append, String.toList_append, Cut.sectionsOf_concat]
  by_cases kept : cut.keeps (.header given.1)
  · rw [if_pos kept, if_pos kept, tables_concat]
    have unopened : ∀ entry ∈ tables (cut.sectionsOf done), entry.1 ≠ given.1 := by
      intro entry member
      obtain ⟨_, listed, rfl⟩ := List.mem_map.mp member
      obtain ⟨earlier, left, rfl⟩ := List.mem_map.mp listed
      exact fresh earlier (List.mem_of_mem_filter left)
    have content := reads_fields cut [] unopened keys filled
    exact ⟨[given.1], apart.append ((Reads.header bare unopened).append content)⟩
  · rw [if_neg kept, if_neg kept, document_fields_eq_empty kept filled, List.append_nil]
    exact ⟨current, apart.append (.nil _)⟩

/-- What is left of the sections is read behind those before them. -/
theorem reads_sections (cut : Cut) (done : List (String × List (String × Json)))
    (blank : gap = "" ∨ gap = "\n") (names : Names ((done ++ sections).map (·.1)))
    (keys : ∀ given ∈ sections, Names (given.2.map (·.1))) (written : partsAfter? gap sections = some parts)
    (current : List String) :
    ∃ current', Reads ⟨tables (cut.sectionsOf done), current⟩ (cut.document parts).toList
      ⟨tables (cut.sectionsOf (done ++ sections)), current'⟩ := by
  induction sections generalizing done gap parts current with
  | nil =>
    obtain rfl : [] = parts := by simpa [partsAfter?] using written
    rw [List.append_nil]
    exact ⟨current, .nil _⟩
  | cons given rest ih =>
    obtain ⟨lines, here, others, following, rfl⟩ : ∃ lines, sectionParts? gap given = some lines ∧
        ∃ others, partsAfter? "\n" rest = some others ∧ lines ++ others = parts := by
      simpa [partsAfter?, Option.bind_eq_some_iff] using written
    obtain ⟨given_keys, rest_keys⟩ := List.forall_mem_cons.mp keys
    obtain ⟨middle, first⟩ := reads_section cut done blank (names.bare _ (by simp)) names.fresh
      given_keys here current
    obtain ⟨last, later⟩ := ih (done ++ [given]) (.inr rfl) (by simpa using names) rest_keys following
      middle
    rw [List.append_assoc, List.singleton_append] at later
    rw [Cut.document_append, String.toList_append]
    exact ⟨last, first.append later⟩

/-- From a document without some of its parts the sections and fields are read whose parts are left. -/
theorem parse?_document (names : Names (sections.map (·.1)))
    (keys : ∀ given ∈ sections, Names (given.2.map (·.1))) (written : parts? sections = some parts)
    (cut : Cut) :
    parse? (cut.document parts) =
      some (.obj ((cut.sectionsOf sections).map fun given => (given.1, .obj given.2))) := by
  obtain ⟨current, reads⟩ := reads_sections cut [] (.inl rfl) names keys written []
  rw [reads.parse?_eq, entriesToJson_tables]
  rfl

end MetricEngine.Toml
