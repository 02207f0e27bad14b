import MetricEngine.Series.Trigger

/-!
Notification keys tell alerts apart. A key can be read back if neither the keys nor the values of the
arguments have a semicolon and the keys have no colon: semicolons divide it into entries, and the first colon
of an entry ends its key.
-/
namespace MetricEngine

/-- No character of the arguments stands where it would be read as a separator, and none is a slash, which
would be lost. Values may have colons. -/
def Trigger.Separable (args : Table String) : Prop :=
  ∀ entry ∈ args.entries,
    (':' ∉ entry.1.toList ∧ ';' ∉ entry.1.toList ∧ '/' ∉ entry.1.toList) ∧
      ';' ∉ entry.2.toList ∧ '/' ∉ entry.2.toList

instance (args : Table String) : Decidable (Trigger.Separable args) :=
  inferInstanceAs (Decidable (∀ entry ∈ args.entries,
    (':' ∉ entry.1.toList ∧ ';' ∉ entry.1.toList ∧ '/' ∉ entry.1.toList) ∧
      ';' ∉ entry.2.toList ∧ '/' ∉ entry.2.toList))

namespace NotificationKey
open Trigger

/-- How an argument is written in a key. -/
def entryText (entry : String × String) : List Char :=
  entry.1.toList ++ ':' :: entry.2.toList

/-- The first colon ends the key. -/
def readEntry (text : List Char) : String × String :=
  (.ofList (text.takeWhile (· ≠ ':')), .ofList ((text.dropWhile (· ≠ ':')).drop 1))

/-- The arguments that a key stands for. Only that of no arguments is empty. -/
def read (text : List Char) : List (String × String) :=
  if text.isEmpty then [] else (text.splitOn ';').map readEntry

theorem readEntry_entryText {entry : String × String} (plain : ':' ∉ entry.1.toList) :
    readEntry (entryText entry) = entry := by
  have before : ∀ c ∈ entry.1.toList, decide (c ≠ ':') = true := by
    intro c member
    rw [decide_eq_true_eq]
    rintro rfl
    exact plain member
  rw [readEntry, entryText, List.takeWhile_append_of_pos before, List.dropWhile_append_of_pos before]
  simp

theorem slash_not_mem_pathSafe (s : String) : '/' ∉ (pathSafe s).toList := by
  rw [pathSafe, String.toList_ofList, List.mem_map]
  rintro ⟨c, _, same⟩
  split at same
  next => simp at same
  next other => exact other same

theorem pathSafe_of_no_slash {s : String} (none : '/' ∉ s.toList) : pathSafe s = s := by
  have kept : s.toList.map (fun c => if c = '/' then '.' else c) = s.toList := by
    refine (List.map_congr_left fun c member => ?_).trans (List.map_id _)
    rw [if_neg, id]
    rintro rfl
    exact none member
  rw [pathSafe, kept, String.ofList_toList]

theorem not_mem_intercalate {c separator : Char} (other : c ≠ separator) {texts : List (List Char)}
    (absent : ∀ text ∈ texts, c ∉ text) : c ∉ [separator].intercalate texts := by
  induction texts with
  | nil => simp
  | cons text rest ih =>
    obtain ⟨head, tail⟩ := List.forall_mem_cons.mp absent
    cases rest with
    | nil => simpa using head
    | cons next rest =>
      rw [List.intercalate_cons_cons]
      simp [head, other, ih tail]

theorem intercalate_entries_ne_nil (entry : String × String) (rest : List (List Char)) :
    [';'].intercalate (entryText entry :: rest) ≠ [] := by
  cases rest with
  | nil => simp [entryText]
  | cons next rest => simp [entryText, List.intercalate_cons_cons]

variable {args : Table String}

/-- Reading gives back the entries that were written. -/
theorem read_entries (separable : Separable args) :
    read ([';'].intercalate (args.entries.map entryText)) = args.entries := by
  rw [Separable] at separable
  generalize args.entries = entries at separable
  cases entries with
  | nil => rfl
  | cons first rest =>
    have given : ([';'].intercalate ((first :: rest).map entryText)).isEmpty = false := by
      simpa using intercalate_entries_ne_nil first (rest.map entryText)
    have no_semicolon : ∀ text ∈ (first :: rest).map entryText, ';' ∉ text := by
      intro text member
      obtain ⟨entry, listed, rfl⟩ := List.mem_map.mp member
      obtain ⟨⟨_, key, _⟩, value, _⟩ := separable entry listed
      simp [entryText, key, value]
    have each : ∀ entry ∈ first :: rest, (readEntry ∘ entryText) entry = id entry :=
      fun entry listed => readEntry_entryText (separable entry listed).1.1
    rw [read, given, List.splitOn_intercalate ';' no_semicolon (by simp), List.map_map,
      List.map_congr_left each, List.map_id]
    rfl

/-- The arguments have no slash that would have to be replaced. -/
theorem toList_notificationKey {trigger : Trigger} (separable : Separable trigger.args) :
    trigger.notificationKey.toList = [';'].intercalate (trigger.args.entries.map entryText) := by
  have joined : (String.intercalate ";" (trigger.args.entries.map fun entry =>
      entry.1 ++ ":" ++ entry.2)).toList = [';'].intercalate (trigger.args.entries.map entryText) := by
    rw [String.toList_intercalate, List.map_map]
    congr 1
    exact List.map_congr_left fun entry _ => by simp [entryText]
  have no_slash : '/' ∉ [';'].intercalate (trigger.args.entries.map entryText) := by
    refine not_mem_intercalate (by decide) fun text member => ?_
    obtain ⟨entry, listed, rfl⟩ := List.mem_map.mp member
    obtain ⟨⟨_, _, key⟩, _, value⟩ := separable entry listed
    simp [entryText, key, value]
  rw [notificationKey, pathSafe_of_no_slash (joined ▸ no_slash), joined]

end NotificationKey

/-- No notification key has a slash. Triggers whose arguments can be told apart from the separators have one
key exactly if they have the same arguments. -/
theorem notification_keys_separate_alerts :
    (∀ trigger : Trigger, '/' ∉ trigger.notificationKey.toList) ∧
    ∀ a b : Trigger, Trigger.Separable a.args → Trigger.Separable b.args →
      (a.notificationKey = b.notificationKey ↔ a.args = b.args) := by
  refine ⟨fun trigger => NotificationKey.slash_not_mem_pathSafe _, fun a b first second => ?_⟩
  constructor
  · intro same
    have entries : a.args.entries = b.args.entries := by
      rw [← NotificationKey.read_entries first, ← NotificationKey.read_entries second,
        ← NotificationKey.toList_notificationKey first, same,
        NotificationKey.toList_notificationKey second]
    rw [← Table.ofList_entries a.args, entries, Table.ofList_entries]
  · intro same
    rw [Trigger.notificationKey, Trigger.notificationKey, same]

/-- A trigger of an alert with some arguments. -/
def firingFor (args : List (String × String)) : Trigger :=
  ⟨.epoch, none, "", .ofList args, .empty⟩

/-- A colon more in a value, and an argument without key and value beside no argument at all. -/
theorem colon_more_other_key :
    let port := firingFor [("host", "a:80"), ("", "")]
    let colon := firingFor [("host", "a:80"), ("", ":")]
    let blank := firingFor [("", "")]
    let bare := firingFor []
    (Trigger.Separable port.args ∧ Trigger.Separable colon.args ∧
      port.notificationKey = ":;host:a:80" ∧ colon.notificationKey = "::;host:a:80" ∧
      port.notificationKey ≠ colon.notificationKey) ∧
    Trigger.Separable blank.args ∧ Trigger.Separable bare.args ∧
      blank.notificationKey ≠ bare.notificationKey := by
  intro port colon blank bare
  obtain ⟨_, separates⟩ := notification_keys_separate_alerts
  have port_separable : Trigger.Separable port.args := by decide
  have colon_separable : Trigger.Separable colon.args := by decide
  have blank_separable : Trigger.Separable blank.args := by decide
  have bare_separable : Trigger.Separable bare.args := by decide
  refine ⟨⟨port_separable, colon_separable, by decide, by decide, ?_⟩, blank_separable,
    bare_separable, ?_⟩
  · rw [Ne, separates port colon port_separable colon_separable]
    decide
  · rw [Ne, separates blank bare blank_separable bare_separable]
    decide

end MetricEngine
