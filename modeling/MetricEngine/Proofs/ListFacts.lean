import Mathlib.Data.List.Nodup

/-!
Facts on lists that the library does not have: maps whose function may have no value, lists without
their repetitions, the elements that sorting keeps in order, and rules that each element keeps toward those
before it.
-/
namespace MetricEngine.ListFacts
variable {α β : Type}

/-- A partial map has a result exactly when the function has a value on every element. -/
theorem mapM_eq_some_iff {f : α → Option β} {xs : List α} {ys : List β} :
    xs.mapM f = some ys ↔ xs.map f = ys.map some := by
  induction xs generalizing ys with
  | nil => cases ys <;> simp
  | cons x xs ih =>
    simp only [List.mapM_cons, Option.bind_eq_bind, Option.pure_def, Option.bind_eq_some_iff,
      Option.some.injEq, List.map_cons]
    constructor
    · rintro ⟨y, head, rest, tail, rfl⟩
      simp only [List.map_cons, head, ih.mp tail]
    · intro same
      cases ys with
      | nil => simp at same
      | cons y ys =>
        obtain ⟨head, tail⟩ := List.cons.inj same
        exact ⟨y, head, ys, ih.mpr tail, rfl⟩

theorem mapM_isSome_iff {f : α → Option β} {xs : List α} :
    (xs.mapM f).isSome ↔ ∀ x ∈ xs, (f x).isSome := by
  induction xs with
  | nil => simp
  | cons x xs ih =>
    cases head : f x with
    | none => simp [head]
    | some y => simp [head, ← ih, Option.isSome_bind]

theorem mapM_congr {f g : α → Option β} {xs : List α} (same : ∀ x ∈ xs, f x = g x) :
    xs.mapM f = xs.mapM g := by
  induction xs with
  | nil => rfl
  | cons x xs ih =>
    simp only [List.mapM_cons, same x List.mem_cons_self,
      ih fun y member => same y (List.mem_cons_of_mem _ member)]

/-- Applying a function to each value that a map gives, in the map or behind it. -/
theorem mapM_map_eq {m : Type → Type} [Monad m] [LawfulMonad m] {γ : Type} {f : α → m β} {g : α → m γ}
    {h : β → γ} {xs : List α} (same : ∀ x ∈ xs, g x = h <$> f x) : xs.mapM g = List.map h <$> xs.mapM f := by
  induction xs with
  | nil => simp
  | cons x xs ih =>
    have rest := ih fun y member => same y (List.mem_cons_of_mem _ member)
    simp only [List.mapM_cons, rest, same x List.mem_cons_self, bind_map_left, map_bind, map_pure,
      List.map_cons]

theorem mapM_except_ok {ε : Type} {f : α → Except ε β} {g : α → β} {xs : List α}
    (succeeds : ∀ x ∈ xs, f x = .ok (g x)) : xs.mapM f = .ok (xs.map g) := by
  induction xs with
  | nil => rfl
  | cons x xs ih =>
    rw [List.mapM_cons, succeeds x List.mem_cons_self,
      ih fun y member => succeeds y (List.mem_cons_of_mem _ member)]
    rfl

theorem nodup_eraseDups [BEq α] [LawfulBEq α] (xs : List α) : xs.eraseDups.Nodup := by
  match xs with
  | [] => simp
  | x :: xs =>
    rw [List.eraseDups_cons, List.nodup_cons]
    refine ⟨?_, nodup_eraseDups _⟩
    simp [List.mem_eraseDups]
termination_by xs.length
decreasing_by
  have := List.length_filter_le (fun b => !b == x) xs
  simp only [List.length_cons]
  omega

/-- An element behind a list is dropped if the list has it. -/
theorem eraseDups_concat [BEq α] [LawfulBEq α] (xs : List α) (last : α) :
    (xs ++ [last]).eraseDups = if last ∈ xs then xs.eraseDups else xs.eraseDups ++ [last] := by
  rw [List.eraseDups_append]
  by_cases known : last ∈ xs <;> simp [List.removeAll, List.eraseDups_cons, known]

/-- A function that keeps elements apart may be applied before repetitions are dropped. -/
theorem eraseDups_map [BEq α] [LawfulBEq α] [BEq β] [LawfulBEq β] {f : α → β}
    (injective : Function.Injective f) (xs : List α) : (xs.map f).eraseDups = xs.eraseDups.map f := by
  match xs with
  | [] => simp
  | x :: xs =>
    have others : (xs.map f).filter (fun y => !y == f x) = (xs.filter fun y => !y == x).map f := by
      rw [List.filter_map]
      congr 1
      refine List.filter_congr fun y _ => ?_
      have apart : (f y == f x) = (y == x) := by
        rw [Bool.eq_iff_iff, beq_iff_eq, beq_iff_eq, injective.eq_iff]
      rw [Function.comp_apply, apart]
    rw [List.map_cons, List.eraseDups_cons, List.eraseDups_cons, List.map_cons, others,
      eraseDups_map injective]
termination_by xs.length
decreasing_by
  have := List.length_filter_le (fun y => !y == x) xs
  simp only [List.length_cons]
  omega

theorem mem_take_concat {xs : List α} {last x : α} {n : Nat} (member : x ∈ (xs ++ [last]).take n) :
    x ∈ xs.take n ∨ x = last := by
  rw [List.take_append] at member
  rcases List.mem_append.mp member with front | back
  · exact .inl front
  · exact .inr (List.mem_singleton.mp (List.mem_of_mem_take back))

/-- Without one element the others move up by one place at most. -/
theorem mem_take_erase [BEq α] [LawfulBEq α] {xs : List α} {gone x : α} {n : Nat}
    (member : x ∈ (xs.erase gone).take n) : x ∈ xs.take (n + 1) := by
  induction xs generalizing n with
  | nil => simp at member
  | cons head tail ih =>
    rw [List.take_succ_cons]
    rw [List.erase_cons] at member
    split at member
    · exact List.mem_cons_of_mem _ member
    · cases n with
      | zero => simp at member
      | succ n =>
        rw [List.take_succ_cons] at member
        rcases List.mem_cons.mp member with rfl | member
        · exact List.mem_cons_self
        · exact List.mem_cons_of_mem _ (ih member)

theorem countP_lt_countP {p q : α → Bool} {xs : List α} (weaker : ∀ x ∈ xs, p x → q x) {x : α}
    (member : x ∈ xs) (fails : p x = false) (holds : q x) : xs.countP p < xs.countP q := by
  obtain ⟨before, after, rfl⟩ := List.append_of_mem member
  have front : before.countP p ≤ before.countP q :=
    List.countP_mono_left fun y found => weaker y (List.mem_append_left _ found)
  have back : after.countP p ≤ after.countP q :=
    List.countP_mono_left fun y found => weaker y (by simp [found])
  rw [List.countP_append, List.countP_append, List.countP_cons_of_neg (by simp [fails]),
    List.countP_cons_of_pos holds]
  omega

/-- If two counts differ on one element only, they differ by one at most. -/
theorem countP_le_succ {p q : α → Bool} {xs : List α} (distinct : xs.Nodup) {x : α}
    (same : ∀ y ∈ xs, y ≠ x → p y → q y) : xs.countP p ≤ xs.countP q + 1 := by
  induction distinct with
  | nil => simp
  | @cons y ys fresh _ ih =>
    rw [List.countP_cons, List.countP_cons]
    by_cases here : y = x
    · have rest : ys.countP p ≤ ys.countP q := List.countP_mono_left fun z member =>
        same z (List.mem_cons_of_mem _ member) (here ▸ (fresh z member).symm)
      split <;> omega
    · have rest := ih fun z member => same z (List.mem_cons_of_mem _ member)
      have kept := same y List.mem_cons_self here
      split
      next counted =>
        rw [if_pos (kept counted)]
        omega
      next => omega

/-- Two lists are cut at one place if all elements before it are of a kind and none behind it. -/
theorem append_inj_of_kind (kind : α → Prop) {front front' back back' : List α}
    (same : front ++ back = front' ++ back') (fronts : ∀ x ∈ front, kind x) (backs : ∀ x ∈ back, ¬kind x)
    (fronts' : ∀ x ∈ front', kind x) (backs' : ∀ x ∈ back', ¬kind x) : front = front' ∧ back = back' := by
  rcases List.append_eq_append_iff.mp same with ⟨more, rfl, rfl⟩ | ⟨more, rfl, rfl⟩
  · cases more with
    | nil => simp
    | cons x rest => exact absurd (fronts' x (by simp)) (backs x (by simp))
  · cases more with
    | nil => simp
    | cons x rest => exact absurd (fronts x (by simp)) (backs' x (by simp))

section Sorting
variable {κ : Type} [LE κ] [Std.IsLinearPreorder κ] {key : α → κ} {le : α → α → Bool}

theorem pairwise_mergeSort_of_key (compares : ∀ a b, le a b ↔ key a ≤ key b) (xs : List α) :
    (xs.mergeSort le).Pairwise fun a b => key a ≤ key b := by
  have sorted : (xs.mergeSort le).Pairwise fun a b => le a b := List.pairwise_mergeSort
    (fun a b c => by simpa [compares] using Std.le_trans)
    (fun a b => by simpa [compares] using Std.le_total) xs
  exact sorted.imp fun before => (compares _ _).mp before

/-- Elements with one key keep their order. -/
theorem mergeSort_of_same_key (compares : ∀ a b, le a b ↔ key a ≤ key b) {xs : List α} {k : κ}
    (same : ∀ x ∈ xs, key x = k) : xs.mergeSort le = xs := by
  refine List.mergeSort_of_pairwise (List.pairwise_of_forall_mem_list fun a a_there b b_there => ?_)
  rw [compares, same a a_there, same b b_there]
  exact Std.le_refl k

/-- Some of the elements of a list are sorted as the list is. -/
theorem filter_mergeSort (compares : ∀ a b, le a b ↔ key a ≤ key b) (p : α → Bool) (xs : List α) :
    (xs.mergeSort le).filter p = (xs.filter p).mergeSort le := by
  have trans : ∀ a b c, le a b → le b c → le a c := fun a b c => by simpa [compares] using Std.le_trans
  have total : ∀ a b, le a b || le b a := fun a b => by simpa [compares] using Std.le_total
  induction xs with
  | nil => simp
  | cons x xs ih =>
    obtain ⟨before, after, sorted, rest, later⟩ := List.mergeSort_cons trans total x xs
    rw [rest, List.filter_append] at ih
    rw [sorted, List.filter_append]
    by_cases kept : p x
    · rw [List.filter_cons_of_pos kept, List.filter_cons_of_pos kept]
      obtain ⟨before', after', sorted', rest', later'⟩ := List.mergeSort_cons trans total x (xs.filter p)
      rw [sorted']
      have after_le : ∀ y ∈ after, le x y := by
        have ordered := sorted ▸ List.pairwise_mergeSort trans total (x :: xs)
        exact (List.pairwise_cons.mp (List.pairwise_append.mp ordered).2.1).1
      have after_le' : ∀ y ∈ after', le x y := by
        have ordered := sorted' ▸ List.pairwise_mergeSort trans total (x :: xs.filter p)
        exact (List.pairwise_cons.mp (List.pairwise_append.mp ordered).2.1).1
      obtain ⟨fronts, backs⟩ := append_inj_of_kind (fun y => ¬le x y) (ih.trans rest')
        (fun y member => by simpa using later y (List.mem_of_mem_filter member))
        (fun y member => by simpa using after_le y (List.mem_of_mem_filter member))
        (fun y member => by simpa using later' y member)
        (fun y member => by simpa using after_le' y member)
      rw [fronts, backs]
    · rw [List.filter_cons_of_neg kept, List.filter_cons_of_neg kept, ih]

end Sorting

theorem findSome?_cons_or {f : α → Option β} {x : α} {xs : List α} :
    (x :: xs).findSome? f = (f x).or (xs.findSome? f) := by
  rw [List.findSome?_cons]
  cases f x <;> rfl

/-- Lists whose elements are related one for one to those of a third list between them. -/
theorem forall₂_trans {γ : Type} {first : α → β → Prop} {second : β → γ → Prop} {both : α → γ → Prop}
    (compose : ∀ x y z, first x y → second y z → both x z) {xs : List α} {ys : List β} {zs : List γ}
    (near : List.Forall₂ first xs ys) (far : List.Forall₂ second ys zs) : List.Forall₂ both xs zs := by
  induction near generalizing zs with
  | nil =>
    cases far
    exact .nil
  | cons head _ ih =>
    cases far with
    | cons head' tail' => exact .cons (compose _ _ _ head head') (ih tail')

/-- Of all elements for which a test holds, the one that is found stands first. -/
theorem find?_first {rule : α → α → Prop} {xs : List α} {test : α → Bool} {x y : α}
    (ordered : xs.Pairwise rule) (found : xs.find? test = some x) (member : y ∈ xs) (holds : test y) :
    y = x ∨ rule x y := by
  obtain ⟨_, before, after, rfl, fails⟩ := List.find?_eq_some_iff_append.mp found
  rcases List.mem_append.mp member with early | late
  · have fails := fails y early
    simp [holds] at fails
  · rcases List.mem_cons.mp late with same | after_x
    · exact .inl same
    · exact .inr (List.rel_of_pairwise_cons (List.pairwise_append.mp ordered).2.1 after_x)

/-- Every element keeps a rule toward the elements before it. -/
def EachAfter (rule : List α → α → Prop) (xs : List α) : Prop :=
  ∀ before x after, xs = before ++ x :: after → rule before x

theorem EachAfter.nil {rule : List α → α → Prop} : EachAfter rule [] := by
  intro before x after split
  simp at split

theorem EachAfter.concat {rule : List α → α → Prop} {xs : List α} {last : α}
    (kept : EachAfter rule xs) (holds : rule xs last) : EachAfter rule (xs ++ [last]) := by
  intro before x after split
  rcases List.eq_nil_or_concat after with rfl | ⟨front, final, rfl⟩
  · obtain ⟨rfl, same⟩ := List.append_inj' split rfl
    obtain rfl : last = x := by simpa using same
    exact holds
  · have split : xs ++ [last] = (before ++ x :: front) ++ [final] := by simpa using split
    exact kept before x front (List.append_inj' split rfl).1

/-- An element that stands somewhere in a list in a given relation to the elements before it. -/
def SomeAfter (rule : List α → α → Prop) (xs : List α) (x : α) : Prop :=
  ∃ before after, xs = before ++ x :: after ∧ rule before x

theorem SomeAfter.nil {rule : List α → α → Prop} {x : α} : ¬SomeAfter rule [] x := by
  rintro ⟨before, after, split, _⟩
  simp at split

theorem SomeAfter.mem {rule : List α → α → Prop} {xs : List α} {x : α}
    (found : SomeAfter rule xs x) : x ∈ xs := by
  obtain ⟨before, after, rfl, _⟩ := found
  simp

theorem SomeAfter.append_right {rule : List α → α → Prop} {xs : List α} {x : α}
    (found : SomeAfter rule xs x) (ys : List α) : SomeAfter rule (xs ++ ys) x := by
  obtain ⟨before, after, rfl, holds⟩ := found
  exact ⟨before, after ++ ys, by simp, holds⟩

theorem SomeAfter.of_append {rule : List α → α → Prop} {xs ys : List α} {x : α}
    (found : SomeAfter rule (xs ++ ys) x) : SomeAfter rule xs x ∨ x ∈ ys := by
  obtain ⟨before, after, split, holds⟩ := found
  rcases List.append_eq_append_iff.mp split with ⟨more, rfl, rfl⟩ | ⟨more, rfl, rest⟩
  · simp
  · cases more with
    | nil =>
      obtain rfl : x :: after = ys := rest
      exact .inr List.mem_cons_self
    | cons head tail =>
      obtain ⟨rfl, rfl⟩ := List.cons.inj rest
      exact .inl ⟨before, tail, rfl, holds⟩

theorem SomeAfter.concat_iff {rule : List α → α → Prop} {xs : List α} {last x : α} :
    SomeAfter rule (xs ++ [last]) x ↔ SomeAfter rule xs x ∨ x = last ∧ rule xs last := by
  constructor
  · rintro ⟨before, after, split, holds⟩
    rcases List.eq_nil_or_concat after with rfl | ⟨front, final, rfl⟩
    · obtain ⟨rfl, same⟩ := List.append_inj' split rfl
      obtain rfl : last = x := by simpa using same
      exact .inr ⟨rfl, holds⟩
    · have split : xs ++ [last] = (before ++ x :: front) ++ [final] := by simpa using split
      exact .inl ⟨before, front, (List.append_inj' split rfl).1, holds⟩
  · rintro (⟨before, after, rfl, holds⟩ | ⟨rfl, holds⟩)
    · exact ⟨before, after ++ [last], by simp, holds⟩
    · exact ⟨xs, [], rfl, holds⟩

theorem SomeAfter.concat_of_not {rule : List α → α → Prop} {xs : List α} {last x : α}
    (fails : ¬rule xs last) : SomeAfter rule (xs ++ [last]) x ↔ SomeAfter rule xs x := by
  rw [SomeAfter.concat_iff]
  constructor
  · rintro (before | ⟨_, holds⟩)
    · exact before
    · exact absurd holds fails
  · exact .inl

end MetricEngine.ListFacts
