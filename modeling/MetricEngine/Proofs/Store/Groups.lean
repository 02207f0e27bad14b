import Mathlib.Data.List.Induction
import MetricEngine.Proofs.ListFacts
import MetricEngine.Store.Memory

/-!
The groups of a query. The stored series that a metric asks for are told apart by the values of the grouping
tags alone: for each tuple of values that some of them carry there is one group, and it has all of those.
-/
namespace MetricEngine

/-- A stored series that a metric asks for, with the values of its grouping tags. -/
structure StoredSeries.Contributes (metric : Metric) (tuple : List String) (stored : StoredSeries) :
    Prop where
  name : stored.name = metric.name
  /-- A filtered tag must have one of the listed values. -/
  wanted : ∀ tag values, metric.tags.get? tag = some values →
    ∃ value ∈ values, stored.tags.get? tag = some value
  carries : metric.groupBy.map stored.tags.get? = tuple.map some

namespace StoredSeries
variable {metric : Metric} {tuple : List String} {stored : StoredSeries}

theorem matchesMetric_iff : stored.matchesMetric metric ↔ stored.name = metric.name ∧
    ∀ tag values, metric.tags.get? tag = some values →
      ∃ value ∈ values, stored.tags.get? tag = some value := by
  simp only [matchesMetric, Bool.and_eq_true, decide_eq_true_eq, List.all_eq_true, Prod.forall,
    Table.get?_eq_some_iff]
  refine and_congr_right fun _ => forall_congr' fun tag => forall_congr' fun values => ?_
  refine imp_congr_right fun _ => ?_
  simp only [← Table.get?_eq_some_iff]
  cases stored.tags.get? tag <;> simp

theorem contributes_iff : stored.Contributes metric tuple ↔
    stored.matchesMetric metric ∧ stored.groupKey? metric.groupBy = some tuple := by
  rw [matchesMetric_iff, groupKey?, ListFacts.mapM_eq_some_iff]
  constructor
  · rintro ⟨name, wanted, carries⟩
    exact ⟨⟨name, wanted⟩, carries⟩
  · rintro ⟨⟨name, wanted⟩, carries⟩
    exact ⟨name, wanted, carries⟩

instance : Decidable (stored.Contributes metric tuple) :=
  decidable_of_iff _ contributes_iff.symm

/-- Series contribute to one answer exactly if they agree on all grouping tags. -/
theorem Contributes.same_iff {other : StoredSeries} {tuple' : List String}
    (first : stored.Contributes metric tuple) (second : other.Contributes metric tuple') :
    tuple = tuple' ↔ ∀ tag ∈ metric.groupBy, stored.tags.get? tag = other.tags.get? tag := by
  rw [← List.map_inj_left, first.carries, second.carries]
  exact (List.map_inj_right fun _ _ => Option.some.inj).symm

end StoredSeries

namespace Metric

/-- The members of the groups with a key. -/
def membersAt (key : List String) (groups : List Group) : List StoredSeries :=
  (groups.filter (·.key = key)).flatMap (·.members)

theorem membersAt_cons (key : List String) (group : Group) (rest : List Group) :
    membersAt key (group :: rest) = (if group.key = key then group.members else []) ++ membersAt key rest := by
  by_cases here : group.key = key <;> simp [membersAt, here]

theorem membersAt_of_absent {key : List String} {groups : List Group}
    (absent : ∀ group ∈ groups, group.key ≠ key) : membersAt key groups = [] := by
  have none : groups.filter (·.key = key) = [] := by
    apply List.filter_eq_nil_iff.mpr
    intro group member
    simpa using absent group member
  rw [membersAt, none]
  rfl

/-- What groups have made of series that were put into them. -/
structure Gathers (tags : List String) (series : List StoredSeries) (groups : List Group) : Prop where
  ascending : groups.Pairwise fun a b => a.key < b.key
  filled : ∀ group ∈ groups, group.members ≠ []
  members : ∀ key, membersAt key groups = series.filter (·.groupKey? tags = some key)

section Join
variable {key : List String} {series : StoredSeries} {groups : List Group}

theorem joinGroup_filled (filled : ∀ group ∈ groups, group.members ≠ []) :
    ∀ group ∈ joinGroup key series groups, group.members ≠ [] := by
  induction groups with
  | nil => simp [joinGroup]
  | cons group rest ih =>
    obtain ⟨first, others⟩ := List.forall_mem_cons.mp filled
    unfold joinGroup
    split
    next => exact List.forall_mem_cons.mpr ⟨by simp, filled⟩
    next =>
      split
      next => exact List.forall_mem_cons.mpr ⟨by simp, others⟩
      next => exact List.forall_mem_cons.mpr ⟨first, ih others⟩

theorem key_of_mem_joinGroup {group : Group} (member : group ∈ joinGroup key series groups) :
    group.key = key ∨ ∃ old ∈ groups, old.key = group.key := by
  induction groups with
  | nil =>
    obtain rfl := List.mem_singleton.mp member
    exact .inl rfl
  | cons first rest ih =>
    unfold joinGroup at member
    split at member
    next =>
      rcases List.mem_cons.mp member with rfl | old
      · exact .inl rfl
      · exact .inr ⟨group, old, rfl⟩
    next =>
      split at member
      next here =>
        rcases List.mem_cons.mp member with rfl | old
        · exact .inl here.symm
        · exact .inr ⟨group, List.mem_cons_of_mem _ old, rfl⟩
      next =>
        rcases List.mem_cons.mp member with rfl | later
        · exact .inr ⟨group, List.mem_cons_self, rfl⟩
        · rcases ih later with new | ⟨old, listed, same⟩
          · exact .inl new
          · exact .inr ⟨old, List.mem_cons_of_mem _ listed, same⟩

theorem joinGroup_ascending (ascending : groups.Pairwise fun a b => a.key < b.key) :
    (joinGroup key series groups).Pairwise fun a b => a.key < b.key := by
  induction ascending with
  | nil => exact List.pairwise_singleton _ _
  | @cons first rest above tail ih =>
    unfold joinGroup
    split
    next before =>
      refine List.pairwise_cons.mpr ⟨fun group member => ?_, List.pairwise_cons.mpr ⟨above, tail⟩⟩
      rcases List.mem_cons.mp member with rfl | later
      · exact before
      · exact Std.lt_trans before (above group later)
    next not_before =>
      split
      next here => exact List.pairwise_cons.mpr ⟨above, tail⟩
      next elsewhere =>
        refine List.pairwise_cons.mpr ⟨fun group member => ?_, ih⟩
        rcases key_of_mem_joinGroup member with new | ⟨old, listed, same⟩
        · rw [new]
          exact Std.lt_of_le_of_ne (Std.not_lt.mp not_before) (Ne.symm elsewhere)
        · exact same ▸ above old listed

theorem keys_ne_of_lt {first : Group} (before : key < first.key)
    (above : ∀ group ∈ groups, first.key < group.key) : ∀ group ∈ first :: groups, group.key ≠ key := by
  intro group member same
  rcases List.mem_cons.mp member with rfl | later
  · exact Std.lt_irrefl (same ▸ before)
  · exact Std.lt_irrefl (same ▸ Std.lt_trans before (above group later))

/-- A series that joins becomes the last member at its key. -/
theorem membersAt_joinGroup (ascending : groups.Pairwise fun a b => a.key < b.key)
    (other : List String) : membersAt other (joinGroup key series groups) =
      membersAt other groups ++ if key = other then [series] else [] := by
  induction ascending with
  | nil =>
    rw [joinGroup, membersAt_cons]
    exact List.append_nil _
  | @cons first rest above tail ih =>
    unfold joinGroup
    split
    next before =>
      rw [membersAt_cons]
      by_cases same : key = other
      · subst same
        simp [membersAt_of_absent (keys_ne_of_lt before above)]
      · simp [same]
    next =>
      split
      next here =>
        rw [membersAt_cons, membersAt_cons]
        by_cases same : key = other
        · subst same
          have absent : ∀ group ∈ rest, group.key ≠ key := by
            intro group member is_key
            exact Std.lt_irrefl (is_key.trans here ▸ above group member)
          simp [membersAt_of_absent absent, ← here]
        · simp [← here, same]
      next => rw [membersAt_cons, ih, membersAt_cons, List.append_assoc]

end Join

section Groups
variable {tags : List String} {series : List StoredSeries} {groups : List Group} {metric : Metric}

theorem Gathers.join (gathers : Gathers tags series groups) {last : StoredSeries} {key : List String}
    (carries : last.groupKey? tags = some key) :
    Gathers tags (series ++ [last]) (joinGroup key last groups) where
  ascending := joinGroup_ascending gathers.ascending
  filled := joinGroup_filled gathers.filled
  members other := by
    rw [membersAt_joinGroup gathers.ascending, gathers.members, List.filter_append]
    by_cases same : key = other <;> simp [carries, same]

theorem Gathers.skip (gathers : Gathers tags series groups) {last : StoredSeries}
    (lacks : last.groupKey? tags = none) : Gathers tags (series ++ [last]) groups where
  ascending := gathers.ascending
  filled := gathers.filled
  members other := by
    rw [gathers.members, List.filter_append]
    simp [lacks]

/-- The groups of a metric gather the stored series that match it. -/
theorem groups_gather (metric : Metric) (held : List StoredSeries) :
    Gathers metric.groupBy (held.filter (·.matchesMetric metric)) (metric.groups held) := by
  rw [groups]
  generalize held.filter (·.matchesMetric metric) = matched
  induction matched using List.reverseRecOn with
  | nil => exact ⟨.nil, by simp, fun _ => rfl⟩
  | append_singleton matched last ih =>
    rw [List.foldl_append, List.foldl_cons, List.foldl_nil]
    split
    next key carries => exact ih.join carries
    next lacks => exact ih.skip lacks

/-- The stored series that contribute to the answer for a tuple. -/
def contributors (metric : Metric) (held : List StoredSeries) (tuple : List String) :
    List StoredSeries :=
  held.filter (·.Contributes metric tuple)

theorem membersAt_groups (metric : Metric) (held : List StoredSeries) (tuple : List String) :
    membersAt tuple (metric.groups held) = metric.contributors held tuple := by
  rw [(groups_gather metric held).members, List.filter_filter, contributors]
  refine List.filter_congr fun stored _ => ?_
  rw [Bool.eq_iff_iff]
  simp [StoredSeries.contributes_iff, and_comm]

theorem members_of_mem_groups {held : List StoredSeries} {group : Group}
    (member : group ∈ metric.groups held) : group.members = metric.contributors held group.key := by
  have gathers := groups_gather metric held
  rw [← membersAt_groups]
  obtain ⟨before, after, split⟩ := List.append_of_mem member
  have ascending := gathers.ascending
  rw [split] at ascending ⊢
  obtain ⟨_, behind, across⟩ := List.pairwise_append.mp ascending
  have front : membersAt group.key before = [] := membersAt_of_absent fun other listed =>
    fun same => Std.lt_irrefl (same ▸ across other listed group List.mem_cons_self)
  have back : membersAt group.key after = [] := membersAt_of_absent fun other listed =>
    fun same => Std.lt_irrefl (same ▸ (List.pairwise_cons.mp behind).1 other listed)
  have cut : membersAt group.key (before ++ group :: after) =
      membersAt group.key before ++ membersAt group.key (group :: after) := by
    simp [membersAt]
  rw [cut, membersAt_cons, front, back]
  simp

/-- There is a group for each tuple to which a stored series contributes. -/
theorem mem_groups_keys_iff {held : List StoredSeries} {tuple : List String} :
    tuple ∈ (metric.groups held).map (·.key) ↔ ∃ stored ∈ held, stored.Contributes metric tuple := by
  have given : metric.contributors held tuple ≠ [] ↔
      ∃ stored ∈ held, stored.Contributes metric tuple := by
    simp [contributors, List.filter_eq_nil_iff]
  rw [← given]
  constructor
  · intro listed
    obtain ⟨group, member, rfl⟩ := List.mem_map.mp listed
    rw [← members_of_mem_groups member]
    exact (groups_gather metric held).filled group member
  · intro some_contribute
    rw [← membersAt_groups] at some_contribute
    by_contra absent
    apply some_contribute
    apply membersAt_of_absent
    intro group member same
    exact absent (List.mem_map.mpr ⟨group, member, same⟩)

end Groups

end Metric
end MetricEngine
