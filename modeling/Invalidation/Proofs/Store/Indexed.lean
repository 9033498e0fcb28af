import Invalidation.Proofs.Store.Facts

/-! The indices of a store list exactly what its facts say, after any sequence of changes, and only
stored nodes are marked. The indices are what a walk follows, and the facts are what it is supposed
to follow.
-/

namespace Invalidation

namespace Store

/-- The indices of a store agree with its facts, as the keys of its units do, and nothing is listed
twice.
-/
structure Indexed (store : Store) : Prop extends Synced store where
  usersDistinct : store.users.Distinct
  dependentsDistinct : store.dependents.Distinct
  users
    : ∀ {key unit},
        unit ∈ store.users.values key
        ↔ ∃ fact ∈ store.factsOf unit, fact.key = key ∧ fact.isDefinition = false
  dependents
    : ∀ {node key},
        key ∈ store.dependents.values node
        ↔ ∃ fact ∈ store.factsOf node.unit, fact.key = key ∧ node.key ∈ fact.dependsOn

theorem indexed_empty : empty.Indexed where
  toSynced := synced_empty
  usersDistinct := fun _ => .nil
  dependentsDistinct := fun _ => .nil
  users := by
    intro key unit
    simp [empty, factsOf, keysOf, Index.values, Table.empty, Table.get?, Table.find?]
  dependents := by
    intro node key
    simp [empty, factsOf, keysOf, Index.values, Table.empty, Table.get?, Table.find?]

theorem Indexed.withMarks {store : Store} (indexed : store.Indexed) (marked : List NodeRef)
    : Indexed { store with marked } :=
  ⟨indexed.toSynced.withMarks marked, indexed.usersDistinct, indexed.dependentsDistinct,
    indexed.users, indexed.dependents⟩

/-- Some key of a list, taken in a unit, is a node exactly when the node is of that unit and has
such a key.
-/
theorem exists_ref_eq_iff {keys : List Key} {unit : UnitName} {node : NodeRef}
    : (∃ key ∈ keys, (⟨key, unit⟩ : NodeRef) = node) ↔ node.unit = unit ∧ node.key ∈ keys := by
  constructor
  · intro given
    obtain ⟨key, member, rfl⟩ := given
    exact ⟨rfl, member⟩
  · intro given
    obtain ⟨sameUnit, member⟩ := given
    exact ⟨node.key, member, by rw [← sameUnit]⟩

/-- Where a node is dropped, the index of uses loses its entry. A definition has no entry to lose,
since no use shares its key.
-/
theorem Indexed.mem_users_drop {store : Store} (indexed : store.Indexed) {node : NodeRef}
    {fact : Fact} (found : store.fact? node = some fact) {key : Key} {unit : UnitName}
    : unit ∈ (store.drop node).users.values key
      ↔ unit ∈ store.users.values key ∧ ¬(unit = node.unit ∧ node.key = key) := by
  obtain ⟨member, factKey⟩ := indexed.mem_of_fact? found
  simp only [Store.drop, found]
  split
  · rename_i isDefinition
    refine ⟨fun listed => ⟨listed, ?_⟩, And.left⟩
    intro given
    obtain ⟨rfl, rfl⟩ := given
    obtain ⟨other, otherMember, sameKey, isUse⟩ := indexed.users.1 listed
    rw [indexed.unique otherMember member (sameKey.trans factKey.symm)] at isUse
    simp [isUse] at isDefinition
  · exact Index.mem_values_unfile indexed.usersDistinct

/-- Where a node is dropped, the index of edges loses what leads from the node. -/
theorem Indexed.mem_dependents_drop {store : Store} (indexed : store.Indexed) {node : NodeRef}
    {fact : Fact} (found : store.fact? node = some fact) {target : NodeRef} {key : Key}
    : key ∈ (store.drop node).dependents.values target
      ↔ key ∈ store.dependents.values target
        ∧ ¬(key = node.key ∧ target.unit = node.unit ∧ target.key ∈ fact.dependsOn) := by
  simp only [Store.drop, found]
  rw [Index.mem_values_unfileAll indexed.dependentsDistinct, exists_ref_eq_iff]

/-- Dropping a node takes out of the indices exactly what its fact put there. -/
theorem Indexed.drop {store : Store} (indexed : store.Indexed) (node : NodeRef)
    : (store.drop node).Indexed := by
  cases found : store.fact? node with
  | none => rwa [drop_of_fact?_eq_none found]
  | some fact =>
      obtain ⟨member, factKey⟩ := indexed.mem_of_fact? found
      refine ⟨indexed.toSynced.drop node, ?_, ?_, ?_, ?_⟩
      · simp only [Store.drop, found]
        split
        · exact indexed.usersDistinct
        · exact indexed.usersDistinct.unfile node.key node.unit
      · simp only [Store.drop, found]
        exact indexed.dependentsDistinct.unfileAll _ _ _
      · intro key unit
        rw [indexed.mem_users_drop found, indexed.users]
        simp only [indexed.mem_factsOf_drop]
        constructor
        · intro given
          obtain ⟨⟨other, otherMember, sameKey, isUse⟩, kept⟩ := given
          exact ⟨other, ⟨otherMember, fun same => kept ⟨same.1, same.2.symm.trans sameKey⟩⟩,
            sameKey, isUse⟩
        · intro given
          obtain ⟨other, ⟨otherMember, kept⟩, sameKey, isUse⟩ := given
          exact ⟨⟨other, otherMember, sameKey, isUse⟩,
            fun same => kept ⟨same.1, sameKey.trans same.2.symm⟩⟩
      · intro target key
        rw [indexed.mem_dependents_drop found, indexed.dependents]
        simp only [indexed.mem_factsOf_drop]
        constructor
        · intro given
          obtain ⟨⟨other, otherMember, sameKey, depends⟩, kept⟩ := given
          refine ⟨other, ⟨otherMember, ?_⟩, sameKey, depends⟩
          intro given
          obtain ⟨sameUnit, otherKey⟩ := given
          have same := indexed.unique (sameUnit ▸ otherMember) member
            (otherKey.trans factKey.symm)
          exact kept ⟨sameKey.symm.trans otherKey, sameUnit, same ▸ depends⟩
        · intro given
          obtain ⟨other, ⟨otherMember, kept⟩, sameKey, depends⟩ := given
          exact ⟨⟨other, otherMember, sameKey, depends⟩,
            fun same => kept ⟨same.2.1, sameKey.trans same.1⟩⟩

theorem mem_users_add {store : Store} {owner unit : UnitName} {fact : Fact} {key : Key}
    : unit ∈ (store.add owner fact).users.values key
      ↔ unit ∈ store.users.values key
        ∨ (unit = owner ∧ fact.key = key ∧ fact.isDefinition = false) := by
  simp only [Store.add]
  split
  · rename_i isDefinition
    simp [isDefinition]
  · rename_i isUse
    simp [Index.mem_values_file, isUse]

theorem mem_dependents_add {store : Store} {owner : UnitName} {fact : Fact} {target : NodeRef}
    {key : Key}
    : key ∈ (store.add owner fact).dependents.values target
      ↔ key ∈ store.dependents.values target
        ∨ (key = fact.key ∧ target.unit = owner ∧ target.key ∈ fact.dependsOn) := by
  simp only [Store.add]
  rw [Index.mem_values_fileAll, exists_ref_eq_iff]

/-- Adding a fact whose key is not stored files exactly what it says. -/
theorem Indexed.add {store : Store} (indexed : store.Indexed) {unit : UnitName} {fact : Fact}
    (absent : ¬store.contains (fact.refIn unit))
    : (store.add unit fact).Indexed := by
  refine ⟨indexed.toSynced.add unit fact, ?_, ?_, ?_, ?_⟩
  · simp only [Store.add]
    split
    · exact indexed.usersDistinct
    · exact indexed.usersDistinct.file fact.key unit
  · exact indexed.dependentsDistinct.fileAll _ _ _
  · intro key other
    rw [mem_users_add, indexed.users]
    simp only [indexed.mem_factsOf_add absent]
    constructor
    · intro given
      rcases given with ⟨old, member, sameKey, isUse⟩ | ⟨sameUnit, sameKey, isUse⟩
      · exact ⟨old, .inl member, sameKey, isUse⟩
      · exact ⟨fact, .inr ⟨sameUnit, rfl⟩, sameKey, isUse⟩
    · intro given
      obtain ⟨old, member | ⟨sameUnit, rfl⟩, sameKey, isUse⟩ := given
      · exact .inl ⟨old, member, sameKey, isUse⟩
      · exact .inr ⟨sameUnit, sameKey, isUse⟩
  · intro target key
    rw [mem_dependents_add, indexed.dependents]
    simp only [indexed.mem_factsOf_add absent]
    constructor
    · intro given
      rcases given with ⟨old, member, sameKey, depends⟩ | ⟨sameKey, sameUnit, depends⟩
      · exact ⟨old, .inl member, sameKey, depends⟩
      · exact ⟨fact, .inr ⟨sameUnit, rfl⟩, sameKey.symm, depends⟩
    · intro given
      obtain ⟨old, member | ⟨sameUnit, rfl⟩, sameKey, depends⟩ := given
      · exact .inl ⟨old, member, sameKey, depends⟩
      · exact .inr ⟨sameKey.symm, sameUnit, depends⟩

/-- Storing a fact in the place of any other keeps the indices in step: the old fact leaves before
the new one comes.
-/
theorem Indexed.put {store : Store} (indexed : store.Indexed) (unit : UnitName) (fact : Fact)
    : (store.put unit fact).Indexed := by
  apply (indexed.drop (fact.refIn unit)).add
  exact fun stored => (contains_drop.1 stored).2 rfl

theorem Indexed.putAll {store : Store} (indexed : store.Indexed) (unit : UnitName)
    (facts : List Fact)
    : (store.putAll unit facts).Indexed :=
  putAll_induction (fun indexed fact => indexed.put unit fact) indexed facts

theorem Indexed.dropAll {store : Store} (indexed : store.Indexed) (unit : UnitName)
    (facts : List Fact)
    : (store.dropAll unit facts).Indexed :=
  dropAll_induction (fun indexed fact => indexed.drop (fact.refIn unit)) indexed facts

/-- Neither index has an entry without values. -/
structure Compact (store : Store) : Prop where
  users : store.users.Inhabited
  dependents : store.dependents.Inhabited

theorem compact_empty : empty.Compact := by
  constructor <;> exact fun _ found => nomatch found

theorem Compact.drop {store : Store} (compact : store.Compact) (node : NodeRef)
    : (store.drop node).Compact := by
  unfold Store.drop
  split
  · exact compact
  · refine ⟨?_, compact.dependents.unfileAll _ _ _⟩
    dsimp only
    split
    · exact compact.users
    · exact compact.users.unfile node.key node.unit

theorem Compact.add {store : Store} (compact : store.Compact) (unit : UnitName) (fact : Fact)
    : (store.add unit fact).Compact := by
  refine ⟨?_, compact.dependents.fileAll _ _ _⟩
  unfold Store.add
  dsimp only
  split
  · exact compact.users
  · exact compact.users.file fact.key unit

theorem Compact.putAll {store : Store} (compact : store.Compact) (unit : UnitName)
    (facts : List Fact)
    : (store.putAll unit facts).Compact :=
  putAll_induction (fun compact fact => (compact.drop (fact.refIn unit)).add unit fact) compact
    facts

theorem Compact.dropAll {store : Store} (compact : store.Compact) (unit : UnitName)
    (facts : List Fact)
    : (store.dropAll unit facts).Compact :=
  dropAll_induction (fun compact fact => compact.drop (fact.refIn unit)) compact facts

/-- Only stored nodes are marked. -/
def MarksStored (store : Store) : Prop := ∀ ref ∈ store.marked, store.contains ref

/-- A dropped node loses its mark with the rest. -/
theorem MarksStored.drop {store : Store} (stored : store.MarksStored) (node : NodeRef)
    : (store.drop node).MarksStored := by
  intro ref marked
  cases found : store.fact? node with
  | none =>
      simp only [Store.drop, found] at marked ⊢
      exact stored ref marked
  | some fact =>
      simp only [Store.drop, found] at marked
      obtain ⟨marked, different⟩ := List.mem_filter.1 marked
      exact contains_drop.2 ⟨stored ref marked, by simpa using different⟩

theorem MarksStored.put {store : Store} (stored : store.MarksStored) (unit : UnitName)
    (fact : Fact)
    : (store.put unit fact).MarksStored := by
  intro ref marked
  exact contains_add.2 (.inl (stored.drop (fact.refIn unit) ref marked))

theorem MarksStored.putAll {store : Store} (stored : store.MarksStored) (unit : UnitName)
    (facts : List Fact)
    : (store.putAll unit facts).MarksStored :=
  putAll_induction (fun stored fact => stored.put unit fact) stored facts

theorem MarksStored.dropAll {store : Store} (stored : store.MarksStored) (unit : UnitName)
    (facts : List Fact)
    : (store.dropAll unit facts).MarksStored :=
  dropAll_induction (fun stored fact => stored.drop (fact.refIn unit)) stored facts

/-- Taking a node out marks nothing, and neither does storing one. -/
theorem mem_marked_of_drop {store : Store} {node ref : NodeRef}
    (marked : ref ∈ (store.drop node).marked)
    : ref ∈ store.marked := by
  unfold drop at marked
  split at marked
  · exact marked
  · exact List.mem_of_mem_filter marked

theorem mem_marked_of_putAll {store : Store} {unit : UnitName} {facts : List Fact}
    {ref : NodeRef} (marked : ref ∈ (store.putAll unit facts).marked)
    : ref ∈ store.marked :=
  putAll_induction (motive := (ref ∈ ·.marked → ref ∈ store.marked))
    (fun before _ marked => before (mem_marked_of_drop marked)) id facts marked

theorem mem_marked_of_dropAll {store : Store} {unit : UnitName} {facts : List Fact}
    {ref : NodeRef} (marked : ref ∈ (store.dropAll unit facts).marked)
    : ref ∈ store.marked :=
  dropAll_induction (motive := (ref ∈ ·.marked → ref ∈ store.marked))
    (fun before _ marked => before (mem_marked_of_drop marked)) id facts marked

theorem MarksStored.unmark {store : Store} (stored : store.MarksStored) (nodes : List NodeRef)
    : (store.unmark nodes).MarksStored :=
  fun ref marked => stored ref (List.mem_of_mem_filter marked)

end Store

end Invalidation
