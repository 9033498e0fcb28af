import Invalidation.Proofs.Store.Facts

/-! Stores that hold the same facts and list the same in their indices. They may differ in their
marks, and every change does the same to both.
-/

namespace Invalidation

namespace Store

variable {left middle right : Store}

-----------------------------------------------------------------------------------------
-- The same nodes
-----------------------------------------------------------------------------------------

/-- Two stores know the same units with the same keys, each in the same order, and store the same
fact for each node.
-/
structure SameNodes (left right : Store) : Prop where
  units : left.units = right.units
  fact? : ∀ node, left.fact? node = right.fact? node

namespace SameNodes

theorem refl (store : Store) : store.SameNodes store := ⟨rfl, fun _ => rfl⟩

theorem symm (same : left.SameNodes right) : right.SameNodes left :=
  ⟨same.units.symm, fun node => (same.fact? node).symm⟩

theorem trans (before : left.SameNodes middle) (after : middle.SameNodes right)
    : left.SameNodes right :=
  ⟨before.units.trans after.units, fun node => (before.fact? node).trans (after.fact? node)⟩

theorem unitNames (same : left.SameNodes right) : left.unitNames = right.unitNames := by
  rw [Store.unitNames, Store.unitNames, same.units]

theorem keysOf (same : left.SameNodes right) (unit : UnitName)
    : left.keysOf unit = right.keysOf unit := by
  rw [Store.keysOf, Store.keysOf, same.units]

theorem factsOf (same : left.SameNodes right) (unit : UnitName)
    : left.factsOf unit = right.factsOf unit := by
  rw [Store.factsOf, Store.factsOf, same.keysOf, funext same.fact?]

theorem contains (same : left.SameNodes right) (node : NodeRef)
    : left.contains node = right.contains node := by
  rw [Store.contains, Store.contains, same.fact?]

theorem node? (same : left.SameNodes right) (node : NodeRef)
    : left.node? node = right.node? node := by
  rw [Store.node?, Store.node?, same.fact?]

theorem nodeCount (same : left.SameNodes right) : left.nodeCount = right.nodeCount :=
  Table.length_entries_of_get?_eq same.fact?

theorem drop (same : left.SameNodes right) (node : NodeRef)
    : (left.drop node).SameNodes (right.drop node) := by
  constructor
  · cases found : left.fact? node with
    | none =>
        rw [drop_of_fact?_eq_none found, drop_of_fact?_eq_none (same.fact? node ▸ found)]
        exact same.units
    | some fact => rw [units_drop found, units_drop (same.fact? node ▸ found), same.units]
  · intro other
    rw [fact?_drop, fact?_drop, same.fact?]

theorem add (same : left.SameNodes right) (unit : UnitName) (fact : Fact)
    : (left.add unit fact).SameNodes (right.add unit fact) := by
  constructor
  · simp only [Store.add, same.units]
  · intro node
    rw [fact?_add, fact?_add, same.fact?]

end SameNodes

/-- A unit that has the same facts in two stores has the same fact for each node. -/
theorem Synced.fact?_congr (leftSynced : left.Synced) (rightSynced : right.Synced) {unit : UnitName}
    (facts : left.factsOf unit = right.factsOf unit) (node : NodeRef) (owned : node.unit = unit)
    : left.fact? node = right.fact? node := by
  subst owned
  ext fact
  rw [leftSynced.fact?_eq_some_iff, rightSynced.fact?_eq_some_iff, facts]

/-- What is stored is given by the units in their order and by the facts of each. -/
theorem Synced.sameNodes (leftSynced : left.Synced) (rightSynced : right.Synced)
    (names : left.unitNames = right.unitNames)
    (facts : ∀ unit, left.factsOf unit = right.factsOf unit)
    : left.SameNodes right := by
  have keysOf (unit : UnitName) : left.keysOf unit = right.keysOf unit := by
    rw [← leftSynced.map_key_factsOf, ← rightSynced.map_key_factsOf, facts]
  constructor
  · refine Table.eq_of_get?_eq names fun unit => ?_
    by_cases known : unit ∈ left.unitNames
    · obtain ⟨leftKeys, leftFound⟩ :=
        Option.isSome_iff_exists.1 (Table.contains_iff_mem_keys.2 known)
      obtain ⟨rightKeys, rightFound⟩ :=
        Option.isSome_iff_exists.1 (Table.contains_iff_mem_keys.2 (names ▸ known))
      have same := keysOf unit
      rw [Store.keysOf, Store.keysOf, leftFound, rightFound] at same
      rw [leftFound, rightFound]
      exact congrArg some same
    · have unknown : unit ∉ right.unitNames := names ▸ known
      rw [Table.get?_eq_none_iff.2 known, Table.get?_eq_none_iff.2 unknown]
  · exact fun node => leftSynced.fact?_congr rightSynced (facts node.unit) node rfl

-----------------------------------------------------------------------------------------
-- The same nodes and indices
-----------------------------------------------------------------------------------------

/-- Two stores have the same facts in the same order, and indices that list the same. -/
structure Alike (left right : Store) : Prop extends SameNodes left right where
  users : left.users.Alike right.users
  dependents : left.dependents.Alike right.dependents

/-- Marks change neither what is stored nor what is listed. -/
theorem alike_withMarks (store : Store) (marked : List NodeRef)
    : Alike { store with marked } store :=
  ⟨⟨rfl, fun _ => rfl⟩, fun _ => rfl, fun _ => rfl⟩

theorem Alike.symm (alike : left.Alike right) : right.Alike left where
  toSameNodes := alike.toSameNodes.symm
  users := fun key => (alike.users key).symm
  dependents := fun node => (alike.dependents node).symm

theorem Alike.trans (before : left.Alike middle) (after : middle.Alike right)
    : left.Alike right where
  toSameNodes := before.toSameNodes.trans after.toSameNodes
  users := fun key => (before.users key).trans (after.users key)
  dependents := fun node => (before.dependents node).trans (after.dependents node)

theorem Alike.drop (alike : left.Alike right) (node : NodeRef)
    : (left.drop node).Alike (right.drop node) := by
  have nodes := alike.toSameNodes.drop node
  have same := alike.fact? node
  cases found : left.fact? node with
  | none =>
      rw [found] at same
      rwa [drop_of_fact?_eq_none found, drop_of_fact?_eq_none same.symm]
  | some fact =>
      rw [found] at same
      refine ⟨nodes, ?_, ?_⟩
      · simp only [Store.drop, found, ← same]
        split
        · exact alike.users
        · exact alike.users.unfile node.key node.unit
      · simp only [Store.drop, found, ← same]
        exact alike.dependents.unfileAll _ _ _

theorem Alike.add (alike : left.Alike right) (unit : UnitName) (fact : Fact)
    : (left.add unit fact).Alike (right.add unit fact) := by
  refine ⟨alike.toSameNodes.add unit fact, ?_, alike.dependents.fileAll _ _ _⟩
  simp only [Store.add]
  split
  · exact alike.users
  · exact alike.users.file fact.key unit

theorem Alike.putAll (alike : left.Alike right) (unit : UnitName)
    (facts : List Fact)
    : (left.putAll unit facts).Alike (right.putAll unit facts) := by
  induction facts generalizing left right with
  | nil => exact alike
  | cons fact rest ih => exact ih ((alike.drop (fact.refIn unit)).add unit fact)

theorem Alike.dropAll (alike : left.Alike right) (unit : UnitName)
    (facts : List Fact)
    : (left.dropAll unit facts).Alike (right.dropAll unit facts) := by
  induction facts generalizing left right with
  | nil => exact alike
  | cons fact rest ih => exact ih (alike.drop (fact.refIn unit))

end Store

end Invalidation
