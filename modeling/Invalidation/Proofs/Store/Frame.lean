import Invalidation.Proofs.Store.Facts

/-! What one unit has in a store: its facts and the dependents of its nodes, each in their order. A
change on behalf of another unit leaves that alone, and a change on behalf of the unit depends on
nothing else.
-/

namespace Invalidation

namespace Store

variable {unit : UnitName} {store left middle right : Store}

-----------------------------------------------------------------------------------------
-- Dependents of one node
-----------------------------------------------------------------------------------------

/-- An added fact comes last among the dependents of its targets. -/
theorem dependents_add (store : Store) (owner : UnitName) (fact : Fact) (node : NodeRef)
    : (store.add owner fact).dependents.values node
      = (fact.dependsOn.filter fun target => (⟨target, owner⟩ : NodeRef) = node).foldl
          (fun keys _ => addLast keys fact.key) (store.dependents.values node) :=
  Index.values_fileAll ..

/-- A dropped fact is taken out of the dependents of its targets. -/
theorem dependents_drop {node : NodeRef} {fact : Fact} (found : store.fact? node = some fact)
    (target : NodeRef)
    : (store.drop node).dependents.values target
      = (fact.dependsOn.filter fun key => (⟨key, node.unit⟩ : NodeRef) = target).foldl
          (fun keys _ => keys.erase node.key) (store.dependents.values target) := by
  simp only [drop, found]
  exact Index.values_unfileAll ..

/-- No edge of one unit leads to a node of another. -/
theorem filter_target_eq_nil {owner : UnitName} {node : NodeRef} (elsewhere : owner ≠ node.unit)
    (targets : List Key)
    : targets.filter (fun target => (⟨target, owner⟩ : NodeRef) = node) = [] := by
  apply List.filter_eq_nil_iff.2
  intro target _ same
  exact elsewhere (congrArg NodeRef.unit (of_decide_eq_true same))

-----------------------------------------------------------------------------------------
-- Stores that are alike at one unit
-----------------------------------------------------------------------------------------

/-- Two stores have the same keys of a unit in the same order, the same facts for its nodes, and list
the same dependents of them in the same order.
-/
structure AlikeAt (unit : UnitName) (left right : Store) : Prop where
  keysOf : left.keysOf unit = right.keysOf unit
  fact? : ∀ node, node.unit = unit → left.fact? node = right.fact? node
  dependents
    : ∀ node, node.unit = unit → left.dependents.values node = right.dependents.values node

namespace AlikeAt

theorem refl (unit : UnitName) (store : Store) : AlikeAt unit store store :=
  ⟨rfl, fun _ _ => rfl, fun _ _ => rfl⟩

theorem symm (alike : AlikeAt unit left right) : AlikeAt unit right left where
  keysOf := alike.keysOf.symm
  fact? := fun node owned => (alike.fact? node owned).symm
  dependents := fun node owned => (alike.dependents node owned).symm

theorem trans (first : AlikeAt unit left middle) (second : AlikeAt unit middle right)
    : AlikeAt unit left right where
  keysOf := first.keysOf.trans second.keysOf
  fact? := fun node owned => (first.fact? node owned).trans (second.fact? node owned)
  dependents := fun node owned =>
    (first.dependents node owned).trans (second.dependents node owned)

theorem factsOf (alike : AlikeAt unit left right) : left.factsOf unit = right.factsOf unit := by
  rw [Store.factsOf, Store.factsOf, alike.keysOf]
  exact List.filterMap_congr fun key _ => alike.fact? ⟨key, unit⟩ rfl

/-- Dropping a fact of the unit does the same to both. -/
theorem drop (alike : AlikeAt unit left right) (fact : Fact)
    : AlikeAt unit (left.drop (fact.refIn unit)) (right.drop (fact.refIn unit)) := by
  have same := alike.fact? (fact.refIn unit) rfl
  constructor
  · rw [keysOf_drop, keysOf_drop, contains, contains, same, alike.keysOf]
  · intro node owned
    rw [fact?_drop, fact?_drop, alike.fact? node owned]
  · intro node owned
    cases found : right.fact? (fact.refIn unit) with
    | none =>
        rw [drop_of_fact?_eq_none (same.trans found), drop_of_fact?_eq_none found]
        exact alike.dependents node owned
    | some old =>
        rw [dependents_drop (same.trans found), dependents_drop found, alike.dependents node owned]

/-- Adding a fact to the unit does the same to both. -/
theorem add (alike : AlikeAt unit left right) (fact : Fact)
    : AlikeAt unit (left.add unit fact) (right.add unit fact) := by
  constructor
  · rw [keysOf_add, keysOf_add, alike.keysOf]
  · intro node owned
    rw [fact?_add, fact?_add, alike.fact? node owned]
  · intro node owned
    rw [dependents_add, dependents_add, alike.dependents node owned]

theorem putAll (alike : AlikeAt unit left right) (facts : List Fact)
    : AlikeAt unit (left.putAll unit facts) (right.putAll unit facts) := by
  induction facts generalizing left right with
  | nil => exact alike
  | cons fact rest ih => exact ih ((alike.drop fact).add fact)

theorem dropAll (alike : AlikeAt unit left right) (facts : List Fact)
    : AlikeAt unit (left.dropAll unit facts) (right.dropAll unit facts) := by
  induction facts generalizing left right with
  | nil => exact alike
  | cons fact rest ih => exact ih (alike.drop fact)

end AlikeAt

-----------------------------------------------------------------------------------------
-- Changes elsewhere
-----------------------------------------------------------------------------------------

variable {owner : UnitName}

theorem alikeAt_drop (elsewhere : owner ≠ unit) (store : Store) (fact : Fact)
    : AlikeAt unit (store.drop (fact.refIn owner)) store := by
  constructor
  · rw [keysOf_drop, if_neg fun given => elsewhere given.1.symm]
  · intro node owned
    rw [fact?_drop, if_neg]
    rintro rfl
    exact elsewhere owned
  · intro node owned
    cases found : store.fact? (fact.refIn owner) with
    | none => rw [drop_of_fact?_eq_none found]
    | some old =>
        rw [dependents_drop found, filter_target_eq_nil (owned ▸ elsewhere), List.foldl_nil]

theorem alikeAt_add (elsewhere : owner ≠ unit) (store : Store) (fact : Fact)
    : AlikeAt unit (store.add owner fact) store := by
  constructor
  · rw [keysOf_add, if_neg (Ne.symm elsewhere)]
  · intro node owned
    rw [fact?_add, if_neg]
    rintro rfl
    exact elsewhere owned
  · intro node owned
    rw [dependents_add, filter_target_eq_nil (owned ▸ elsewhere), List.foldl_nil]

/-- Storing facts of another unit changes nothing of this one. -/
theorem alikeAt_putAll (elsewhere : owner ≠ unit) (store : Store) (facts : List Fact)
    : AlikeAt unit (store.putAll owner facts) store :=
  putAll_induction (motive := (AlikeAt unit · store))
    (fun alike fact =>
      ((alikeAt_add elsewhere _ fact).trans (alikeAt_drop elsewhere _ fact)).trans alike)
    (.refl unit store) facts

/-- Dropping facts of another unit changes nothing of this one. -/
theorem alikeAt_dropAll (elsewhere : owner ≠ unit) (store : Store) (facts : List Fact)
    : AlikeAt unit (store.dropAll owner facts) store :=
  dropAll_induction (motive := (AlikeAt unit · store))
    (fun alike fact => (alikeAt_drop elsewhere _ fact).trans alike) (.refl unit store) facts

end Store

end Invalidation
