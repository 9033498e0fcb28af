import Invalidation.Proofs.Store.Synced
import Mathlib.Algebra.Ring.Nat

/-! The facts of a unit after nodes are stored and taken out, said without the indices, where the keys
of units and the stored nodes agree. Marks never change what is stored, and one unit's facts never
change with another's.
-/

namespace Invalidation

/-- Only uses cascade. -/
theorem Fact.cascades_of_isDefinition {fact : Fact} (provided : fact.isDefinition = true)
    : fact.role.cascades = false := by
  cases role : fact.role with
  | definition => rfl
  | use cascades => simp [isDefinition, role, Role.isDefinition] at provided

namespace Store

variable {store : Store}

/-- A found node is the found fact in the unit asked for. -/
theorem node?_eq_some_iff {node : NodeRef} {found : Node}
    : store.node? node = some found
      ↔ store.fact? node = some found.toFact ∧ found.unit = node.unit := by
  cases stored : store.fact? node with
  | none => simp [node?, stored]
  | some fact =>
      simp only [node?, stored, Option.map_some, Option.some.injEq]
      constructor
      · rintro rfl
        exact ⟨rfl, rfl⟩
      · intro given
        obtain ⟨rfl, sameUnit⟩ := given
        rw [← sameUnit]

-----------------------------------------------------------------------------------------
-- Facts after one change
-----------------------------------------------------------------------------------------

/-- A dropped node leaves the keys of its unit, if it was among them. -/
theorem Synced.keysOf_drop (synced : store.Synced) (node : NodeRef)
    : (store.drop node).keysOf node.unit = (store.keysOf node.unit).filter (· ≠ node.key) := by
  have erased : (store.keysOf node.unit).erase node.key
      = (store.keysOf node.unit).filter (· ≠ node.key) := by
    rw [(synced.distinct _).erase_eq_filter]
    apply List.filter_congr
    intro key _
    by_cases same : key = node.key <;> simp [same]
  rw [← erased, Store.keysOf_drop]
  split
  · rfl
  · rename_i unstored
    exact (List.erase_of_not_mem fun listed => unstored ⟨rfl, (synced.listed _).1 listed⟩).symm

/-- Dropping a node removes its key from its unit's facts. -/
theorem Synced.factsOf_drop (synced : store.Synced) (node : NodeRef) (unit : UnitName)
    : (store.drop node).factsOf unit
      = if unit = node.unit then (store.factsOf unit).filter (·.key ≠ node.key)
        else store.factsOf unit := by
  split
  · rename_i same
    subst same
    rw [factsOf, factsOf, synced.keysOf_drop, List.filterMap_filter, List.filter_filterMap]
    refine List.filterMap_congr fun key _ => ?_
    rw [fact?_drop]
    cases found : store.fact? ⟨key, node.unit⟩ with
    | none => simp
    | some fact =>
        have sameKey : fact.key = key := key_of_fact? found
        by_cases dropped : key = node.key <;> simp [Option.filter, NodeRef.eq_iff, sameKey, dropped]
  · rename_i elsewhere
    rw [factsOf, factsOf, Store.keysOf_drop, if_neg fun given => elsewhere given.1]
    refine List.filterMap_congr fun key _ => ?_
    rw [fact?_drop, if_neg fun same => elsewhere (congrArg NodeRef.unit same)]

/-- An added fact comes last among its unit's facts, where none with its key is stored. -/
theorem Synced.factsOf_add (synced : store.Synced) {owner : UnitName} {fact : Fact}
    (absent : ¬store.contains (fact.refIn owner)) (unit : UnitName)
    : (store.add owner fact).factsOf unit
      = if unit = owner then store.factsOf unit ++ [fact] else store.factsOf unit := by
  have others {keys : List Key} (other : ∀ key ∈ keys, (⟨key, unit⟩ : NodeRef) ≠ fact.refIn owner)
      : keys.filterMap (fun key => (store.add owner fact).fact? ⟨key, unit⟩)
        = keys.filterMap fun key => store.fact? ⟨key, unit⟩ := by
    refine List.filterMap_congr fun key listed => ?_
    rw [fact?_add, if_neg (other key listed)]
  split
  · rename_i same
    subst same
    have unlisted : fact.key ∉ store.keysOf unit := mt (synced.listed (fact.refIn unit)).1 absent
    rw [factsOf, keysOf_add, if_pos rfl, addLast, if_neg unlisted, List.filterMap_append, others,
      ← factsOf]
    · simp [fact?_add, Fact.refIn]
    · intro key listed same
      obtain rfl : key = fact.key := congrArg NodeRef.key same
      exact unlisted listed
  · rename_i elsewhere
    rw [factsOf, keysOf_add, if_neg elsewhere, others, ← factsOf]
    exact fun key _ same => elsewhere (congrArg NodeRef.unit same)

/-- Storing a fact moves its key to the end of its unit's facts, with the new content. -/
theorem Synced.factsOf_put (synced : store.Synced) (owner : UnitName) (fact : Fact)
    (unit : UnitName)
    : (store.put owner fact).factsOf unit
      = if unit = owner then (store.factsOf unit).filter (·.key ≠ fact.key) ++ [fact]
        else store.factsOf unit := by
  have absent : ¬(store.drop (fact.refIn owner)).contains (fact.refIn owner) :=
    fun stored => (contains_drop.1 stored).2 rfl
  rw [Store.put, (synced.drop _).factsOf_add absent, synced.factsOf_drop]
  by_cases same : unit = owner
  · simp only [same, Fact.refIn_unit, ↓reduceIte]
    rfl
  · simp only [same, Fact.refIn_unit, ↓reduceIte]

theorem Synced.mem_factsOf_drop (synced : store.Synced) {node : NodeRef} {unit : UnitName}
    {fact : Fact}
    : fact ∈ (store.drop node).factsOf unit
      ↔ fact ∈ store.factsOf unit ∧ ¬(unit = node.unit ∧ fact.key = node.key) := by
  rw [synced.factsOf_drop]
  split
  · rename_i same
    simp [same]
  · rename_i different
    simp [different]

theorem Synced.mem_factsOf_add (synced : store.Synced) {owner unit : UnitName} {fact old : Fact}
    (absent : ¬store.contains (fact.refIn owner))
    : old ∈ (store.add owner fact).factsOf unit
      ↔ old ∈ store.factsOf unit ∨ (unit = owner ∧ old = fact) := by
  rw [synced.factsOf_add absent]
  split
  · rename_i same
    simp [same]
  · rename_i different
    simp [different]

-----------------------------------------------------------------------------------------
-- Facts after many changes
-----------------------------------------------------------------------------------------

/-- Storing facts with distinct keys puts them last, in order, after the facts with other keys. -/
theorem Synced.factsOf_putAll (synced : store.Synced) {facts : List Fact}
    (distinct : (facts.map (·.key)).Nodup) (owner unit : UnitName)
    : (store.putAll owner facts).factsOf unit
      = if unit = owner then
          (store.factsOf unit).filter (fun old => !facts.any (·.key = old.key)) ++ facts
        else store.factsOf unit := by
  induction facts generalizing store with
  | nil => simp [Store.putAll]
  | cons fact rest ih =>
      simp only [List.map_cons, List.nodup_cons] at distinct
      have step := ih (synced.put owner fact) distinct.2
      simp only [Store.putAll, List.foldl_cons] at step ⊢
      rw [step, synced.factsOf_put]
      split
      · -- the fact just stored stays, since no later one has its key
        have kept : [fact].filter (fun old => !rest.any (·.key = old.key)) = [fact] := by
          simp only [List.filter_eq_self, List.mem_singleton, forall_eq]
          simpa using fun other member same => distinct.1 (List.mem_map.2 ⟨other, member, same⟩)
        rw [List.filter_append, kept, List.filter_filter, List.append_assoc]
        congr 1
        apply List.filter_congr
        intro old _
        simp [Bool.and_comm, eq_comm]
      · rfl

/-- Taking facts out removes their keys from the unit's facts. -/
theorem Synced.factsOf_dropAll (synced : store.Synced) (facts : List Fact)
    (owner unit : UnitName)
    : (store.dropAll owner facts).factsOf unit
      = if unit = owner then
          (store.factsOf unit).filter fun old => !facts.any (·.key = old.key)
        else store.factsOf unit := by
  induction facts generalizing store with
  | nil => simp [Store.dropAll]
  | cons fact rest ih =>
      have step := ih (synced.drop (fact.refIn owner))
      simp only [Store.dropAll, List.foldl_cons] at step ⊢
      rw [step, synced.factsOf_drop]
      by_cases same : unit = owner
      · simp only [same, Fact.refIn_unit, Fact.refIn_key, ↓reduceIte, List.filter_filter]
        apply List.filter_congr
        intro old _
        simp [Bool.and_comm, eq_comm]
      · simp only [same, Fact.refIn_unit, ↓reduceIte]

/-- As many nodes are stored as the units have facts, one by one. -/
theorem Synced.nodeCount_eq (synced : store.Synced)
    : store.nodeCount = (store.unitNames.map fun unit => (store.nodesOf unit).length).sum := by
  rw [← synced.ownedCount_eq, ownedCount, List.length_flatMap]
  congr 1
  apply List.map_congr_left
  intro unit _
  rw [nodesOf, List.length_map, ← synced.map_key_factsOf, List.length_map]

end Store

end Invalidation
