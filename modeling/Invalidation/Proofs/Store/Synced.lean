import Invalidation.Store
import Invalidation.Proofs.Index
import Invalidation.Proofs.Table
import Mathlib.Data.List.Nodup

/-! The two ways in which a store keeps its nodes: the fact of each node, and the keys of each unit.
Each change is said of both by look-ups, and keeps them in agreement. Stores that look the same in
both do the same ever after.
-/

namespace Invalidation

@[simp]
theorem Fact.refIn_unit (fact : Fact) (unit : UnitName) : (fact.refIn unit).unit = unit := rfl

@[simp]
theorem Fact.refIn_key (fact : Fact) (unit : UnitName) : (fact.refIn unit).key = fact.key := rfl

@[simp]
theorem Node.ref_unit (node : Node) : node.ref.unit = node.unit := rfl

theorem NodeRef.eq_iff {node other : NodeRef}
    : node = other ↔ node.key = other.key ∧ node.unit = other.unit := by
  cases node
  cases other
  simp only [NodeRef.mk.injEq]

namespace Store

variable {store left middle right : Store}

theorem key_of_fact? {node : NodeRef} {fact : Fact} (found : store.fact? node = some fact)
    : fact.key = node.key :=
  store.keyed _ (Table.mem_of_find? found)

-----------------------------------------------------------------------------------------
-- What one change does to a look-up
-----------------------------------------------------------------------------------------

/-- Keys after an alteration of one unit are those that the change makes there. -/
theorem getD_get?_alter (units : Table UnitName (List Key)) (unit other : UnitName)
    (change : Option (List Key) → Option (List Key))
    : ((units.alter unit change).get? other).getD []
      = if other = unit then (change (units.get? unit)).getD []
        else (units.get? other).getD [] := by
  by_cases same : other = unit
  · subst same
    simp
  · simp only [same, ↓reduceIte, Table.get?_alter_of_ne _ _ same]

/-- Dropping a node that is not stored changes nothing. -/
theorem drop_of_fact?_eq_none {node : NodeRef} (absent : store.fact? node = none)
    : store.drop node = store := by
  simp only [drop, absent]

theorem nodes_drop {node : NodeRef} {fact : Fact} (found : store.fact? node = some fact)
    : (store.drop node).nodes = store.nodes.alter node fun _ => none := by
  simp only [drop, found]

theorem units_drop {node : NodeRef} {fact : Fact} (found : store.fact? node = some fact)
    : (store.drop node).units
      = store.units.alter node.unit fun keys => keys.map (·.erase node.key) := by
  simp only [drop, found]

/-- A dropped node is not stored, and every other node is what it was. -/
theorem fact?_drop (store : Store) (node other : NodeRef)
    : (store.drop node).fact? other = if other = node then none else store.fact? other := by
  cases found : store.fact? node with
  | none =>
      rw [drop_of_fact?_eq_none found]
      by_cases same : other = node <;> simp [same, found]
  | some fact =>
      rw [fact?, nodes_drop found]
      by_cases same : other = node
      · rw [if_pos same, same, Table.get?_alter_self]
      · rw [if_neg same, Table.get?_alter_of_ne _ _ same, fact?]

theorem fact?_add (store : Store) (owner : UnitName) (fact : Fact) (node : NodeRef)
    : (store.add owner fact).fact? node
      = if node = fact.refIn owner then some fact else store.fact? node := by
  rw [fact?, add]
  by_cases same : node = fact.refIn owner
  · rw [if_pos same, same, Table.get?_alter_self]
  · rw [if_neg same, Table.get?_alter_of_ne _ _ same, fact?]

theorem contains_drop {node other : NodeRef}
    : (store.drop node).contains other ↔ store.contains other ∧ other ≠ node := by
  rw [contains, fact?_drop]
  by_cases same : other = node <;> simp [same, contains]

theorem contains_add {owner : UnitName} {fact : Fact} {node : NodeRef}
    : (store.add owner fact).contains node
      ↔ store.contains node ∨ node = fact.refIn owner := by
  rw [contains, fact?_add]
  by_cases same : node = fact.refIn owner <;> simp [same, contains]

/-- A stored node that is dropped leaves the keys of its unit. -/
theorem keysOf_drop (store : Store) (node : NodeRef) (unit : UnitName)
    : (store.drop node).keysOf unit
      = if unit = node.unit ∧ store.contains node then (store.keysOf unit).erase node.key
        else store.keysOf unit := by
  cases found : store.fact? node with
  | none => simp [drop_of_fact?_eq_none found, contains, found]
  | some fact =>
      rw [keysOf, units_drop found, getD_get?_alter]
      simp only [contains, found, Option.isSome_some, and_true, keysOf]
      split
      · rename_i same
        rw [same]
        cases store.units.get? node.unit <;> rfl
      · rfl

/-- The key of an added fact comes last among those of its unit, unless the unit owns it. -/
theorem keysOf_add (store : Store) (owner : UnitName) (fact : Fact) (unit : UnitName)
    : (store.add owner fact).keysOf unit
      = if unit = owner then addLast (store.keysOf unit) fact.key else store.keysOf unit := by
  simp only [add, keysOf, getD_get?_alter]
  split
  · rename_i same
    rw [same, Option.getD_some]
  · rfl

/-- Taking a node out keeps its unit known, in its place. -/
theorem unitNames_drop (store : Store) (node : NodeRef)
    : (store.drop node).unitNames = store.unitNames := by
  cases found : store.fact? node with
  | none => rw [drop_of_fact?_eq_none found]
  | some fact =>
      rw [unitNames, units_drop found]
      exact Table.keys_alter_map ..

/-- Storing a fact makes its unit known, last, unless it is known already. -/
theorem unitNames_put (store : Store) (owner : UnitName) (fact : Fact)
    : (store.put owner fact).unitNames = addLast store.unitNames owner := by
  rw [put, add, unitNames, Table.keys_alter _ _ _ rfl]
  exact congrArg (addLast · owner) (store.unitNames_drop _)

/-- What storing a fact keeps, storing facts keeps, by induction on the facts. -/
theorem putAll_induction {motive : Store → Prop} {unit : UnitName}
    (put : ∀ {store}, motive store → ∀ fact, motive (store.put unit fact)) {store : Store}
    (start : motive store) (facts : List Fact)
    : motive (store.putAll unit facts) := by
  induction facts generalizing store with
  | nil => exact start
  | cons fact rest ih => exact ih (put start fact)

/-- What dropping a fact keeps, dropping facts keeps, by induction on the facts. -/
theorem dropAll_induction {motive : Store → Prop} {unit : UnitName}
    (drop : ∀ {store}, motive store → ∀ fact : Fact, motive (store.drop (fact.refIn unit)))
    {store : Store} (start : motive store) (facts : List Fact)
    : motive (store.dropAll unit facts) := by
  induction facts generalizing store with
  | nil => exact start
  | cons fact rest ih => exact ih (drop start fact)

theorem unitNames_putAll {facts : List Fact} (nonempty : facts ≠ []) (store : Store)
    (owner : UnitName)
    : (store.putAll owner facts).unitNames = addLast store.unitNames owner := by
  induction facts generalizing store with
  | nil => exact absurd rfl nonempty
  | cons fact rest ih =>
      have first := store.unitNames_put owner fact
      cases rest with
      | nil => exact first
      | cons next rest =>
          have later := ih (List.cons_ne_nil _ _) (store.put owner fact)
          rw [first, addLast_of_mem (mem_addLast.2 (.inr rfl))] at later
          exact later

theorem unitNames_dropAll (facts : List Fact) (store : Store) (owner : UnitName)
    : (store.dropAll owner facts).unitNames = store.unitNames :=
  dropAll_induction (motive := (·.unitNames = store.unitNames))
    (fun same _ => (unitNames_drop _ _).trans same) rfl facts

-----------------------------------------------------------------------------------------
-- Agreement of the two
-----------------------------------------------------------------------------------------

/-- The keys that units own are exactly those of the stored nodes, each once. -/
structure Synced (store : Store) : Prop where
  listed : ∀ node, node.key ∈ store.keysOf node.unit ↔ store.contains node
  distinct : ∀ unit, (store.keysOf unit).Nodup

theorem synced_empty : empty.Synced where
  listed := by
    intro node
    simp [empty, keysOf, contains, fact?, Table.empty, Table.get?, Table.find?]
  distinct := fun _ => .nil

theorem Synced.withMarks (synced : store.Synced) (marked : List NodeRef)
    : Synced { store with marked } :=
  ⟨synced.listed, synced.distinct⟩

/-- A node leaves both maps together. -/
theorem Synced.drop (synced : store.Synced) (node : NodeRef)
    : (store.drop node).Synced := by
  constructor
  · intro other
    rw [contains_drop, keysOf_drop]
    split
    · rename_i given
      obtain ⟨sameUnit, -⟩ := given
      rw [(synced.distinct _).mem_erase_iff, synced.listed, and_comm]
      simp [NodeRef.eq_iff, sameUnit]
    · rename_i kept
      rw [synced.listed, iff_self_and]
      rintro stored rfl
      exact kept ⟨rfl, stored⟩
  · intro unit
    rw [keysOf_drop]
    split
    · exact (synced.distinct unit).erase _
    · exact synced.distinct unit

/-- A fact comes into both maps together, whatever was stored for its node. -/
theorem Synced.add (synced : store.Synced) (unit : UnitName) (fact : Fact)
    : (store.add unit fact).Synced := by
  constructor
  · intro node
    rw [contains_add, keysOf_add, NodeRef.eq_iff]
    split
    · rename_i sameUnit
      simp [mem_addLast, ← sameUnit, synced.listed]
    · rename_i elsewhere
      simp [synced.listed, elsewhere]
  · intro other
    rw [keysOf_add]
    split
    · exact nodup_addLast (synced.distinct other)
    · exact synced.distinct other

theorem Synced.put (synced : store.Synced) (unit : UnitName) (fact : Fact)
    : (store.put unit fact).Synced :=
  (synced.drop _).add unit fact

theorem Synced.putAll (synced : store.Synced) (unit : UnitName) (facts : List Fact)
    : (store.putAll unit facts).Synced :=
  putAll_induction (fun synced fact => synced.put unit fact) synced facts

theorem Synced.dropAll (synced : store.Synced) (unit : UnitName) (facts : List Fact)
    : (store.dropAll unit facts).Synced :=
  dropAll_induction (fun synced fact => synced.drop (fact.refIn unit)) synced facts

/-- Who owns a key is known. -/
theorem mem_unitNames_of_mem_keysOf {unit : UnitName} {key : Key}
    (owned : key ∈ store.keysOf unit)
    : unit ∈ store.unitNames := by
  by_contra unknown
  rw [keysOf, Table.get?_eq_none_iff.2 unknown] at owned
  cases owned

/-- The nodes that the units own, one unit after the other. -/
def ownedNodes (store : Store)
    : List NodeRef :=
  store.unitNames.flatMap fun unit => (store.keysOf unit).map (⟨·, unit⟩)

theorem length_ownedNodes (store : Store) : store.ownedNodes.length = store.ownedCount := by
  simp [ownedNodes, ownedCount, List.length_flatMap]

theorem mem_ownedNodes {node : NodeRef}
    : node ∈ store.ownedNodes ↔ node.key ∈ store.keysOf node.unit := by
  unfold ownedNodes
  rw [List.mem_flatMap]
  constructor
  · rintro ⟨unit, -, member⟩
    obtain ⟨key, owned, rfl⟩ := List.mem_map.1 member
    exact owned
  · intro owned
    exact ⟨node.unit, mem_unitNames_of_mem_keysOf owned, List.mem_map.2 ⟨node.key, owned, rfl⟩⟩

/-- No node is owned twice where no unit has a key twice, since no unit is known twice. -/
theorem nodup_ownedNodes (distinct : ∀ unit, (store.keysOf unit).Nodup)
    : store.ownedNodes.Nodup := by
  refine List.nodup_flatMap.2 ⟨fun unit _ => ?_, ?_⟩
  · exact (distinct unit).map fun _ _ same => congrArg NodeRef.key same
  · refine store.units.distinct.imp fun different node here there => ?_
    obtain ⟨_, -, rfl⟩ := List.mem_map.1 here
    obtain ⟨_, -, same⟩ := List.mem_map.1 there
    exact different (congrArg NodeRef.unit same).symm

/-- The units own as many nodes together as are stored. -/
theorem Synced.ownedCount_eq (synced : store.Synced) : store.ownedCount = store.nodeCount := by
  have same : store.ownedNodes.Perm store.nodes.keys := by
    apply (List.perm_ext_iff_of_nodup (nodup_ownedNodes synced.distinct) store.nodes.distinct).2
    intro node
    rw [mem_ownedNodes, synced.listed]
    exact Table.contains_iff_mem_keys
  rw [← length_ownedNodes, same.length_eq, Table.keys, List.length_map, nodeCount]

-----------------------------------------------------------------------------------------
-- Facts of a unit
-----------------------------------------------------------------------------------------

/-- Whatever a unit has is stored. -/
theorem fact?_of_mem_factsOf {unit : UnitName} {fact : Fact} (owned : fact ∈ store.factsOf unit)
    : store.fact? ⟨fact.key, unit⟩ = some fact := by
  obtain ⟨key, -, found⟩ := List.mem_filterMap.1 owned
  rwa [key_of_fact? found]

theorem contains_of_mem_factsOf {node : NodeRef} {fact : Fact}
    (owned : fact ∈ store.factsOf node.unit) (sameKey : fact.key = node.key)
    : store.contains node := by
  have found := fact?_of_mem_factsOf owned
  rw [sameKey] at found
  exact Option.isSome_of_eq_some found

/-- Whoever has a fact is known. -/
theorem mem_unitNames_of_mem_factsOf {unit : UnitName} {fact : Fact}
    (owned : fact ∈ store.factsOf unit)
    : unit ∈ store.unitNames := by
  obtain ⟨key, listed, -⟩ := List.mem_filterMap.1 owned
  exact mem_unitNames_of_mem_keysOf listed

namespace Synced

/-- The facts of a unit are those that are stored for its nodes. -/
theorem mem_factsOf_iff (synced : store.Synced) {unit : UnitName} {fact : Fact}
    : fact ∈ store.factsOf unit ↔ store.fact? ⟨fact.key, unit⟩ = some fact := by
  refine ⟨fact?_of_mem_factsOf, fun found => List.mem_filterMap.2 ⟨fact.key, ?_, found⟩⟩
  exact (synced.listed ⟨fact.key, unit⟩).2 (Option.isSome_of_eq_some found)

/-- Finding a fact says exactly that the unit has it. -/
theorem fact?_eq_some_iff (synced : store.Synced) {node : NodeRef} {fact : Fact}
    : store.fact? node = some fact ↔ fact ∈ store.factsOf node.unit ∧ fact.key = node.key := by
  rw [synced.mem_factsOf_iff]
  constructor
  · intro found
    have sameKey := key_of_fact? found
    exact ⟨by rwa [sameKey], sameKey⟩
  · rintro ⟨found, sameKey⟩
    rwa [sameKey] at found

theorem mem_of_fact? (synced : store.Synced) {node : NodeRef} {fact : Fact}
    (found : store.fact? node = some fact)
    : fact ∈ store.factsOf node.unit ∧ fact.key = node.key :=
  synced.fact?_eq_some_iff.1 found

/-- A unit's facts have its keys, in their order: every key that it owns is stored. -/
theorem map_key_factsOf (synced : store.Synced) (unit : UnitName)
    : (store.factsOf unit).map (·.key) = store.keysOf unit := by
  rw [factsOf, List.map_filterMap]
  have found : ∀ key ∈ store.keysOf unit,
      (store.fact? ⟨key, unit⟩).map (·.key) = some key := by
    intro key owned
    obtain ⟨fact, stored⟩ := Option.isSome_iff_exists.1 ((synced.listed ⟨key, unit⟩).1 owned)
    rw [stored, Option.map_some, key_of_fact? stored]
  rw [List.filterMap_congr found, List.filterMap_some]

/-- No unit has two facts with one key. -/
theorem keysDistinct (synced : store.Synced) (unit : UnitName)
    : ((store.factsOf unit).map (·.key)).Nodup := by
  rw [synced.map_key_factsOf]
  exact synced.distinct unit

theorem unique (synced : store.Synced) {unit : UnitName} {fact other : Fact}
    (owned : fact ∈ store.factsOf unit) (otherOwned : other ∈ store.factsOf unit)
    (sameKey : fact.key = other.key)
    : fact = other :=
  List.inj_on_of_nodup_map (synced.keysDistinct unit) owned otherOwned sameKey

/-- A node is stored exactly when its unit has a fact with its key. -/
theorem contains_iff (synced : store.Synced) {node : NodeRef}
    : store.contains node ↔ ∃ fact ∈ store.factsOf node.unit, fact.key = node.key := by
  rw [← synced.listed, ← synced.map_key_factsOf, List.mem_map]

/-- No fact is found exactly when none of the unit's facts has the key. -/
theorem fact?_eq_none_iff (synced : store.Synced) {node : NodeRef}
    : store.fact? node = none ↔ ∀ fact ∈ store.factsOf node.unit, fact.key ≠ node.key := by
  rw [← Option.not_isSome_iff_eq_none]
  exact (not_congr synced.contains_iff).trans (by simp)

end Synced

end Store

end Invalidation
