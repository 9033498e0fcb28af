import Invalidation.Proofs.Externals
import Invalidation.Proofs.Store.Alike
import Invalidation.Proofs.Store.Indexed
import Invalidation.Graph
import Mathlib.Data.List.Perm.Subperm

/-! What a check comes to. It says of each unit's keys and facts by themselves that they are as they
should be, counts the stored nodes, and looks up every listed use. Where the indices agree with the
facts, the last two find nothing; where a check finds nothing, the stored nodes are those that the
units own.
-/

namespace Invalidation.Graph

variable {graph : Graph}

-----------------------------------------------------------------------------------------
-- What is wrong with one unit
-----------------------------------------------------------------------------------------

/-- A fact is as it should be: a use carries no fingerprint, edges lead to facts of the unit, and an
artifact that it uses is known.
-/
structure FactInOrder (graph : Graph) (unit : UnitName) (fact : Fact) : Prop where
  bareUse : fact.isDefinition = false → fact.fingerprint = none
  targets : ∀ target ∈ fact.dependsOn, graph.store.contains ⟨target, unit⟩
  external : ∀ path, Integration.usedPath? fact = some path → graph.externals.contains path

/-- Nothing is wrong with a fact exactly if it is as it should be. -/
theorem factDefect?_eq_none_iff {unit : UnitName} {fact : Fact}
    : graph.factDefect? unit fact = none ↔ graph.FactInOrder unit fact := by
  unfold factDefect?
  split
  · rename_i fingerprinted
    simp only [Bool.and_eq_true, Bool.not_eq_true'] at fingerprinted
    apply iff_of_false (by simp)
    intro inOrder
    rw [inOrder.bareUse fingerprinted.1] at fingerprinted
    cases fingerprinted.2
  · rename_i bare
    have bareUse : fact.isDefinition = false → fact.fingerprint = none := by
      intro isUse
      simpa [isUse] using bare
    split
    · rename_i target missing
      apply iff_of_false (by simp)
      intro inOrder
      have absent := List.find?_some missing
      rw [inOrder.targets target (List.mem_of_find?_eq_some missing)] at absent
      cases absent
    · rename_i complete
      have targets : ∀ target ∈ fact.dependsOn, graph.store.contains ⟨target, unit⟩ := by
        simpa using List.find?_eq_none.1 complete
      cases used : Integration.usedPath? fact with
      | none => exact iff_of_true rfl ⟨bareUse, targets, fun path same => by simp [used] at same⟩
      | some path =>
          simp only [ite_eq_left_iff, reduceCtorEq, imp_false, Bool.not_eq_true,
            Bool.not_eq_false]
          constructor
          · intro known
            refine ⟨bareUse, targets, fun other same => ?_⟩
            rw [used, Option.some.injEq] at same
            exact same ▸ known
          · exact fun inOrder => inOrder.external path used

/-- Nothing is wrong with a key that a unit owns exactly if a fact is stored for it and is as it
should be.
-/
theorem keyDefect?_eq_none_iff {unit : UnitName} {key : Key}
    : graph.keyDefect? unit key = none
      ↔ ∃ fact, graph.store.fact? ⟨key, unit⟩ = some fact ∧ graph.FactInOrder unit fact := by
  unfold keyDefect?
  cases found : graph.store.fact? ⟨key, unit⟩ with
  | none => simp
  | some fact => simp [factDefect?_eq_none_iff]

/-- Nothing is wrong with a unit exactly if it owns both catch-all keys, and a fact is stored for each
of its keys and is as it should be.
-/
theorem unitDefect?_eq_none_iff {unit : UnitName}
    : graph.unitDefect? unit = none
      ↔ (∀ aspect, .wholeUnit aspect unit ∈ graph.store.keysOf unit)
        ∧ ∀ key ∈ graph.store.keysOf unit,
            ∃ fact, graph.store.fact? ⟨key, unit⟩ = some fact ∧ graph.FactInOrder unit fact := by
  have complete
      : Aspect.all.find? (fun aspect => !(graph.store.keysOf unit).contains (.wholeUnit aspect unit))
          = none
        ↔ ∀ aspect, .wholeUnit aspect unit ∈ graph.store.keysOf unit := by
    rw [List.find?_eq_none]
    constructor
    · intro all aspect
      have member : aspect ∈ Aspect.all := by cases aspect <;> simp [Aspect.all]
      simpa using all aspect member
    · intro all aspect _
      simp [all aspect]
  unfold unitDefect?
  dsimp only
  split
  · rename_i aspect lacking
    refine iff_of_false (by simp) fun ⟨all, _⟩ => ?_
    rw [complete.2 all] at lacking
    cases lacking
  · rename_i lacking
    rw [List.findSome?_eq_none_iff, and_iff_right (complete.1 lacking)]
    simp only [keyDefect?_eq_none_iff]

-----------------------------------------------------------------------------------------
-- What is wrong with the whole
-----------------------------------------------------------------------------------------

theorem countDefect?_eq_none_iff
    : graph.countDefect? = none ↔ graph.store.ownedCount = graph.store.nodeCount := by
  unfold countDefect?
  simp

/-- A check succeeds exactly if nothing is wrong with any unit, the units own as many nodes as are
stored, and no unit is listed under a key that it does not use.
-/
theorem check_eq_ok_iff_parts
    : graph.check = .ok ()
      ↔ (∀ unit ∈ graph.store.unitNames, graph.unitDefect? unit = none)
        ∧ graph.countDefect? = none
        ∧ ∀ key ∈ graph.store.users.keys, graph.usersDefect? key = none := by
  have passed : graph.check = .ok () ↔ graph.defect? = none := by
    unfold check
    split <;> simp [*]
  rw [passed, defect?]
  simp only [Option.or_eq_none_iff, List.findSome?_eq_none_iff, and_assoc]

/-- Where a check succeeds, each owned key is that of a stored node, and there are no other nodes:
else fewer would be owned than are stored, since no key is owned twice.
-/
theorem synced_of_check (passed : graph.check = .ok ())
    (distinct : ∀ unit, (graph.store.keysOf unit).Nodup)
    : graph.store.Synced := by
  obtain ⟨inUnits, count, -⟩ := check_eq_ok_iff_parts.1 passed
  have stored : ∀ {node : NodeRef},
      node.key ∈ graph.store.keysOf node.unit → graph.store.contains node := by
    intro node owned
    have known := Store.mem_unitNames_of_mem_keysOf owned
    obtain ⟨fact, found, -⟩ := (unitDefect?_eq_none_iff.1 (inUnits _ known)).2 node.key owned
    exact Option.isSome_of_eq_some found
  refine ⟨fun node => ⟨stored, fun isStored => ?_⟩, distinct⟩
  have included : graph.store.ownedNodes ⊆ graph.store.nodes.keys := fun node owned =>
    Table.contains_iff_mem_keys.1 (stored (Store.mem_ownedNodes.1 owned))
  have few : graph.store.nodes.keys.length ≤ graph.store.ownedNodes.length := by
    rw [Store.length_ownedNodes, countDefect?_eq_none_iff.1 count, Table.keys, List.length_map,
      Store.nodeCount]
  have all : graph.store.ownedNodes.Perm graph.store.nodes.keys :=
    ((Store.nodup_ownedNodes distinct).subperm included).perm_of_length_le few
  exact Store.mem_ownedNodes.1 (all.mem_iff.2 (Table.contains_iff_mem_keys.1 isStored))

/-- Where the indices agree with the facts, no unit is listed under a key that it does not use. -/
theorem usersDefect?_eq_none (indexed : graph.store.Indexed) (key : Key)
    : graph.usersDefect? key = none := by
  refine Option.map_eq_none_iff.2 (List.find?_eq_none.2 fun unit listed => ?_)
  obtain ⟨fact, owned, rfl, isUse⟩ := indexed.users.1 listed
  simp [Store.fact?_of_mem_factsOf owned, isUse]

/-- Where the indices agree with the facts, a check finds what is wrong with the first such unit. -/
theorem defect?_eq (indexed : graph.store.Indexed)
    : graph.defect? = graph.store.unitNames.findSome? graph.unitDefect? := by
  have none_astray : graph.store.users.keys.findSome? graph.usersDefect? = none :=
    List.findSome?_eq_none_iff.2 fun key _ => usersDefect?_eq_none indexed key
  rw [defect?, none_astray, countDefect?_eq_none_iff.2 indexed.ownedCount_eq]
  simp only [Option.or_none]

/-- Where the keys of units and the stored nodes agree, nothing is wrong with a unit exactly if it has
both catch-all facts and all its facts are as they should be.
-/
theorem unitDefect?_eq_none_iff_facts (synced : graph.store.Synced) {unit : UnitName}
    : graph.unitDefect? unit = none
      ↔ (∀ aspect, graph.store.contains ⟨.wholeUnit aspect unit, unit⟩)
        ∧ ∀ fact ∈ graph.store.factsOf unit, graph.FactInOrder unit fact := by
  rw [unitDefect?_eq_none_iff]
  refine and_congr (forall_congr' fun aspect => synced.listed ⟨_, unit⟩) ?_
  constructor
  · intro each fact owned
    have found := Store.fact?_of_mem_factsOf owned
    have listed := (synced.listed ⟨fact.key, unit⟩).2 (Option.isSome_of_eq_some found)
    obtain ⟨same, isSame, inOrder⟩ := each fact.key listed
    rwa [Option.some.inj (isSame.symm.trans found)] at inOrder
  · intro each key listed
    obtain ⟨fact, found⟩ := Option.isSome_iff_exists.1 ((synced.listed ⟨key, unit⟩).1 listed)
    exact ⟨fact, found, each fact (synced.mem_of_fact? found).1⟩

/-- Where the indices agree with the facts, a check succeeds exactly if every unit has both
catch-all facts and all its facts are as they should be.
-/
theorem check_eq_ok_iff (indexed : graph.store.Indexed)
    : graph.check = .ok ()
      ↔ ∀ unit ∈ graph.store.unitNames,
          (∀ aspect, graph.store.contains ⟨.wholeUnit aspect unit, unit⟩)
          ∧ ∀ fact ∈ graph.store.factsOf unit, graph.FactInOrder unit fact := by
  simp only [check_eq_ok_iff_parts, usersDefect?_eq_none indexed,
    countDefect?_eq_none_iff.2 indexed.ownedCount_eq, implies_true, and_true,
    unitDefect?_eq_none_iff_facts indexed.toSynced]

/-- Where the indices agree with the facts, a check comes to the same in two graphs that store the
same facts and list the same artifacts.
-/
theorem check_congr {left right : Graph} (same : left.store.SameNodes right.store)
    (externals : ∀ path, left.externals.contains path = right.externals.contains path)
    (leftIndexed : left.store.Indexed) (rightIndexed : right.store.Indexed)
    : left.check = right.check := by
  have sameFact : left.factDefect? = right.factDefect? := by
    funext unit fact
    simp only [factDefect?, funext externals, funext same.contains]
  have sameKey : left.keyDefect? = right.keyDefect? := by
    funext unit key
    simp only [keyDefect?, sameFact, same.fact?]
  have sameUnit : left.unitDefect? = right.unitDefect? := by
    funext unit
    simp only [unitDefect?, sameKey, same.keysOf]
  simp only [check, defect?_eq leftIndexed, defect?_eq rightIndexed, sameUnit, same.unitNames]

end Invalidation.Graph
