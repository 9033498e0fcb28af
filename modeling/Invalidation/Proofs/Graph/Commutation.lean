import Invalidation.Proofs.Graph.Completeness
import Invalidation.Proofs.Graph.Difference
import Invalidation.Proofs.Graph.Ledger
import Invalidation.Proofs.Store.Frame

/-! Jobs for different units may finish in either order. An integration depends on what its own unit
has and changes nothing else of the facts and the dependents; so both orders come to the same
there, and with it in the index of uses, apart from the order in which units were filed.
-/

namespace Invalidation

open Store (AlikeAt)

namespace Integration

variable {unit owner : UnitName} {store left right : Store}

/-- What a replacement makes of its unit depends on nothing but what the unit had. -/
theorem replaced_alikeAt (alike : AlikeAt unit left right) (incoming : List Fact)
    : AlikeAt unit (replaced left unit incoming) (replaced right unit incoming) := by
  rw [replaced, replaced, removedFacts_congr alike.factsOf]
  exact (alike.putAll incoming).dropAll _

/-- A replacement changes nothing of other units. -/
theorem alikeAt_replaced (elsewhere : owner ≠ unit) (store : Store) (incoming : List Fact)
    : AlikeAt unit (replaced store owner incoming) store :=
  (Store.alikeAt_dropAll elsewhere _ _).trans (Store.alikeAt_putAll elsewhere store incoming)

end Integration

namespace Graph

variable {graph left right : Graph} {snapshot first second : Snapshot} {unit : UnitName}

theorem alikeAt_integrated {facts : List Fact} (normal : snapshot.normalForm = .ok facts)
    (unit : UnitName)
    : AlikeAt unit (graph.integrate snapshot).graph.store
        (Integration.replaced graph.store snapshot.unit facts) := by
  rw [integrate_graph normal, integration, Integration.run_store rfl]
  exact ⟨rfl, fun _ _ => rfl, fun _ _ => rfl⟩

/-- An integration does the same to its unit in graphs that are alike there. -/
theorem integrate_alikeAt (alike : AlikeAt snapshot.unit left.store right.store)
    : AlikeAt snapshot.unit (left.integrate snapshot).graph.store
        (right.integrate snapshot).graph.store := by
  cases normal : snapshot.normalForm with
  | error violation =>
      rw [integrate_graph_of_violation normal, integrate_graph_of_violation normal]
      exact alike
  | ok facts =>
      exact ((alikeAt_integrated normal _).trans (Integration.replaced_alikeAt alike facts)).trans
        (alikeAt_integrated normal _).symm

/-- An integration changes nothing of other units. -/
theorem alikeAt_integrate (elsewhere : snapshot.unit ≠ unit) (graph : Graph)
    : AlikeAt unit (graph.integrate snapshot).graph.store graph.store := by
  cases normal : snapshot.normalForm with
  | error violation =>
      rw [integrate_graph_of_violation normal]
      exact .refl unit graph.store
  | ok facts =>
      exact (alikeAt_integrated normal unit).trans (Integration.alikeAt_replaced elsewhere _ facts)

/-- After integrations for two units in either order, each unit has what its own one gave it. -/
theorem alikeAt_either_order (different : first.unit ≠ second.unit) (graph : Graph)
    (unit : UnitName)
    : AlikeAt unit ((graph.integrate first).graph.integrate second).graph.store
        ((graph.integrate second).graph.integrate first).graph.store := by
  by_cases isFirst : first.unit = unit
  · subst isFirst
    exact (alikeAt_integrate different.symm _).trans
      (integrate_alikeAt (alikeAt_integrate different.symm graph)).symm
  · by_cases isSecond : second.unit = unit
    · subst isSecond
      exact (integrate_alikeAt (alikeAt_integrate different graph)).trans
        (alikeAt_integrate different _).symm
    · exact ((alikeAt_integrate isSecond _).trans (alikeAt_integrate isFirst graph)).trans
        ((alikeAt_integrate isFirst _).trans (alikeAt_integrate isSecond graph)).symm

/-- Two graphs store the same for every node, have the nodes of every unit in the same order, know the
same units, have the same units using each key, and the same dependents of each node in the same
order.
-/
structure SameFacts (left right : Graph) : Prop where
  node? : ∀ node, left.store.node? node = right.store.node? node
  nodesOf : ∀ unit, left.store.nodesOf unit = right.store.nodesOf unit
  unitNames : left.store.unitNames.Perm right.store.unitNames
  users : ∀ key, (left.store.users.values key).Perm (right.store.users.values key)
  dependents : ∀ node, left.store.dependents.values node = right.store.dependents.values node

/-- Graphs that are alike at every unit and know the same units have the same facts: which units use
a key is said by their facts.
-/
theorem sameFacts_of_alikeAt (leftIndexed : left.store.Indexed) (rightIndexed : right.store.Indexed)
    (alike : ∀ unit, AlikeAt unit left.store right.store)
    (known : ∀ unit, unit ∈ left.store.unitNames ↔ unit ∈ right.store.unitNames)
    : left.SameFacts right where
  node? := fun node => by rw [Store.node?, Store.node?, (alike node.unit).fact? node rfl]
  nodesOf := fun unit => by rw [Store.nodesOf, Store.nodesOf, (alike unit).factsOf]
  unitNames :=
    (List.perm_ext_iff_of_nodup left.store.units.distinct right.store.units.distinct).2 known
  users := fun key => by
    refine (List.perm_ext_iff_of_nodup (leftIndexed.usersDistinct key)
      (rightIndexed.usersDistinct key)).2 fun unit => ?_
    rw [leftIndexed.users, rightIndexed.users, (alike unit).factsOf]
  dependents := fun node => (alike node.unit).dependents node rfl

/-- An integration lists for its unit what it lists before or after one for another unit. -/
theorem entries_after_other (carried : graph.Carried) (different : first.unit ≠ second.unit)
    {invalidated : Invalidated} (accepted : (graph.integrate second).answer = .ok invalidated)
    : ∃ later,
        ((graph.integrate first).graph.integrate second).answer = .ok later
        ∧ later.entries = invalidated.entries := by
  obtain ⟨facts, normal, rfl, -⟩ := integrate_answer_eq_ok_iff.1 accepted
  have carriedOn : (graph.integrate first).graph.Carried := carried.after (.integrate first)
  refine ⟨_, carriedOn.consistent.integrate_answer normal, ?_⟩
  exact integration_entries_congr carriedOn.consistent.synced carried.consistent.synced normal
    (by rw [integrate_options])
    (alikeAt_integrate different graph).factsOf

/-- Two accepted snapshots of different units may come in either order: each is accepted then too and
lists the same, and the same facts are stored in the end.
-/
theorem integrations_commute (carried : graph.Carried) (different : first.unit ≠ second.unit)
    {byFirst bySecond : Invalidated} (firstAccepted : (graph.integrate first).answer = .ok byFirst)
    (secondAccepted : (graph.integrate second).answer = .ok bySecond)
    : let afterFirst := (graph.integrate first).graph
      let afterSecond := (graph.integrate second).graph
      (∃ later,
          (afterFirst.integrate second).answer = .ok later ∧ later.entries = bySecond.entries)
      ∧ (∃ later,
          (afterSecond.integrate first).answer = .ok later ∧ later.entries = byFirst.entries)
      ∧ (afterFirst.integrate second).graph.SameFacts (afterSecond.integrate first).graph := by
  intro afterFirst afterSecond
  refine ⟨entries_after_other carried different secondAccepted,
    entries_after_other carried different.symm firstAccepted, ?_⟩
  obtain ⟨firstFacts, firstNormal, -⟩ := integrate_answer_eq_ok_iff.1 firstAccepted
  obtain ⟨secondFacts, secondNormal, -⟩ := integrate_answer_eq_ok_iff.1 secondAccepted
  have inOrder : (afterFirst.integrate second).graph.Carried :=
    (carried.after (.integrate first)).after (.integrate second)
  have swapped : (afterSecond.integrate first).graph.Carried :=
    (carried.after (.integrate second)).after (.integrate first)
  refine sameFacts_of_alikeAt inOrder.consistent.indexed swapped.consistent.indexed
    (alikeAt_either_order different graph) fun unit => ?_
  simp only [afterFirst, afterSecond, integrate_unitNames firstNormal,
    integrate_unitNames secondNormal, mem_addLast, or_right_comm]

/-- While the only user of a name gives it up, another unit begins to use it. Either may come first:
the use that is gone is listed alike, and the other unit is the only user in the end.
-/
theorem user_changes_in_either_order
    : let key := Key.interface (.topLevel "a")
      let former := Snapshot.start "u1"
      let latter := (Snapshot.start "u2").consume key true
      let inOrder := ((providedAndUsed.integrate former).graph.integrate latter).graph
      let swapped := ((providedAndUsed.integrate latter).graph.integrate former).graph
      inOrder.SameFacts swapped
      ∧ (∃ later,
          ((providedAndUsed.integrate latter).graph.integrate former).answer = .ok later
          ∧ later.entries = [⟨.removed, ⟨⟨key, none, .use true, []⟩, "u1"⟩⟩])
      ∧ providedAndUsed.store.users.values key = ["u1"]
      ∧ inOrder.store.users.values key = ["u2"] := by
  intro key former latter inOrder swapped
  have carried : providedAndUsed.Carried := Carried.foldl_after (.new {}) _
  have gone
      : (providedAndUsed.integrate former).answer
        = .ok ⟨"u1", [⟨.removed, ⟨⟨key, none, .use true, []⟩, "u1"⟩⟩], []⟩ := by
    decide
  have come
      : (providedAndUsed.integrate latter).answer
        = .ok ⟨"u2",
            [⟨.new, ⟨⟨.wholeUnit .interface "u2", none, .definition, []⟩, "u2"⟩⟩,
              ⟨.new, ⟨⟨.wholeUnit .implementation "u2", none, .definition, []⟩, "u2"⟩⟩,
              ⟨.new, ⟨⟨key, none, .use true, []⟩, "u2"⟩⟩],
            []⟩ := by
    decide
  obtain ⟨-, formerLater, same⟩ := integrations_commute carried (by decide) gone come
  exact ⟨same, formerLater, by decide, by decide⟩

end Graph

end Invalidation
