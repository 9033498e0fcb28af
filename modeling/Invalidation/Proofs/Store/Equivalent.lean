import Invalidation.Proofs.Store.Alike
import Invalidation.Proofs.Store.Indexed

/-! Stores that hold the same facts and in which the same nodes are marked. Their indices list the
same, each in an order of its own, since the facts may have come in different orders; every change
keeps that.
-/

namespace Invalidation

namespace Store

/-- Two stores have the same facts in the same order, the same marks, and indices that agree with
the facts.
-/
structure Equivalent (left right : Store) : Prop extends SameNodes left right where
  marked : ∀ ref, ref ∈ left.marked ↔ ref ∈ right.marked
  leftIndexed : left.Indexed
  rightIndexed : right.Indexed

variable {left right : Store}

namespace Equivalent

theorem symm (equivalent : left.Equivalent right) : right.Equivalent left :=
  ⟨equivalent.toSameNodes.symm, fun ref => (equivalent.marked ref).symm, equivalent.rightIndexed,
    equivalent.leftIndexed⟩

/-- The same units are listed under a key, since the same facts use it. -/
theorem mem_users_iff (equivalent : left.Equivalent right) {key : Key} {unit : UnitName}
    : unit ∈ left.users.values key ↔ unit ∈ right.users.values key := by
  rw [equivalent.leftIndexed.users, equivalent.rightIndexed.users, equivalent.factsOf]

theorem users_eq_nil_iff (equivalent : left.Equivalent right) {key : Key}
    : left.users.values key = [] ↔ right.users.values key = [] := by
  simp only [List.eq_nil_iff_forall_not_mem, equivalent.mem_users_iff]

end Equivalent

theorem mem_marked_drop {store : Store} {node ref : NodeRef}
    : ref ∈ (store.drop node).marked ↔ ref ∈ store.marked ∧ (store.contains node → ref ≠ node) := by
  cases found : store.fact? node with
  | none => simp [drop, contains, found]
  | some fact => simp [drop, contains, found]

namespace Equivalent

theorem drop (equivalent : left.Equivalent right) (node : NodeRef)
    : (left.drop node).Equivalent (right.drop node) := by
  refine ⟨equivalent.toSameNodes.drop node, fun ref => ?_, equivalent.leftIndexed.drop node,
    equivalent.rightIndexed.drop node⟩
  rw [mem_marked_drop, mem_marked_drop, equivalent.marked, equivalent.contains]

theorem put (equivalent : left.Equivalent right) (unit : UnitName) (fact : Fact)
    : (left.put unit fact).Equivalent (right.put unit fact) := by
  have dropped := equivalent.drop (fact.refIn unit)
  exact ⟨dropped.toSameNodes.add unit fact, dropped.marked, equivalent.leftIndexed.put unit fact,
    equivalent.rightIndexed.put unit fact⟩

theorem putAll (equivalent : left.Equivalent right) (unit : UnitName) (facts : List Fact)
    : (left.putAll unit facts).Equivalent (right.putAll unit facts) := by
  induction facts generalizing left right with
  | nil => exact equivalent
  | cons fact rest ih => exact ih (equivalent.put unit fact)

theorem dropAll (equivalent : left.Equivalent right) (unit : UnitName) (facts : List Fact)
    : (left.dropAll unit facts).Equivalent (right.dropAll unit facts) := by
  induction facts generalizing left right with
  | nil => exact equivalent
  | cons fact rest ih => exact ih (equivalent.drop (fact.refIn unit))

end Equivalent

end Store

end Invalidation
