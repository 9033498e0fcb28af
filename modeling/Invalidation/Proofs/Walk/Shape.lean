import Invalidation.Proofs.Snapshot.NormalForm
import Invalidation.Proofs.Walk.ReverseStep

/-! Walks do not see fingerprints: in stores whose facts are the same without them, the same nodes
are reached.
-/

namespace Invalidation

/-- A node without its fingerprint. -/
def Node.bare (node : Node) : Node := ⟨node.toFact.bare, node.unit⟩

theorem Node.bare_eq_bare_iff {node other : Node}
    : node.bare = other.bare ↔ node.toFact.bare = other.toFact.bare ∧ node.unit = other.unit := by
  simp [Node.bare]

namespace Store

/-- Without fingerprints, each unit has the same facts in both stores. -/
def SameShape (left right : Store) : Prop :=
  ∀ unit, (left.factsOf unit).map Fact.bare = (right.factsOf unit).map Fact.bare

variable {left middle right : Store}

theorem SameShape.symm (same : left.SameShape right) : right.SameShape left :=
  fun unit => (same unit).symm

theorem SameShape.trans (before : left.SameShape middle) (after : middle.SameShape right)
    : left.SameShape right :=
  fun unit => (before unit).trans (after unit)

theorem SameShape.exists_fact (same : left.SameShape right) {unit : UnitName} {fact : Fact}
    (owned : fact ∈ left.factsOf unit)
    : ∃ other ∈ right.factsOf unit, other.bare = fact.bare :=
  List.mem_map.1 (same unit ▸ List.mem_map_of_mem owned)

theorem SameShape.contains (same : left.SameShape right) (synced : left.Synced) {ref : NodeRef}
    (stored : left.contains ref)
    : right.contains ref := by
  obtain ⟨fact, owned, sameKey⟩ := synced.contains_iff.1 stored
  obtain ⟨other, otherOwned, sameBare⟩ := same.exists_fact owned
  exact contains_of_mem_factsOf otherOwned ((Fact.bare_eq_bare_iff.1 sameBare).1.trans sameKey)

/-- A stored node has its counterpart in a store of the same shape. -/
theorem SameShape.exists_node (same : left.SameShape right) (synced : left.Synced) {ref : NodeRef}
    {node : Node} (stored : left.node? ref = some node)
    : ∃ other, right.node? ref = some other ∧ other.bare = node.bare := by
  obtain ⟨found, sameUnit⟩ := node?_eq_some_iff.1 stored
  obtain ⟨owned, factKey⟩ := synced.mem_of_fact? found
  obtain ⟨other, otherOwned, sameBare⟩ := same.exists_fact owned
  have otherKey : other.key = ref.key := (Fact.bare_eq_bare_iff.1 sameBare).1.trans factKey
  have otherFound := fact?_of_mem_factsOf otherOwned
  rw [otherKey] at otherFound
  refine ⟨⟨other, ref.unit⟩, node?_eq_some_iff.2 ⟨otherFound, rfl⟩, ?_⟩
  rw [Node.bare, Node.bare, sameBare, sameUnit]

/-- A step leads the same way in a store of the same shape. -/
theorem ReverseStep.sameShape {node other : Node} {next : NodeRef}
    (step : left.ReverseStep node next) (same : left.SameShape right)
    (sameNode : other.bare = node.bare)
    : right.ReverseStep other next := by
  obtain ⟨sameFact, sameUnit⟩ := Node.bare_eq_bare_iff.1 sameNode
  obtain ⟨sameKey, sameRole, -⟩ := Fact.bare_eq_bare_iff.1 sameFact
  cases step with
  | @use unit fact provided visible owned factKey isUse =>
      obtain ⟨fact', owned', sameBare⟩ := same.exists_fact owned
      rw [← sameKey]
      refine .use ?_ ?_ owned' ?_ ?_
      · rw [← provided, Fact.isDefinition, Fact.isDefinition, sameRole]
      · rwa [sameKey, sameUnit]
      · rw [← Fact.bare_key, sameBare, Fact.bare_key, factKey, sameKey]
      · rw [← Fact.bare_isDefinition, sameBare, Fact.bare_isDefinition, isUse]
  | @edge fact owned depends =>
      obtain ⟨fact', owned', sameBare⟩ := same.exists_fact owned
      obtain ⟨factKey, -, sameEdges⟩ := Fact.bare_eq_bare_iff.1 sameBare
      rw [← factKey, ← sameUnit]
      refine .edge (sameUnit ▸ owned') ?_
      rwa [sameKey, sameEdges]
  | @cascade fact cascades owned provided shown =>
      obtain ⟨fact', owned', sameBare⟩ := same.exists_fact owned
      obtain ⟨factKey, factRole, -⟩ := Fact.bare_eq_bare_iff.1 sameBare
      rw [← factKey, ← sameUnit]
      refine .cascade ?_ (sameUnit ▸ owned') ?_ ?_
      · rw [sameRole, cascades]
      · rw [Fact.isDefinition, factRole, ← Fact.isDefinition, provided]
      · rw [factKey, shown]

/-- Whatever is reached is reached in a store of the same shape, from starts that are the same
without fingerprints, by induction on the way there.
-/
theorem Reached.sameShape {enters : NodeRef → Prop} {starts starts' : List Node} {ref : NodeRef}
    (reached : left.Reached left.ReverseStep enters starts ref) (same : left.SameShape right)
    (synced : left.Synced) (included : starts.map Node.bare ⊆ starts'.map Node.bare)
    : right.Reached right.ReverseStep enters starts' ref := by
  induction reached with
  | first isStart step entered =>
      obtain ⟨other, isStart', sameNode⟩ := List.mem_map.1 (included (List.mem_map_of_mem isStart))
      exact .first isStart' (step.sameShape same sameNode) entered
  | next _ stored step entered ih =>
      obtain ⟨other, stored', sameNode⟩ := same.exists_node synced stored
      exact .next ih stored' (step.sameShape same sameNode) entered

end Store

end Invalidation
