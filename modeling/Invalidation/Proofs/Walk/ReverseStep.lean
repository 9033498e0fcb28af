import Invalidation.Proofs.Store.Indexed
import Invalidation.Proofs.Walk.Search

/-! The steps of a walk, said of the stored facts alone. Where the indices agree with the facts,
they lead a walk along exactly these steps.
-/

namespace Invalidation

namespace Store

/-- A change of a node bears on another one, according to the stored facts: on a use that sees a
definition's key, on a fact of the same unit with an edge to the node, and, from a use that
cascades, on every interface definition of its unit.
-/
inductive ReverseStep (store : Store) (node : Node) : NodeRef → Prop
  | use {unit fact} (provided : node.isDefinition = true)
    (visible : node.key.isInterface = true ∨ unit = node.unit)
    (owned : fact ∈ store.factsOf unit) (sameKey : fact.key = node.key)
    (isUse : fact.isDefinition = false)
    : store.ReverseStep node ⟨node.key, unit⟩
  | edge {fact} (owned : fact ∈ store.factsOf node.unit) (depends : node.key ∈ fact.dependsOn)
    : store.ReverseStep node ⟨fact.key, node.unit⟩
  | cascade {fact} (cascades : node.role.cascades = true)
    (owned : fact ∈ store.factsOf node.unit) (provided : fact.isDefinition = true)
    (shown : fact.key.isInterface = true)
    : store.ReverseStep node ⟨fact.key, node.unit⟩

theorem ReverseStep.contains {store : Store} {node : Node} {next : NodeRef}
    (step : store.ReverseStep node next)
    : store.contains next := by
  cases step with
  | use _ _ owned sameKey _ => exact contains_of_mem_factsOf owned sameKey
  | edge owned _ => exact contains_of_mem_factsOf owned rfl
  | cascade _ owned _ _ => exact contains_of_mem_factsOf owned rfl

/-- The indices of a store lead along the steps that its facts give, and along no others. -/
theorem Indexed.moves_iff {store : Store} (indexed : store.Indexed) {node : Node}
    {next : NodeRef}
    : store.Moves node next ↔ store.ReverseStep node next := by
  simp only [Moves, stepsFrom, List.mem_append]
  constructor
  · intro given
    rcases given with (uses | linked) | shown
    · split at uses
      · rename_i provided
        obtain ⟨unit, listed, rfl⟩ := List.mem_map.1 uses
        obtain ⟨listed, visible⟩ := List.mem_filter.1 listed
        obtain ⟨fact, owned, sameKey, isUse⟩ := indexed.users.1 listed
        have visible := (Bool.or_eq_true_iff.1 visible).imp_right of_decide_eq_true
        exact .use provided visible owned sameKey isUse
      · cases uses
    · obtain ⟨key, listed, rfl⟩ := List.mem_map.1 linked
      obtain ⟨fact, owned, rfl, depends⟩ := indexed.dependents.1 listed
      exact .edge owned depends
    · split at shown
      · rename_i cascades
        obtain ⟨fact, member, rfl⟩ := List.mem_map.1 shown
        obtain ⟨owned, exported⟩ := List.mem_filter.1 member
        rw [Bool.and_eq_true] at exported
        exact .cascade cascades owned exported.1 exported.2
      · cases shown
  · intro step
    cases step with
    | @use unit fact provided visible owned sameKey isUse =>
        refine .inl (.inl ?_)
        rw [if_pos provided]
        have visible := Bool.or_eq_true_iff.2 (visible.imp_right fun same => decide_eq_true same)
        refine List.mem_map.2 ⟨unit, List.mem_filter.2 ⟨?_, visible⟩, rfl⟩
        exact indexed.users.2 ⟨fact, owned, sameKey, isUse⟩
    | @edge fact owned depends =>
        refine .inl (.inr (List.mem_map.2 ⟨fact.key, ?_, rfl⟩))
        exact indexed.dependents.2 ⟨fact, owned, rfl, depends⟩
    | @cascade fact cascades owned provided shown =>
        refine .inr ?_
        rw [if_pos cascades]
        refine List.mem_map.2 ⟨fact, List.mem_filter.2 ⟨owned, ?_⟩, rfl⟩
        rw [provided, shown, Bool.and_self]

/-- What is reached through the indices is what is reached according to the facts. -/
theorem Indexed.reached_moves_iff {store : Store} (indexed : store.Indexed)
    {enters : NodeRef → Prop} {starts : List Node} {ref : NodeRef}
    : store.Reached store.Moves enters starts ref
      ↔ store.Reached store.ReverseStep enters starts ref := by
  have sameMoves : store.Moves = store.ReverseStep := by
    funext node next
    exact propext indexed.moves_iff
  rw [sameMoves]

/-- Where the indices agree with the facts, a search that passes everything and has seen nothing
decides what is reached according to the facts.
-/
theorem Indexed.mem_discover_iff_reached {store : Store} (indexed : store.Indexed)
    {starts : List Node} {ref : NodeRef}
    : ref ∈ store.discover (fun _ => true) [] starts
      ↔ store.Reached store.ReverseStep (fun _ => True) starts ref := by
  rw [mem_discover_iff, indexed.reached_moves_iff]
  simp only [List.not_mem_nil, not_false_eq_true, and_self]

end Store

end Invalidation
