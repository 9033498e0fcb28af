import Invalidation.Proofs.Integration.Replacement

/-! The answer to the question asked right after an integration. No mark is left where the walk
could meet it, so the answer is decided by the stored facts and by what the integration lists.
-/

namespace Invalidation

/-- The definitions that an integration lists, as they are now or, if removed, as they were. -/
def Invalidated.definitions (invalidated : Invalidated) : List Node :=
  Store.definitionsOf invalidated.nodes

/-- An integration lists a node as a use. -/
def Invalidated.ListsUse (invalidated : Invalidated) (ref : NodeRef) : Prop :=
  ∃ node ∈ invalidated.nodes, node.isDefinition = false ∧ node.ref = ref

/-- A walk from what an integration lists finds a unit: the unit owns something that is reached from
the listed definitions, according to the stored facts, without entering a listed use.
-/
def Store.Finds (store : Store) (invalidated : Invalidated) (unit : UnitName) : Prop :=
  ∃ ref,
    ref.unit = unit
    ∧ store.Reached store.ReverseStep (fun next => ¬invalidated.ListsUse next)
        invalidated.definitions ref

theorem Invalidated.mem_refs_iff {invalidated : Invalidated} {ref : NodeRef}
    : ref ∈ invalidated.nodes.map Node.ref
      ↔ ref ∈ invalidated.definitions.map Node.ref ∨ invalidated.ListsUse ref := by
  simp only [definitions, Store.definitionsOf, ListsUse, List.mem_map, List.mem_filter]
  constructor
  · intro given
    obtain ⟨node, member, rfl⟩ := given
    cases provided : node.isDefinition with
    | true => exact .inl ⟨node, ⟨member, provided⟩, rfl⟩
    | false => exact .inr ⟨node, member, provided, rfl⟩
  · rintro (⟨node, ⟨member, -⟩, rfl⟩ | ⟨node, member, -, rfl⟩) <;> exact ⟨node, member, rfl⟩

namespace Integration

variable {store : Store} {externals : Externals} {granularity : Granularity} {unit : UnitName}
  {incoming : List Fact} {result : Result}

/-- After an integration no node of the unit is marked. -/
theorem not_marked_of_unit (ran : run store externals granularity unit incoming = result)
    (synced : store.Synced) (marksStored : store.MarksStored) {ref : NodeRef}
    (sameUnit : ref.unit = unit)
    : ref ∉ result.store.marked := by
  intro marked
  have stored := run_marksStored ran marksStored ref marked
  rw [run_store ran] at marked
  have unmarked := (Store.mem_marked_unmark.1 (Store.mem_marked_unmark.1 marked).1).2
  subst ran sameUnit
  exact unmarked (List.mem_map.2 ⟨ref.key, ((synced_replaced synced).listed ref).2 stored, rfl⟩)

/-- A listed definition that is stored after the integration is the stored node. -/
theorem mem_definitions_of_node?
    (ran : run store externals granularity unit incoming = result)
    (indexed : store.Indexed) (distinct : (incoming.map (·.key)).Nodup) {ref : NodeRef}
    {node : Node}
    (listed : ref ∈ result.invalidated.definitions.map Node.ref)
    (stored : result.store.node? ref = some node)
    : node ∈ result.invalidated.definitions := by
  obtain ⟨definition, isListed, rfl⟩ := List.mem_map.1 listed
  rw [eq_of_node?_listed ran indexed distinct (List.mem_of_mem_filter isListed) stored]
  exact isListed

/-- An integration leaves no mark that a walk from what it lists could meet. Its own unit is
unmarked, and the search that unmarks goes wherever the walk can go, since it stops only at listed
definitions, from which it starts.
-/
theorem run_clearBeyond (ran : run store externals granularity unit incoming = result)
    (indexed : store.Indexed) (distinct : (incoming.map (·.key)).Nodup)
    (marksStored : store.MarksStored)
    : result.store.ClearBeyond result.invalidated.nodes := by
  constructor
  · intro node listed _
    exact not_marked_of_unit ran indexed.toSynced marksStored (listed_cases_of_any ran listed).1
  · intro ref reached
    rcases reached.avoiding
        (fun _ _ listed stored => mem_definitions_of_node? ran indexed distinct listed stored)
      with free | listed
    · have sameMoves : ((replaced store unit incoming).unmarkUnit unit).Alike result.store := by
        subst ran
        exact ⟨⟨rfl, fun _ => rfl⟩, fun _ => rfl, fun _ => rfl⟩
      have unmarks
          : ref ∈ ((replaced store unit incoming).unmarkUnit unit).discover (fun _ => true)
              (result.invalidated.definitions.map Node.ref) result.invalidated.definitions := by
        rw [sameMoves.discover, Store.mem_discover_iff]
        exact free.mono fun _ _ _ entered => ⟨rfl, entered.2⟩
      rw [run_store ran]
      exact fun marked => (Store.mem_marked_unmark.1 marked).2 unmarks
    · obtain ⟨node, isListed, rfl⟩ := List.mem_map.1 listed
      exact not_marked_of_unit ran indexed.toSynced marksStored
        (listed_cases_of_any ran (List.mem_of_mem_filter isListed)).1

/-- The walk right after an integration reports exactly the unit itself, if anything is listed, and
the units that a walk from what is listed finds.
-/
theorem mem_walkFrom_run_units (ran : run store externals granularity unit incoming = result)
    (indexed : store.Indexed) (distinct : (incoming.map (·.key)).Nodup)
    (marksStored : store.MarksStored) {owner : UnitName}
    : owner ∈ (result.store.walkFrom result.invalidated.nodes).units
      ↔ (result.invalidated.entries ≠ [] ∧ owner = unit)
        ∨ result.store.Finds result.invalidated owner := by
  have afterIndexed := run_indexed ran indexed
  have owns {node : Node} (listed : node ∈ result.invalidated.nodes) : node.unit = unit :=
    (listed_cases_of_any ran listed).1
  rw [Store.mem_walkFrom_units (run_clearBeyond ran indexed distinct marksStored)]
  constructor
  · intro given
    rcases given with ⟨node, listed, rfl⟩ | ⟨ref, sameUnit, reached⟩
    · obtain ⟨entry, member, rfl⟩ := List.mem_map.1 listed
      exact .inl ⟨List.ne_nil_of_mem member, owns listed⟩
    · refine .inr ⟨ref, sameUnit, afterIndexed.reached_moves_iff.1
        (reached.mono fun _ _ _ entered isUse => ?_)⟩
      exact entered.2 (Invalidated.mem_refs_iff.2 (.inr isUse))
  · intro given
    rcases given with ⟨nonempty, rfl⟩ | ⟨ref, sameUnit, reached⟩
    · obtain ⟨entry, member⟩ := List.exists_mem_of_ne_nil _ nonempty
      have listed : entry.node ∈ result.invalidated.nodes := List.mem_map.2 ⟨entry, member, rfl⟩
      exact .inl ⟨entry.node, listed, owns listed⟩
    · rcases reached.avoiding
          (fun _ _ listed stored => mem_definitions_of_node? ran indexed distinct listed stored)
        with free | listed
      · refine .inr ⟨ref, sameUnit, afterIndexed.reached_moves_iff.2
          (free.mono fun _ _ step entered => ⟨step.contains, ?_⟩)⟩
        intro listed
        exact (Invalidated.mem_refs_iff.1 listed).elim entered.2 entered.1
      · obtain ⟨node, isListed, rfl⟩ := List.mem_map.1 listed
        exact .inl ⟨node, List.mem_of_mem_filter isListed, sameUnit⟩

end Integration

end Invalidation
