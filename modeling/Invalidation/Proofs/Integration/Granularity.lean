import Invalidation.Proofs.Integration.Answer
import Invalidation.Proofs.Walk.Shape

/-! What a coarse integration finds, compared with one of any granularity over the same facts. It
lists whatever the other one lists and no further uses, since a change widens to definitions only.
So a walk from what it lists begins with no less and is held up by no more.
-/

namespace Invalidation.Integration

variable {granularity : Granularity} {snapshot : Snapshot} {incoming : List Fact}

/-- In coarse mode a change widens to whatever it widens to otherwise. -/
theorem widened_subset_coarse (normal : snapshot.normalForm = .ok incoming)
    (entries : List Entry)
    : widened granularity snapshot.unit entries incoming
      ⊆ widened .coarse snapshot.unit entries incoming := by
  intro fact widens
  have provided := isDefinition_of_mem_widened normal widens
  have comes := mem_of_mem_widened widens
  cases entries with
  | nil => cases widens
  | cons entry rest => exact List.mem_filter.2 ⟨comes, provided⟩

/-- A listed use differs by itself. -/
theorem mem_direct_of_use {store : Store} {externals : Externals} {result : Result}
    (ran : run store externals granularity snapshot.unit incoming = result)
    (synced : store.Synced) (normal : snapshot.normalForm = .ok incoming) {entry : Entry}
    (listed : entry ∈ result.invalidated.entries) (isUse : entry.node.isDefinition = false)
    : entry ∈ direct store snapshot.unit incoming := by
  rw [run_entries ran synced (Snapshot.keys_nodup_of_normalForm normal)] at listed
  rcases List.mem_append.1 listed with isDirect | extra
  · exact isDirect
  · obtain ⟨fact, widens, -, rfl⟩ := mem_widening_iff.1 extra
    exact absurd (isDefinition_of_mem_widened normal widens) (by simpa using isUse)

variable {fine coarse : Store} {fineExternals coarseExternals : Externals} {result wider : Result}
  (ran : run fine fineExternals granularity snapshot.unit incoming = result)
  (coarseRan : run coarse coarseExternals .coarse snapshot.unit incoming = wider)
  (indexed : fine.Indexed) (coarseIndexed : coarse.Indexed)
  (normal : snapshot.normalForm = .ok incoming)
  (stored : ∀ unit, fine.factsOf unit = coarse.factsOf unit)

include ran coarseRan indexed coarseIndexed normal stored

theorem entries_subset_coarse : result.invalidated.entries ⊆ wider.invalidated.entries := by
  have distinct := Snapshot.keys_nodup_of_normalForm normal
  rw [run_entries ran indexed.toSynced distinct,
    run_entries coarseRan coarseIndexed.toSynced distinct,
    direct_congr indexed.toSynced coarseIndexed.toSynced (stored _)]
  intro entry listed
  rcases List.mem_append.1 listed with isDirect | extra
  · exact List.mem_append_left _ isDirect
  · obtain ⟨fact, widens, unlisted, isEntry⟩ := mem_widening_iff.1 extra
    exact List.mem_append_right _ (mem_widening_iff.2
      ⟨fact, widened_subset_coarse normal _ widens, unlisted, isEntry⟩)

theorem nodes_subset_coarse : result.invalidated.nodes ⊆ wider.invalidated.nodes :=
  List.map_subset _ (entries_subset_coarse ran coarseRan indexed coarseIndexed normal stored)

/-- A use that a coarse integration lists is listed in any case. -/
theorem listsUse_of_coarse {ref : NodeRef} (listsUse : wider.invalidated.ListsUse ref)
    : result.invalidated.ListsUse ref := by
  obtain ⟨node, listed, isUse, sameRef⟩ := listsUse
  obtain ⟨entry, member, rfl⟩ := List.mem_map.1 listed
  have isDirect := mem_direct_of_use coarseRan coarseIndexed.toSynced normal member isUse
  rw [← direct_congr indexed.toSynced coarseIndexed.toSynced (stored _)] at isDirect
  exact ⟨entry.node, List.mem_map.2 ⟨entry, mem_entries_of_direct ran isDirect, rfl⟩, isUse,
    sameRef⟩

/-- A walk from what a coarse integration lists finds whatever is found otherwise. -/
theorem finds_of_finer {unit : UnitName} (found : result.store.Finds result.invalidated unit)
    : wider.store.Finds wider.invalidated unit := by
  obtain ⟨ref, owns, reached⟩ := found
  have distinct := Snapshot.keys_nodup_of_normalForm normal
  have sameShape : result.store.SameShape wider.store := by
    intro unit
    rw [run_factsOf ran indexed.toSynced distinct,
      run_factsOf coarseRan coarseIndexed.toSynced distinct, stored]
  have synced : result.store.Synced := (run_indexed ran indexed).toSynced
  have starts : result.invalidated.definitions ⊆ wider.invalidated.definitions :=
    List.filter_subset _ (nodes_subset_coarse ran coarseRan indexed coarseIndexed normal stored)
  refine ⟨ref, owns, (reached.mono ?_).sameShape sameShape synced (List.map_subset _ starts)⟩
  intro _ next _ entered
  exact fun isUse =>
    entered (listsUse_of_coarse ran coarseRan indexed coarseIndexed normal stored isUse)

/-- The walk right after a coarse integration reports whatever is reported otherwise. -/
theorem walkFrom_units_subset_coarse (marksStored : fine.MarksStored)
    (coarseMarksStored : coarse.MarksStored)
    : (result.store.walkFrom result.invalidated.nodes).units
      ⊆ (wider.store.walkFrom wider.invalidated.nodes).units := by
  have distinct := Snapshot.keys_nodup_of_normalForm normal
  intro owner told
  rw [mem_walkFrom_run_units ran indexed distinct marksStored] at told
  rw [mem_walkFrom_run_units coarseRan coarseIndexed distinct coarseMarksStored]
  rcases told with ⟨nonempty, own⟩ | found
  · obtain ⟨entry, listed⟩ := List.exists_mem_of_ne_nil _ nonempty
    have member := entries_subset_coarse ran coarseRan indexed coarseIndexed normal stored listed
    exact .inl ⟨List.ne_nil_of_mem member, own⟩
  · exact .inr (finds_of_finer ran coarseRan indexed coarseIndexed normal stored found)

end Invalidation.Integration
