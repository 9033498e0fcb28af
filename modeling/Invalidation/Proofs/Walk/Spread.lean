import Invalidation.Proofs.Walk.Marks
import Invalidation.Proofs.Walk.ReverseStep

/-! Where a walk spreads: the least set of stored nodes without a mark that holds what the walk
begins with and is closed under reverse steps. A walk marks exactly this set and reports exactly its
owners. The order in which it goes, and the marks that it sets on its way, play no part in that.
-/

namespace Invalidation.Store

/-- The least set of stored nodes without a mark that holds those of the given ones and every one
that is a reverse step away from a node of the set.
-/
inductive Spread (store : Store) (starts : NodeRef → Prop) : NodeRef → Prop
  | start {ref} (isStart : starts ref) (stored : store.contains ref)
    (unmarked : ref ∉ store.marked)
    : store.Spread starts ref
  | step {before node next} (spread : store.Spread starts before)
    (held : store.node? before = some node) (step : store.ReverseStep node next)
    (stored : store.contains next) (unmarked : next ∉ store.marked)
    : store.Spread starts next

variable {store : Store} {starts : NodeRef → Prop} {ref : NodeRef}

/-- What a search discovers from stored nodes of a spread belongs to the spread, if it enters only
stored nodes without a mark; by induction on the way.
-/
theorem Indexed.spread_of_mem_discover (indexed : store.Indexed) {passes : NodeRef → Bool}
    {seen : List NodeRef} {queue : List Node}
    (begins
      : ∀ node ∈ queue, ∃ before, store.Spread starts before ∧ store.node? before = some node)
    (enters : ∀ next, passes next = true → store.contains next ∧ next ∉ store.marked)
    (found : ref ∈ store.discover passes seen queue)
    : store.Spread starts ref := by
  have reached := mem_discover_iff.1 found
  induction reached with
  | first isStart moved entered =>
      obtain ⟨before, spread, held⟩ := begins _ isStart
      obtain ⟨stored, unmarked⟩ := enters _ entered.1
      exact .step spread held (indexed.moves_iff.1 moved) stored unmarked
  | next reached held moved entered ih =>
      obtain ⟨stored, unmarked⟩ := enters _ entered.1
      exact .step (ih (mem_discover_iff.2 reached)) held (indexed.moves_iff.1 moved) stored unmarked

-----------------------------------------------------------------------------------------
-- Walks from stored definitions
-----------------------------------------------------------------------------------------

/-- The nodes are definitions, and each is stored as it is given. -/
def HoldsDefinitions (store : Store) (seeds : List Node) : Prop :=
  ∀ seed ∈ seeds, seed.isDefinition = true ∧ store.node? seed.ref = some seed

section

variable {seeds : List Node}

theorem HoldsDefinitions.contains (holds : store.HoldsDefinitions seeds) {node : Node}
    (isSeed : node ∈ seeds)
    : store.contains node.ref := by
  simpa [node?, Store.contains] using congrArg Option.isSome (holds node isSeed).2

/-- Where a walk from stored definitions begins and what it reaches belongs to their spread. -/
theorem Indexed.spread_of_walkFrom (indexed : store.Indexed)
    (holds : store.HoldsDefinitions seeds)
    (walked
      : (∃ node ∈ store.beginnings seeds, node.ref = ref ∧ store.contains ref)
        ∨ ref ∈ (store.walkFrom seeds).reached)
    : store.Spread (· ∈ seeds.map Node.ref) ref := by
  rcases walked with ⟨node, isBeginning, rfl, stored⟩ | reached
  · obtain ⟨isSeed, -, unmarked⟩ := mem_beginnings.1 isBeginning
    exact .start (List.mem_map_of_mem isSeed) stored unmarked
  · have sameMoves : (store.begun seeds).Alike store := alike_withMarks store _
    rw [walkFrom_reached, sameMoves.discover] at reached
    refine indexed.spread_of_mem_discover (fun node isBeginning => ?_) (fun next entered => ?_)
      reached
    · obtain ⟨isSeed, -, unmarked⟩ := mem_beginnings.1 isBeginning
      exact ⟨node.ref, .start (List.mem_map_of_mem isSeed) (holds.contains isSeed) unmarked,
        (holds node isSeed).2⟩
    · obtain ⟨known, unmarked⟩ := isOpen_iff.1 entered
      exact ⟨known, fun marked => unmarked (mem_marked_mark.2 (.inl marked))⟩

/-- From stored definitions a walk goes through exactly the nodes to which they spread: those where
it begins and those that it reaches. It does not enter another one of the definitions, but then it
begins there too, or the definition is marked.
-/
theorem Indexed.walkFrom_spread_iff (indexed : store.Indexed)
    (holds : store.HoldsDefinitions seeds)
    : ((∃ node ∈ store.beginnings seeds, node.ref = ref ∧ store.contains ref)
        ∨ ref ∈ (store.walkFrom seeds).reached)
      ↔ store.Spread (· ∈ seeds.map Node.ref) ref := by
  have begins {node : Node} (isSeed : node ∈ seeds) (unmarked : node.ref ∉ store.marked)
      : node ∈ store.beginnings seeds :=
    mem_beginnings.2 ⟨isSeed, (holds node isSeed).1, unmarked⟩
  refine ⟨indexed.spread_of_walkFrom holds, fun spread => ?_⟩
  induction spread with
  | start isStart known unmarked =>
      obtain ⟨node, isSeed, rfl⟩ := List.mem_map.1 isStart
      exact .inl ⟨node, begins isSeed unmarked, rfl, known⟩
  | @step before node next _ held step known unmarked ih =>
      have expanded
          : node ∈ store.beginnings seeds
            ∨ ∃ ref ∈ (store.walkFrom seeds).reached, store.node? ref = some node := by
        rcases ih with ⟨other, isBeginning, rfl, -⟩ | reached
        · have same := (holds other (mem_beginnings.1 isBeginning).1).2
          obtain rfl := Option.some.inj (same.symm.trans held)
          exact .inl isBeginning
        · exact .inr ⟨before, reached, held⟩
      rcases walkFrom_enters expanded (indexed.moves_iff.2 step) known with
        marked | isSeed | reached
      · exact absurd marked unmarked
      · obtain ⟨other, given, rfl⟩ := List.mem_map.1 isSeed
        exact .inl ⟨other, begins given unmarked, rfl, known⟩
      · exact .inr reached

theorem Indexed.mem_marked_walkFrom_iff_spread (indexed : store.Indexed)
    (holds : store.HoldsDefinitions seeds)
    : ref ∈ (store.walkFrom seeds).store.marked
      ↔ ref ∈ store.marked ∨ store.Spread (· ∈ seeds.map Node.ref) ref :=
  mem_marked_walkFrom.trans (or_congr_right (indexed.walkFrom_spread_iff holds))

/-- From stored definitions a walk reports exactly the owners of the nodes to which they spread. -/
theorem Indexed.mem_walkFrom_units_iff_spread (indexed : store.Indexed)
    (holds : store.HoldsDefinitions seeds) {unit : UnitName}
    : unit ∈ (store.walkFrom seeds).units
      ↔ ∃ ref, ref.unit = unit ∧ store.Spread (· ∈ seeds.map Node.ref) ref := by
  constructor
  · intro told
    simp only [walkFrom_units_eq, List.mem_eraseDups, List.mem_append, List.mem_map] at told
    rcases told with ⟨node, reported, rfl⟩ | ⟨ref, reached, rfl⟩
    · obtain ⟨isSeed, given⟩ := List.mem_filter.1 reported
      have unmarked : node.ref ∉ store.marked := by
        simpa [(holds node isSeed).1] using given
      exact ⟨node.ref, rfl, .start (List.mem_map_of_mem isSeed) (holds.contains isSeed) unmarked⟩
    · exact ⟨ref, rfl, (indexed.walkFrom_spread_iff holds).1 (.inr reached)⟩
  · intro owned
    obtain ⟨ref, rfl, spread⟩ := owned
    rcases (indexed.walkFrom_spread_iff holds).2 spread with
      ⟨node, isBeginning, rfl, -⟩ | reached
    · obtain ⟨isSeed, -, unmarked⟩ := mem_beginnings.1 isBeginning
      exact mem_walkFrom_units_of_seed isSeed unmarked
    · exact mem_walkFrom_units_of_reached reached

end

-----------------------------------------------------------------------------------------
-- Walks into nodes
-----------------------------------------------------------------------------------------

section

variable {nodes : List NodeRef}

/-- A walk into nodes reaches exactly the nodes to which they spread, themselves among them. -/
theorem Indexed.mem_walkInto_reached_iff_spread (indexed : store.Indexed)
    : ref ∈ (store.walkInto nodes).reached ↔ store.Spread (· ∈ nodes) ref := by
  have first {ref : NodeRef} (entered : ref ∈ fresh store.isOpen [] nodes)
      : store.Spread (· ∈ nodes) ref := by
    obtain ⟨given, passed, -⟩ := mem_fresh.1 entered
    obtain ⟨stored, unmarked⟩ := isOpen_iff.1 passed
    exact .start given stored unmarked
  constructor
  · intro reached
    rcases List.mem_append.1 reached with entered | later
    · exact first entered
    · have sameMoves : (store.mark (fresh store.isOpen [] nodes)).Alike store :=
        alike_withMarks store _
      rw [sameMoves.discover] at later
      refine indexed.spread_of_mem_discover (fun node queued => ?_) (fun next entered => ?_) later
      · obtain ⟨ref, entered, held⟩ := List.mem_filterMap.1 queued
        exact ⟨ref, first entered, held⟩
      · obtain ⟨known, unmarked⟩ := isOpen_iff.1 entered
        exact ⟨known, fun marked => unmarked (mem_marked_mark.2 (.inl marked))⟩
  · intro spread
    induction spread with
    | start isStart stored unmarked =>
        have entered := mem_fresh.2
          ⟨isStart, isOpen_iff.2 ⟨stored, unmarked⟩, List.not_mem_nil⟩
        exact List.mem_append_left _ entered
    | step _ held step stored unmarked ih =>
        exact (walkInto_beyond ih held (indexed.moves_iff.2 step) stored).resolve_left unmarked

theorem Indexed.mem_marked_walkInto_iff_spread (indexed : store.Indexed)
    : ref ∈ (store.walkInto nodes).store.marked
      ↔ ref ∈ store.marked ∨ store.Spread (· ∈ nodes) ref :=
  mem_marked_walkInto.trans (or_congr_right indexed.mem_walkInto_reached_iff_spread)

/-- A walk into nodes reports exactly the owners of the nodes to which they spread. -/
theorem Indexed.mem_walkInto_units_iff_spread (indexed : store.Indexed) {unit : UnitName}
    : unit ∈ (store.walkInto nodes).units
      ↔ ∃ ref, ref.unit = unit ∧ store.Spread (· ∈ nodes) ref := by
  have owners
      : unit ∈ (store.walkInto nodes).units
        ↔ ∃ ref ∈ (store.walkInto nodes).reached, ref.unit = unit :=
    List.mem_eraseDups.trans List.mem_map
  simp only [owners, indexed.mem_walkInto_reached_iff_spread, and_comm]

end

end Invalidation.Store
