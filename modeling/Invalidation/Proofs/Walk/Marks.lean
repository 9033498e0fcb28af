import Invalidation.Proofs.Walk.Report

/-! A walk accounts for the marks that it sets: it reports the owner of whatever it marks, and the
owners of whatever depends on a definition that it marks, unless those were marked before. So no
mark hides anything that nobody was told of.
-/

namespace Invalidation

namespace Store

variable {store : Store}

/-- What is marked anew is accounted for: the owner of a newly marked node is told of, and so is the
owner of whatever depends on a newly marked definition, unless that was marked before.
-/
structure Accounts (before after : Store) (told : UnitName → Prop) : Prop where
  owner : ∀ ref ∈ after.marked, ref ∈ before.marked ∨ told ref.unit
  dependent
    : ∀ {ref fact next},
        ref ∈ after.marked
        → before.fact? ref = some fact
        → fact.isDefinition = true
        → before.Moves ⟨fact, ref.unit⟩ next
        → before.contains next
        → ref ∈ before.marked ∨ next ∈ before.marked ∨ told next.unit

/-- Where nothing is marked anew, nothing has to be accounted for. -/
theorem Accounts.of_marked_subset {before after : Store} {told : UnitName → Prop}
    (subset : after.marked ⊆ before.marked)
    : before.Accounts after told :=
  ⟨fun _ marked => .inl (subset marked), fun marked _ _ _ _ => .inl (subset marked)⟩

theorem Accounts.mono {before after : Store} {told told' : UnitName → Prop}
    (accounts : before.Accounts after told) (wider : ∀ unit, told unit → told' unit)
    : before.Accounts after told' := by
  constructor
  · intro ref marked
    exact (accounts.owner ref marked).imp_right (wider ref.unit)
  · intro ref fact next marked found provided moved stored
    have known := accounts.dependent marked found provided moved stored
    exact known.imp_right (Or.imp_right (wider next.unit))

/-- The moves from a definition depend on nothing but its identity. -/
theorem moves_iff_of_definition {node other : Node} (provided : node.isDefinition = true)
    (otherProvided : other.isDefinition = true) (same : node.ref = other.ref) {next : NodeRef}
    : store.Moves node next ↔ store.Moves other next := by
  have sameSteps : store.stepsFrom node = store.stepsFrom other := by
    simp only [stepsFrom, provided, otherProvided, Fact.cascades_of_isDefinition provided,
      Fact.cascades_of_isDefinition otherProvided, same, Bool.false_eq_true, ↓reduceIte]
  rw [Moves, Moves, sameSteps]

/-- A search discovers whatever is one move beyond its queue or beyond a node that it discovers, if
that passes and was not seen.
-/
theorem mem_discover_of_moves {passes : NodeRef → Bool} {seen : List NodeRef} {queue : List Node}
    {node : Node} {next : NodeRef}
    (walked
      : node ∈ queue
        ∨ ∃ ref ∈ store.discover passes seen queue, store.node? ref = some node)
    (moved : store.Moves node next) (passed : passes next) (unseen : next ∉ seen)
    : next ∈ store.discover passes seen queue := by
  rw [mem_discover_iff]
  rcases walked with queued | ⟨ref, discovered, stored⟩
  · exact .first queued moved ⟨passed, unseen⟩
  · exact .next (mem_discover_iff.1 discovered) stored moved ⟨passed, unseen⟩

theorem node?_of_fact? {ref : NodeRef} {fact : Fact} (found : store.fact? ref = some fact)
    : store.node? ref = some ⟨fact, ref.unit⟩ := by
  rw [node?, found, Option.map_some]

theorem isOpen_iff {ref : NodeRef}
    : store.isOpen ref ↔ store.contains ref ∧ ref ∉ store.marked := by
  simp [isOpen]

-----------------------------------------------------------------------------------------
-- Walks from invalidated nodes
-----------------------------------------------------------------------------------------

/-- The definitions from which a walk begins: those given that are not marked. -/
def beginnings (store : Store) (seeds : List Node)
    : List Node :=
  (seeds.filter fun node => !node.isDefinition || !store.marked.contains node.ref).filter
    (·.isDefinition)

theorem mem_beginnings {seeds : List Node} {node : Node}
    : node ∈ store.beginnings seeds
      ↔ node ∈ seeds ∧ node.isDefinition = true ∧ node.ref ∉ store.marked := by
  simp only [beginnings, List.mem_filter, and_assoc]
  constructor
  · rintro ⟨isSeed, unmarked, provided⟩
    exact ⟨isSeed, provided, by simpa [provided] using unmarked⟩
  · rintro ⟨isSeed, provided, unmarked⟩
    exact ⟨isSeed, by simp [unmarked], provided⟩

/-- The store in which the definitions from which a walk begins are marked. -/
def begun (store : Store) (seeds : List Node)
    : Store :=
  store.mark (((store.beginnings seeds).map Node.ref).filter store.contains)

theorem walkFrom_reached (seeds : List Node)
    : (store.walkFrom seeds).reached
      = (store.begun seeds).discover (store.begun seeds).isOpen (seeds.map Node.ref)
          (store.beginnings seeds) :=
  rfl

theorem walkFrom_units_eq (seeds : List Node)
    : (store.walkFrom seeds).units
      = ((seeds.filter fun node =>
            !node.isDefinition || !store.marked.contains node.ref).map Node.unit
          ++ (store.walkFrom seeds).reached.map NodeRef.unit).eraseDups :=
  rfl

theorem mem_walkFrom_units_of_seed {seeds : List Node} {node : Node} (isSeed : node ∈ seeds)
    (unmarked : node.ref ∉ store.marked)
    : node.unit ∈ (store.walkFrom seeds).units := by
  refine List.mem_eraseDups.2 (List.mem_append_left _ (List.mem_map.2 ⟨node, ?_, rfl⟩))
  exact List.mem_filter.2 ⟨isSeed, by simp [unmarked]⟩

theorem mem_walkFrom_units_of_reached {seeds : List Node} {ref : NodeRef}
    (reached : ref ∈ (store.walkFrom seeds).reached)
    : ref.unit ∈ (store.walkFrom seeds).units :=
  List.mem_eraseDups.2 (List.mem_append_right _ (List.mem_map.2 ⟨ref, reached, rfl⟩))

/-- What is marked when a walk is over was marked before, is a definition from which the walk began,
or was reached.
-/
theorem mem_marked_walkFrom {seeds : List Node} {ref : NodeRef}
    : ref ∈ (store.walkFrom seeds).store.marked
      ↔ ref ∈ store.marked
        ∨ (∃ node ∈ store.beginnings seeds, node.ref = ref ∧ store.contains ref)
        ∨ ref ∈ (store.walkFrom seeds).reached := by
  have unfolded
      : (store.walkFrom seeds).store
        = (store.begun seeds).mark (store.walkFrom seeds).reached := rfl
  rw [unfolded, mem_marked_mark, begun, mem_marked_mark, List.mem_filter, List.mem_map, or_assoc]
  refine or_congr_right (or_congr_left ?_)
  constructor
  · rintro ⟨⟨node, member, rfl⟩, stored⟩
    exact ⟨node, member, rfl, stored⟩
  · rintro ⟨node, member, rfl, stored⟩
    exact ⟨⟨node, member, rfl⟩, stored⟩

/-- A stored node that is one move beyond what a walk expands was marked before, is one of the given
nodes, or is reached as well.
-/
theorem walkFrom_enters {seeds : List Node} {node : Node} {next : NodeRef}
    (expanded
      : node ∈ store.beginnings seeds
        ∨ ∃ ref ∈ (store.walkFrom seeds).reached, store.node? ref = some node)
    (moved : store.Moves node next) (stored : store.contains next)
    : next ∈ store.marked ∨ next ∈ seeds.map Node.ref ∨ next ∈ (store.walkFrom seeds).reached := by
  by_cases before : next ∈ store.marked
  · exact .inl before
  · right
    by_cases isSeed : next ∈ seeds.map Node.ref
    · exact .inl isSeed
    · right
      rw [walkFrom_reached]
      refine mem_discover_of_moves expanded moved (isOpen_iff.2 ⟨stored, ?_⟩) isSeed
      rw [begun, mem_marked_mark, not_or]
      refine ⟨before, fun begins => isSeed ?_⟩
      obtain ⟨seed, member, rfl⟩ := List.mem_map.1 (List.mem_of_mem_filter begins)
      exact List.mem_map.2 ⟨seed, (mem_beginnings.1 member).1, rfl⟩

/-- A stored node that is one move beyond what a walk expands was marked before or belongs to a unit
that the walk reports: the walk reaches it unless it is one of the given nodes.
-/
theorem walkFrom_beyond {seeds : List Node} {node : Node} {next : NodeRef}
    (expanded
      : node ∈ store.beginnings seeds
        ∨ ∃ ref ∈ (store.walkFrom seeds).reached, store.node? ref = some node)
    (moved : store.Moves node next) (stored : store.contains next)
    : next ∈ store.marked ∨ next.unit ∈ (store.walkFrom seeds).units := by
  by_cases before : next ∈ store.marked
  · exact .inl before
  · rcases walkFrom_enters expanded moved stored with marked | isSeed | reached
    · exact .inl marked
    · obtain ⟨seed, member, rfl⟩ := List.mem_map.1 isSeed
      exact .inr (mem_walkFrom_units_of_seed member before)
    · exact .inr (mem_walkFrom_units_of_reached reached)

theorem walkFrom_accounts (store : Store) (seeds : List Node)
    : store.Accounts (store.walkFrom seeds).store (· ∈ (store.walkFrom seeds).units) := by
  constructor
  · intro ref marked
    rcases mem_marked_walkFrom.1 marked with before | ⟨node, begins, rfl, -⟩ | reached
    · exact .inl before
    · obtain ⟨isSeed, -, unmarked⟩ := mem_beginnings.1 begins
      exact .inr (mem_walkFrom_units_of_seed isSeed unmarked)
    · exact .inr (mem_walkFrom_units_of_reached reached)
  · intro ref fact next marked found provided moved stored
    rcases mem_marked_walkFrom.1 marked with before | ⟨node, begins, rfl, -⟩ | reached
    · exact .inl before
    · obtain ⟨-, isDefinition, -⟩ := mem_beginnings.1 begins
      have sameRef : Node.ref ⟨fact, node.unit⟩ = node.ref := by
        rw [Node.ref, Node.ref, key_of_fact? found]
        rfl
      have moved := (moves_iff_of_definition provided isDefinition sameRef).1 moved
      exact .inr (walkFrom_beyond (.inl begins) moved stored)
    · exact .inr (walkFrom_beyond (.inr ⟨ref, reached, node?_of_fact? found⟩) moved stored)

-----------------------------------------------------------------------------------------
-- Walks from the users of an artifact
-----------------------------------------------------------------------------------------

theorem mem_walkInto_units {nodes : List NodeRef} {ref : NodeRef}
    (reached : ref ∈ (store.walkInto nodes).reached)
    : ref.unit ∈ (store.walkInto nodes).units :=
  List.mem_eraseDups.2 (List.mem_map.2 ⟨ref, reached, rfl⟩)

theorem mem_marked_walkInto {nodes : List NodeRef} {ref : NodeRef}
    : ref ∈ (store.walkInto nodes).store.marked
      ↔ ref ∈ store.marked ∨ ref ∈ (store.walkInto nodes).reached := by
  simp only [walkInto, mem_marked_mark, List.mem_append, or_assoc]

/-- A stored node that is one move beyond what such a walk reaches was marked before or is reached
as well.
-/
theorem walkInto_beyond {nodes : List NodeRef} {ref next : NodeRef} {node : Node}
    (reached : ref ∈ (store.walkInto nodes).reached) (found : store.node? ref = some node)
    (moved : store.Moves node next) (stored : store.contains next)
    : next ∈ store.marked ∨ next ∈ (store.walkInto nodes).reached := by
  by_cases before : next ∈ store.marked
  · exact .inl before
  · right
    by_cases isFirst : next ∈ fresh store.isOpen [] nodes
    · exact List.mem_append_left _ isFirst
    · refine List.mem_append_right _ (mem_discover_of_moves ?_ moved ?_ isFirst)
      · rcases List.mem_append.1 reached with first | later
        · exact .inl (List.mem_filterMap.2 ⟨ref, first, found⟩)
        · exact .inr ⟨ref, later, found⟩
      · rw [isOpen_iff, mem_marked_mark, not_or]
        exact ⟨stored, before, isFirst⟩

theorem walkInto_accounts (store : Store) (nodes : List NodeRef)
    : store.Accounts (store.walkInto nodes).store (· ∈ (store.walkInto nodes).units) := by
  constructor
  · intro ref marked
    exact (mem_marked_walkInto.1 marked).imp_right mem_walkInto_units
  · intro ref fact next marked found provided moved stored
    rcases mem_marked_walkInto.1 marked with before | reached
    · exact .inl before
    · have beyond := walkInto_beyond reached (node?_of_fact? found) moved stored
      exact .inr (beyond.imp_right mem_walkInto_units)

end Store

end Invalidation
