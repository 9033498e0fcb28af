import Invalidation.Proofs.Store.Equivalent
import Invalidation.Proofs.Walk.Marks
import Invalidation.Proofs.Walk.Shape

/-! Walks in equivalent stores go through the same nodes, each in an order of its own: what is
reached depends on the facts alone, and the indices decide only what is reached first. So the same
units are reported and the same nodes are marked.
-/

namespace Invalidation

/-- Two walks report the same units, each once, and leave equivalent stores. -/
structure Walk.Equivalent (left right : Walk) : Prop where
  units : left.units.Perm right.units
  store : left.store.Equivalent right.store

namespace Store

variable {left right : Store}

namespace Equivalent

-----------------------------------------------------------------------------------------
-- Marks
-----------------------------------------------------------------------------------------

/-- Marks given anew leave equivalent stores if they are the same ones. -/
theorem withMarks (equivalent : left.Equivalent right) {marked marked' : List NodeRef}
    (same : ∀ ref, ref ∈ marked ↔ ref ∈ marked')
    : Equivalent { left with marked } { right with marked := marked' } :=
  ⟨⟨equivalent.units, equivalent.fact?⟩, same, equivalent.leftIndexed.withMarks _,
    equivalent.rightIndexed.withMarks _⟩

theorem mark (equivalent : left.Equivalent right) {nodes nodes' : List NodeRef}
    (same : ∀ ref, ref ∈ nodes ↔ ref ∈ nodes')
    : (left.mark nodes).Equivalent (right.mark nodes') := by
  have marked ref : ref ∈ (left.mark nodes).marked ↔ ref ∈ (right.mark nodes').marked := by
    rw [mem_marked_mark, mem_marked_mark, equivalent.marked, same]
  exact equivalent.withMarks marked

theorem unmark (equivalent : left.Equivalent right) {nodes nodes' : List NodeRef}
    (same : ∀ ref, ref ∈ nodes ↔ ref ∈ nodes')
    : (left.unmark nodes).Equivalent (right.unmark nodes') := by
  have marked ref : ref ∈ (left.unmark nodes).marked ↔ ref ∈ (right.unmark nodes').marked := by
    rw [mem_marked_unmark, mem_marked_unmark, equivalent.marked, same]
  exact equivalent.withMarks marked

theorem unmarkUnit (equivalent : left.Equivalent right) (unit : UnitName)
    : (left.unmarkUnit unit).Equivalent (right.unmarkUnit unit) := by
  refine equivalent.unmark fun ref => ?_
  rw [equivalent.keysOf]

theorem marked_contains (equivalent : left.Equivalent right) (ref : NodeRef)
    : left.marked.contains ref = right.marked.contains ref := by
  rw [Bool.eq_iff_iff, List.contains_iff_mem, List.contains_iff_mem, equivalent.marked]

theorem isOpen (equivalent : left.Equivalent right) (ref : NodeRef)
    : left.isOpen ref = right.isOpen ref := by
  rw [Store.isOpen, Store.isOpen, equivalent.contains, equivalent.marked_contains]

-----------------------------------------------------------------------------------------
-- Searches
-----------------------------------------------------------------------------------------

theorem sameShape (equivalent : left.Equivalent right) : left.SameShape right :=
  fun unit => by rw [equivalent.factsOf]

/-- Whatever is reached in one store is reached in the other, where no less is entered and the walk
has no fewer starts.
-/
theorem reached (equivalent : left.Equivalent right) {enters enters' : NodeRef → Prop}
    {starts starts' : List Node} {ref : NodeRef}
    (reached : left.Reached left.Moves enters starts ref)
    (wider : ∀ next, enters next → enters' next) (included : starts ⊆ starts')
    : right.Reached right.Moves enters' starts' ref := by
  have steps := equivalent.leftIndexed.reached_moves_iff.1 reached
  have same := steps.sameShape equivalent.sameShape equivalent.leftIndexed.toSynced
    (List.map_subset Node.bare included)
  exact equivalent.rightIndexed.reached_moves_iff.2 (same.mono fun _ next _ => wider next)

/-- A search discovers the same nodes in both stores, whatever the order in which the nodes to begin
with and the nodes seen before are given.
-/
theorem mem_discover_iff (equivalent : left.Equivalent right) {passes passes' : NodeRef → Bool}
    (samePasses : ∀ ref, passes ref = passes' ref) {seen seen' : List NodeRef}
    (sameSeen : ∀ ref, ref ∈ seen ↔ ref ∈ seen') {queue queue' : List Node}
    (sameQueue : ∀ node, node ∈ queue ↔ node ∈ queue') (ref : NodeRef)
    : ref ∈ left.discover passes seen queue ↔ ref ∈ right.discover passes' seen' queue' := by
  rw [Store.mem_discover_iff, Store.mem_discover_iff]
  constructor
  · intro reached
    refine equivalent.reached reached (fun next entered => ?_) fun node => (sameQueue node).1
    rwa [← samePasses, ← sameSeen]
  · intro reached
    refine equivalent.symm.reached reached (fun next entered => ?_) fun node => (sameQueue node).2
    rwa [samePasses, sameSeen]

theorem unmarkBeyond (equivalent : left.Equivalent right) (definitions : List Node)
    : (left.unmarkBeyond definitions).Equivalent (right.unmarkBeyond definitions) :=
  equivalent.unmark
    (equivalent.mem_discover_iff (fun _ => rfl) (fun _ => Iff.rfl) fun _ => Iff.rfl)

-----------------------------------------------------------------------------------------
-- Walks that report
-----------------------------------------------------------------------------------------

theorem beginnings (equivalent : left.Equivalent right) (seeds : List Node)
    : left.beginnings seeds = right.beginnings seeds := by
  simp only [Store.beginnings, equivalent.marked_contains]

theorem begun (equivalent : left.Equivalent right) (seeds : List Node)
    : (left.begun seeds).Equivalent (right.begun seeds) := by
  refine equivalent.mark fun ref => ?_
  rw [equivalent.beginnings, funext equivalent.contains]

theorem mem_walkFrom_reached_iff (equivalent : left.Equivalent right) (seeds : List Node)
    (ref : NodeRef)
    : ref ∈ (left.walkFrom seeds).reached ↔ ref ∈ (right.walkFrom seeds).reached := by
  have begun := equivalent.begun seeds
  rw [walkFrom_reached, walkFrom_reached, equivalent.beginnings]
  exact begun.mem_discover_iff begun.isOpen (fun _ => Iff.rfl) (fun _ => Iff.rfl) ref

/-- From the same nodes a walk reports the same units in both stores. -/
theorem walkFrom (equivalent : left.Equivalent right) (seeds : List Node)
    : (left.walkFrom seeds).Equivalent (right.walkFrom seeds) := by
  have sameReached := equivalent.mem_walkFrom_reached_iff seeds
  refine ⟨?_, (equivalent.begun seeds).mark sameReached⟩
  rw [walkFrom_units_eq, walkFrom_units_eq]
  refine eraseDups_perm fun unit => ?_
  simp only [equivalent.marked_contains, List.mem_append, List.mem_map, sameReached]

/-- Into the same nodes, in any order, a walk reports the same units in both stores. -/
theorem walkInto (equivalent : left.Equivalent right) {nodes nodes' : List NodeRef}
    (same : ∀ ref, ref ∈ nodes ↔ ref ∈ nodes')
    : (left.walkInto nodes).Equivalent (right.walkInto nodes') := by
  have first (ref : NodeRef)
      : ref ∈ fresh left.isOpen [] nodes ↔ ref ∈ fresh right.isOpen [] nodes' := by
    rw [mem_fresh, mem_fresh, same, equivalent.isOpen]
  have begun := equivalent.mark first
  have queue (node : Node)
      : node ∈ (fresh left.isOpen [] nodes).filterMap left.node?
        ↔ node ∈ (fresh right.isOpen [] nodes').filterMap right.node? := by
    simp only [List.mem_filterMap, first, equivalent.node?]
  have rest := begun.mem_discover_iff begun.isOpen first queue
  refine ⟨eraseDups_perm fun unit => ?_, begun.mark rest⟩
  simp only [List.map_append, List.mem_append, List.mem_map, first, rest]

end Equivalent

end Store

end Invalidation
