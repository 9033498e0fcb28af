import Invalidation.Proofs.Store.Indexed
import Invalidation.Proofs.Walk.Search

/-! What a walk from invalidated nodes reports where nothing it could meet is marked. The marks then
play no part in the answer: it is the owners of the given nodes and of what is reached from the
definitions among them.
-/

namespace Invalidation

theorem mem_foldl_addLast {α : Type} [DecidableEq α] {list news : List α} {x : α}
    : x ∈ news.foldl addLast list ↔ x ∈ list ∨ x ∈ news := by
  induction news generalizing list with
  | nil => simp
  | cons y rest ih =>
      rw [List.foldl_cons, ih, mem_addLast, List.mem_cons, or_assoc]

namespace Store

theorem mem_marked_mark {store : Store} {nodes : List NodeRef} {ref : NodeRef}
    : ref ∈ (store.mark nodes).marked ↔ ref ∈ store.marked ∨ ref ∈ nodes :=
  mem_foldl_addLast

theorem mem_marked_unmark {store : Store} {nodes : List NodeRef} {ref : NodeRef}
    : ref ∈ (store.unmark nodes).marked ↔ ref ∈ store.marked ∧ ref ∉ nodes := by
  simp [unmark]

/-- The definitions among nodes, where a walk from the nodes begins. -/
def definitionsOf (nodes : List Node) : List Node := nodes.filter (·.isDefinition)

/-- No definition among the nodes is marked, and neither is anything that a walk from them could
reach.
-/
structure ClearBeyond (store : Store) (nodes : List Node) : Prop where
  starts : ∀ node ∈ nodes, node.isDefinition = true → node.ref ∉ store.marked
  reached
    : ∀ ref,
        store.Reached store.Moves (fun _ => True) (definitionsOf nodes) ref
        → ref ∉ store.marked

/-- Where nothing in its way is marked, a walk reports the owners of the given nodes and then those
of the stored nodes that a search from the definitions discovers. The marks that the walk sets
itself are on nodes that it has seen.
-/
theorem walkFrom_units {store : Store} {seeds : List Node} (clear : store.ClearBeyond seeds)
    : (store.walkFrom seeds).units
      = (seeds.map Node.unit
          ++ (store.discover store.contains (seeds.map Node.ref) (definitionsOf seeds)).map
              NodeRef.unit).eraseDups := by
  have reported
      : seeds.filter (fun node => !node.isDefinition || !store.marked.contains node.ref)
        = seeds := by
    apply List.filter_eq_self.2
    intro node member
    cases provided : node.isDefinition with
    | false => rfl
    | true => simpa using clear.starts node member provided
  simp only [walkFrom, reported]
  congr 3
  generalize newlyMarked : ((seeds.filter (·.isDefinition)).map Node.ref).filter store.contains
    = begun
  have sameMoves : (store.mark begun).Alike store := alike_withMarks store _
  rw [sameMoves.discover]
  apply search_congr
  intro ref reached unseen
  have unmarked : ref ∉ (store.mark begun).marked := by
    rw [mem_marked_mark, not_or]
    refine ⟨clear.reached ref reached, fun marked => unseen ?_⟩
    subst newlyMarked
    obtain ⟨node, member, rfl⟩ := List.mem_map.1 (List.mem_of_mem_filter marked)
    exact List.mem_map.2 ⟨node, List.mem_of_mem_filter member, rfl⟩
  simp [isOpen, unmarked, sameMoves.contains]

/-- Where nothing in its way is marked, a walk reports a unit exactly if the unit owns a given node
or a stored node that is reached from the definitions without entering any given node.
-/
theorem mem_walkFrom_units {store : Store} {seeds : List Node} (clear : store.ClearBeyond seeds)
    {unit : UnitName}
    : unit ∈ (store.walkFrom seeds).units
      ↔ (∃ node ∈ seeds, node.unit = unit)
        ∨ ∃ ref,
            ref.unit = unit
            ∧ store.Reached store.Moves
                (fun next => store.contains next ∧ next ∉ seeds.map Node.ref)
                (definitionsOf seeds) ref := by
  rw [walkFrom_units clear, List.mem_eraseDups, List.mem_append, List.mem_map, List.mem_map]
  simp only [mem_discover_iff, and_comm]

theorem MarksStored.mark {store : Store} (stored : store.MarksStored) {nodes : List NodeRef}
    (known : ∀ ref ∈ nodes, store.contains ref)
    : (store.mark nodes).MarksStored := by
  intro ref marked
  rcases mem_marked_mark.1 marked with old | new
  · exact stored ref old
  · exact known ref new

/-- A search that enters only nodes that are open discovers stored nodes. -/
theorem contains_of_mem_discover {store : Store} {seen : List NodeRef} {queue : List Node}
    {ref : NodeRef} (member : ref ∈ store.discover store.isOpen seen queue)
    : store.contains ref := by
  have passed := (mem_discover_iff.1 member).enters_of_reached.1
  rw [isOpen, Bool.and_eq_true] at passed
  exact passed.1

theorem MarksStored.walkFrom {store : Store} (stored : store.MarksStored) (seeds : List Node)
    : (store.walkFrom seeds).store.MarksStored :=
  (stored.mark fun _ begun => (List.mem_filter.1 begun).2).mark fun _ =>
    contains_of_mem_discover

theorem MarksStored.walkInto {store : Store} (stored : store.MarksStored) (nodes : List NodeRef)
    : (store.walkInto nodes).store.MarksStored := by
  refine (stored.mark fun ref begun => ?_).mark fun _ => contains_of_mem_discover
  have passed := (mem_fresh.1 begun).2.1
  rw [isOpen, Bool.and_eq_true] at passed
  exact passed.1

end Store

end Invalidation
