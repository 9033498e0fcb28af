import Invalidation.Store

/-! Walks through a store in reverse, from facts to the nodes that depend on them, breadth first.
One search serves both the walk that reports units, which stops at marked nodes and marks what it
reaches, and the walk that takes those marks away again.
-/

namespace Invalidation

namespace Store

/-- The nodes that a walk moves to from a node: the uses of its key if it is a definition, the nodes
of its unit with an edge to it, and, if it is a cascading use, whatever its unit shows to others.
-/
def stepsFrom (store : Store) (node : Node)
    : List NodeRef :=
  (if node.isDefinition then store.usesOf node.ref else [])
  ++ store.dependentNodes node.ref
  ++ (if node.role.cascades then store.exportsOf node.unit else [])

/-- The nodes among those given that pass and were not seen, each once. -/
def fresh (passes : NodeRef → Bool) (seen nodes : List NodeRef)
    : List NodeRef :=
  (nodes.filter fun node => passes node && !seen.contains node).eraseDups

/-- The nodes that a search discovers, in order, where the nodes in the queue are expanded first and
then those discovered, as long as they are stored.
-/
def search (store : Store) (passes : NodeRef → Bool)
    : Nat → List NodeRef → List Node → List NodeRef
  | 0, _, _ | _, _, [] => []
  | fuel + 1, seen, node :: queue =>
      let found := fresh passes seen (store.stepsFrom node)
      found
      ++ store.search passes fuel (seen ++ found) (queue ++ found.filterMap store.node?)

/-- The nodes discovered from those in the queue, other than the ones seen before. A stored node
enters the queue at most once, so its length and the number of stored nodes are fuel enough.
-/
def discover (store : Store) (passes : NodeRef → Bool) (seen : List NodeRef) (queue : List Node)
    : List NodeRef :=
  store.search passes (queue.length + store.nodeCount) seen queue

/-- Whether a walk that reports may enter a node: it is stored and not marked. -/
def isOpen (store : Store) (node : NodeRef)
    : Bool :=
  store.contains node && !store.marked.contains node

/-- Takes away the marks of every node that a walk from the definitions can reach, so that the next
walk from them reaches all that the last one did.
-/
def unmarkBeyond (store : Store) (definitions : List Node)
    : Store :=
  store.unmark (store.discover (fun _ => true) (definitions.map Node.ref) definitions)

end Store

/-- What a walk that reports found. -/
structure Walk where
  /-- The units to report, in the order in which they were discovered. -/
  units : List UnitName
  /-- The nodes that the walk reached, in order; the nodes it began with are not among them. -/
  reached : List NodeRef
  /-- The store in which the nodes that were walked are marked. -/
  store : Store

namespace Store

/-- Walks from invalidated nodes, which need not be stored. A definition that is marked already has
been reported and is passed by; a use reports its unit, and nothing depends on it.
-/
def walkFrom (store : Store) (seeds : List Node)
    : Walk :=
  let reported := seeds.filter fun node =>
    !node.isDefinition || !store.marked.contains node.ref
  let queue := reported.filter (·.isDefinition)
  let begun := store.mark ((queue.map Node.ref).filter store.contains)
  let reached := begun.discover begun.isOpen (seeds.map Node.ref) queue
  ⟨(reported.map Node.unit ++ reached.map NodeRef.unit).eraseDups, reached, begun.mark reached⟩

/-- Walks from the nodes given, as if something that they depend on had changed. -/
def walkInto (store : Store) (nodes : List NodeRef)
    : Walk :=
  let first := fresh store.isOpen [] nodes
  let begun := store.mark first
  let rest := begun.discover begun.isOpen first (first.filterMap store.node?)
  ⟨((first ++ rest).map NodeRef.unit).eraseDups, first ++ rest, begun.mark rest⟩

end Store

end Invalidation
