import Invalidation.Snapshot.Normal
import Invalidation.Table

/-! The facts that units own, together with the indices that a walk follows in reverse. What is stored
is kept twice, as the fact of each node and as the keys of each unit. Every change goes through `put`
and `drop`, which keep the two in step with each other and with the indices.
-/

namespace Invalidation

/-- A fact together with the unit that owns it. -/
structure Node extends Fact where
  unit : UnitName
deriving DecidableEq

def Node.ref (node : Node) : NodeRef := ⟨node.key, node.unit⟩

def Fact.refIn (fact : Fact) (unit : UnitName) : NodeRef := ⟨fact.key, unit⟩

/-- What is stored about units. -/
structure Store where
  /-- The fact that is stored for each node. -/
  nodes : Table NodeRef Fact
  /-- The keys that each known unit owns, in the order in which their facts were last stored; the
  units stand in the order in which they became known, and stay known without keys.
  -/
  units : Table UnitName (List Key)
  /-- The units that use a key. -/
  users : Index Key UnitName
  /-- The keys of the nodes of the same unit that have an edge to a node. -/
  dependents : Index NodeRef Key
  /-- The nodes whose dependents were reported since they were last stored. -/
  marked : List NodeRef
  /-- A fact is stored for the node with its key. -/
  keyed : ∀ entry ∈ nodes.entries, entry.2.key = entry.1.key

namespace Store

def empty : Store := ⟨.empty, .empty, .empty, .empty, [], fun _ stored => nomatch stored⟩

-----------------------------------------------------------------------------------------
-- Looking up
-----------------------------------------------------------------------------------------

/-- The known units, in the order in which they became known. -/
def unitNames (store : Store) : List UnitName := store.units.keys

def knows (store : Store) (unit : UnitName) : Bool := store.units.contains unit

/-- The keys that a unit owns, in the order in which their facts were last stored. -/
def keysOf (store : Store) (unit : UnitName)
    : List Key :=
  (store.units.get? unit).getD []

/-- The fact that is stored for a node. -/
def fact? (store : Store) (node : NodeRef) : Option Fact := store.nodes.get? node

/-- The facts that a unit owns, in the order in which they were last stored. -/
def factsOf (store : Store) (unit : UnitName)
    : List Fact :=
  (store.keysOf unit).filterMap fun key => store.fact? ⟨key, unit⟩

def nodesOf (store : Store) (unit : UnitName)
    : List Node :=
  (store.factsOf unit).map (⟨·, unit⟩)

def node? (store : Store) (node : NodeRef)
    : Option Node :=
  (store.fact? node).map (⟨·, node.unit⟩)

def contains (store : Store) (node : NodeRef) : Bool := (store.fact? node).isSome

/-- How many nodes are stored. -/
def nodeCount (store : Store) : Nat := store.nodes.entries.length

/-- How many nodes the units own together. -/
def ownedCount (store : Store)
    : Nat :=
  (store.unitNames.flatMap store.keysOf).length

/-- What a unit shows to others: the interface facts that it provides. -/
def exportsOf (store : Store) (unit : UnitName)
    : List NodeRef :=
  ((store.factsOf unit).filter fun fact => fact.isDefinition && fact.key.isInterface).map
    (·.refIn unit)

/-- The uses that see a key as its owner defines it: those of all units for an interface fact, and
those of the owner alone for an implementation fact.
-/
def usesOf (store : Store) (definition : NodeRef)
    : List NodeRef :=
  let units := (store.users.values definition.key).filter fun unit =>
    definition.key.isInterface || unit = definition.unit
  units.map (⟨definition.key, ·⟩)

/-- The nodes of the same unit that have an edge to a node. -/
def dependentNodes (store : Store) (node : NodeRef)
    : List NodeRef :=
  (store.dependents.values node).map (⟨·, node.unit⟩)

-----------------------------------------------------------------------------------------
-- Storing
-----------------------------------------------------------------------------------------

/-- Takes a node out, with its key, its edges, its place in the index of uses and its mark. The unit
stays known.
-/
def drop (store : Store) (node : NodeRef)
    : Store :=
  match store.fact? node with
  | none => store
  | some fact => {
      nodes := store.nodes.alter node fun _ => none
      units := store.units.alter node.unit fun keys => keys.map (·.erase node.key)
      users :=
        if fact.isDefinition then store.users else store.users.unfile node.key node.unit
      dependents := fact.dependsOn.foldl
        (fun index target => index.unfile ⟨target, node.unit⟩ node.key) store.dependents
      marked := store.marked.filter (· ≠ node)
      keyed := Table.forall_mem_alter _ store.keyed nofun
    }

/-- Adds a fact to those of a unit, where no fact with its key is stored. -/
def add (store : Store) (unit : UnitName) (fact : Fact)
    : Store := {
  nodes := store.nodes.alter (fact.refIn unit) fun _ => some fact
  units := store.units.alter unit fun keys => some (addLast (keys.getD []) fact.key)
  users := if fact.isDefinition then store.users else store.users.file fact.key unit
  dependents := fact.dependsOn.foldl
    (fun index target => index.file ⟨target, unit⟩ fact.key) store.dependents
  marked := store.marked
  keyed := Table.forall_mem_alter _ store.keyed fun _ given => Option.some.inj given ▸ rfl
}

/-- Stores a fact of a unit, last, in the place of any that has its key. -/
def put (store : Store) (unit : UnitName) (fact : Fact)
    : Store :=
  (store.drop (fact.refIn unit)).add unit fact

def putAll (store : Store) (unit : UnitName) (facts : List Fact)
    : Store :=
  facts.foldl (·.put unit ·) store

def dropAll (store : Store) (unit : UnitName) (facts : List Fact)
    : Store :=
  facts.foldl (fun store fact => store.drop (fact.refIn unit)) store

-----------------------------------------------------------------------------------------
-- Marks
-----------------------------------------------------------------------------------------

/-- Marks nodes whose dependents are being reported. -/
def mark (store : Store) (nodes : List NodeRef)
    : Store :=
  { store with marked := nodes.foldl addLast store.marked }

def unmark (store : Store) (nodes : List NodeRef)
    : Store :=
  { store with marked := store.marked.filter (!nodes.contains ·) }

def unmarkUnit (store : Store) (unit : UnitName)
    : Store :=
  store.unmark ((store.keysOf unit).map (⟨·, unit⟩))

end Store

end Invalidation
