import Invalidation.Fingerprint

/-! Snapshots: the ordered facts that a front end reports after it compiled one unit. -/

namespace Invalidation

/-- Whether a unit provides a fact or consumes it. A use that does not cascade marks its own unit
when the fact changes, and does not make the whole unit look changed to others.
-/
inductive Role where
  | definition
  | use (cascades : Bool)
deriving DecidableEq

def Role.isDefinition : Role → Bool
  | definition => true
  | use _ => false

/-- Whether a change of the fact counts as a change of the whole unit that consumes it. -/
def Role.cascades : Role → Bool
  | definition => false
  | use cascades => cascades

/-- One fact of a snapshot. Edges name other nodes of the snapshot by their sequence numbers. -/
structure Snapshot.Node where
  key : Key
  fingerprint : Option Fingerprint
  sequence : Nat
  dependsOn : List Nat
  role : Role
deriving DecidableEq

/-- The facts of one compiled unit, as the front end lists them. -/
structure Snapshot where
  unit : UnitName
  nodes : List Snapshot.Node
deriving DecidableEq

namespace Snapshot

/-- The catch-all facts of a unit, which come first in its snapshots. -/
def wholeUnitNodes (unit : UnitName)
    : List Node :=
  [⟨.wholeUnit .interface unit, none, 0, [], .definition⟩,
    ⟨.wholeUnit .implementation unit, none, 1, [], .definition⟩]

/-- The snapshot of a unit that reports nothing but itself. -/
def start (unit : UnitName) : Snapshot := ⟨unit, wholeUnitNodes unit⟩

/-- Adds a node, with its place in the list as its sequence number. -/
def push (snapshot : Snapshot) (key : Key) (fingerprint : Option Fingerprint) (role : Role)
    : Snapshot :=
  { snapshot with
    nodes := snapshot.nodes ++ [⟨key, fingerprint, snapshot.nodes.length, [], role⟩] }

def define (snapshot : Snapshot) (key : Key) (fingerprint : Option Fingerprint)
    : Snapshot :=
  snapshot.push key fingerprint .definition

/-- Adds a use, which carries no fingerprint. -/
def consume (snapshot : Snapshot) (key : Key) (cascades : Bool)
    : Snapshot :=
  snapshot.push key none (.use cascades)

/-- Makes the node at one place depend on a node of the given sequence number. An edge that is
there already stays single, and one from a place outside the list is not recorded.
-/
def addEdge (snapshot : Snapshot) (source target : Nat)
    : Snapshot :=
  { snapshot with
    nodes := snapshot.nodes.modify source fun node =>
      if target ∈ node.dependsOn then node
      else { node with dependsOn := node.dependsOn ++ [target] } }

end Snapshot

end Invalidation
