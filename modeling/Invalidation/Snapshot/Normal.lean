import Invalidation.Snapshot.Basic
import Invalidation.Violation

/-! The normal form of a snapshot: one fact per key, with edges between keys. A snapshot has a
normal form exactly when it keeps the contract. Nodes with the same key collapse into one fact,
which is a definition if one of them is, and otherwise a use that cascades if one of them does.
-/

namespace Invalidation

/-- A fact without its place in a snapshot. -/
structure Fact where
  key : Key
  fingerprint : Option Fingerprint
  role : Role
  dependsOn : List Key
deriving DecidableEq

def Fact.isDefinition (fact : Fact) : Bool := fact.role.isDefinition

/-- Whether two facts have the same content: the same role, fingerprints that agree, and the same
edges in any order.
-/
def Fact.sameContentAs (fact old : Fact)
    : Bool :=
  fact.role = old.role
  && Fingerprint.optionsAgree fact.fingerprint old.fingerprint
  && fact.dependsOn.length = old.dependsOn.length
  && fact.dependsOn.all (old.dependsOn.contains ·)

namespace Snapshot

/-- Checks that the node at a place is the unit's catch-all definition of an aspect. A catch-all of
that aspect that is something else is taken for the mark of another unit.
-/
def checkCatchAll (snapshot : Snapshot) (sequence : Nat) (aspect : Aspect)
    : Except Violation Unit :=
  match snapshot.nodes[sequence]? with
  | none => .error (.misplacedWholeUnit sequence)
  | some node =>
      if node.key = .wholeUnit aspect snapshot.unit ∧ node.role.isDefinition then .ok ()
      else if node.key.aspect = aspect ∧ node.key.isWholeUnit then
        .error (.unitMismatch snapshot.unit (node.key.designator.name?.getD ""))
      else .error (.misplacedWholeUnit sequence)

/-- Whether a key is one of the unit's own catch-all keys. -/
def ownsWholeUnit (snapshot : Snapshot) (key : Key)
    : Bool :=
  key.isWholeUnit && key.designator.name? = some snapshot.unit

/-- Checks what the contract says of a node by itself: its number, its edges and its key. -/
def checkNode (snapshot : Snapshot) (index : Nat) (node : Node)
    : Except Violation Unit :=
  if node.sequence ≠ index then .error (.sequenceMismatch index node.sequence)
  else
    match node.dependsOn.find? (snapshot.nodes.length ≤ ·) with
    | some target => .error (.danglingEdge index target)
    | none =>
        if node.key.externalPath?.isSome ∧ !node.key.isInterface then
          .error (.malformedDesignator .externalDepend .privateExternal)
        else .ok ()

/-- The sequence number of the first node with a key. -/
def firstWith (snapshot : Snapshot) (key : Key) (standard : Nat)
    : Nat :=
  match snapshot.nodes.find? (·.key = key) with
  | some node => node.sequence
  | none => standard

/-- Adds a node to the facts of the nodes before it, without its edges. A definition has to be the
first node with its key; a use joins the fact that is there.
-/
def collapse (snapshot : Snapshot) (facts : List Fact) (index : Nat) (node : Node)
    : Except Violation (List Fact) := do
  snapshot.checkNode index node
  match node.role with
  | .definition =>
      if 1 < index ∧ snapshot.ownsWholeUnit node.key then .error (.misplacedWholeUnit index)
      else
        match facts.find? (·.key = node.key) with
        | none => return facts ++ [⟨node.key, node.fingerprint, .definition, []⟩]
        | some fact =>
            if fact.isDefinition then .error (.duplicateDefinition index)
            else .error (.useBeforeDefinition (snapshot.firstWith node.key index))
  | .use cascades =>
      if node.fingerprint.isSome then .error (.fingerprintedUse index)
      else if facts.any (·.key = node.key) then
        return facts.map fun fact => if fact.key = node.key then join cascades fact else fact
      else return facts ++ [⟨node.key, none, .use cascades, []⟩]
where
  /-- Joins a use to a fact with the same key. -/
  join (cascades : Bool) (fact : Fact) : Fact :=
    match fact.role with
    | .definition => fact
    | .use before => { fact with role := .use (before || cascades) }

/-- Collapses nodes one after the other, where the first of them stands at the given index. -/
def collapseFrom (snapshot : Snapshot) (index : Nat) (facts : List Fact)
    : List Node → Except Violation (List Fact)
  | [] => .ok facts
  | node :: nodes => do
      snapshot.collapseFrom (index + 1) (← snapshot.collapse facts index node) nodes

/-- The keys that the nodes with a key have edges to, in the order of nodes and edges. -/
def edgesFrom (snapshot : Snapshot) (key : Key)
    : List Key :=
  let targets := (snapshot.nodes.filter (·.key = key)).flatMap (·.dependsOn)
  (targets.filterMap fun target => snapshot.nodes[target]?.map (·.key)).eraseDups

/-- The facts of a snapshot that keeps the contract, in the order in which their keys appear, or
the first violation. Edges come last, since an edge may point at a later node.
-/
def normalForm (snapshot : Snapshot)
    : Except Violation (List Fact) := do
  snapshot.checkCatchAll 0 .interface
  snapshot.checkCatchAll 1 .implementation
  let facts ← snapshot.collapseFrom 0 [] snapshot.nodes
  return facts.map fun fact => { fact with dependsOn := snapshot.edgesFrom fact.key }

end Snapshot

end Invalidation
