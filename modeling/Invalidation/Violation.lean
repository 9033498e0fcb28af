import Invalidation.Key

/-! Breaches of the contract that every snapshot has to keep. -/

namespace Invalidation

/-- What a snapshot does that the contract forbids. Nodes are named by their sequence numbers. -/
inductive Violation where
  | misplacedWholeUnit (sequence : Nat)
  | sequenceMismatch (index : Nat) (sequence : Nat)
  | danglingEdge (sequence : Nat) (target : Nat)
  | useBeforeDefinition (sequence : Nat)
  | fingerprintedUse (sequence : Nat)
  | duplicateDefinition (sequence : Nat)
  | malformedDesignator (kind : Kind) (malformation : Malformation)
  | unitMismatch (expected : UnitName) (found : UnitName)
deriving DecidableEq

def Violation.message : Violation → String
  | misplacedWholeUnit sequence => s!"node {sequence} must be the whole-unit fact for this unit"
  | sequenceMismatch index sequence =>
      s!"node at index {index} carries sequence number {sequence}"
  | danglingEdge sequence target => s!"node {sequence} has an edge to missing node {target}"
  | useBeforeDefinition sequence =>
      s!"node {sequence} uses a key before the snapshot defines it"
  | fingerprintedUse sequence => s!"use node {sequence} carries a fingerprint"
  | duplicateDefinition sequence =>
      s!"node {sequence} defines a key that is already defined"
  | malformedDesignator kind malformation =>
      s!"malformed {kind.text} designator: {malformation.text}"
  | unitMismatch expected found => s!"snapshot belongs to unit {found}, expected {expected}"

/-- The designator that a kind and optional parts describe, or the violation that a node with this
description commits.
-/
def Designator.describe (kind : Kind) (context name : Option String)
    : Except Violation Designator :=
  (Designator.ofParts kind context name).mapError (Violation.malformedDesignator kind)

end Invalidation
