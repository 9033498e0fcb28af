import Invalidation.Json.Token
import Invalidation.MessagePack.Marker
import Invalidation.Snapshot.Document

/-! What operations on a graph fail with, and what the caller has to do next: a bad snapshot spoils
one unit, and everything else spoils what is known of all of them.
-/

namespace Invalidation

/-- How a stored graph contradicts itself. -/
inductive Inconsistency where
  | noWholeUnit (unit : UnitName) (aspect : Aspect)
  | notStored (node : NodeRef)
  | fingerprintedUse (node : NodeRef)
  | missingTarget (node : NodeRef) (target : Key)
  | unknownExternal (path : String) (unit : UnitName)
  | notOwned (stored : Nat) (owned : Nat)
  | strayUse (key : Key) (unit : UnitName)
  | noString (index : Nat)
  | malformedNode (unit : UnitName) (violation : Violation)
  | edgePastUnit (key : Key) (unit : UnitName)
deriving DecidableEq

/-- The detail that a message gives for an inconsistency. -/
def Inconsistency.detail : Inconsistency → String
  | noWholeUnit unit aspect => s!"unit {unit} has no {aspect.text} whole-unit fact"
  | notStored node => s!"{node.text} is indexed but not stored"
  | fingerprintedUse node => s!"use {node.text} carries a fingerprint"
  | missingTarget node target => s!"{node.text} depends on missing {target.text}"
  | unknownExternal path unit => s!"external dependency {path} of {unit} is not indexed"
  | notOwned stored owned => s!"{stored} nodes stored but {owned} owned by units"
  | strayUse key unit => s!"use of {key.text} indexed for {unit} without a use node"
  | noString index => s!"string index {index} out of range"
  | malformedNode unit violation => s!"stored node of {unit}: {violation.message}"
  | edgePastUnit key unit => s!"edge of {key.text} in {unit} points past the unit"

/-- Why incremental tracking cannot be used, which must not fail a build. -/
inductive Unavailability where
  | foreignSnapshot (version : Document.Version)
  | disabled
  | unreadableHeader (failure : MessagePack.Failure)
  | notAGraph
  | foreignFormat (major : Nat) (minor : Nat)
  | noPriorGraph (path : String)
deriving DecidableEq

/-- The reason that a message gives. -/
def Unavailability.reason : Unavailability → String
  | foreignSnapshot version =>
      s!"snapshot schema {version.major}.{version.minor} is not supported (expected 1.x)"
  | disabled => "incremental mode is disabled"
  | unreadableHeader failure => s!"unreadable header: {failure.message}"
  | notAGraph => "not a dependency graph"
  | foreignFormat major minor => s!"format {major}.{minor} is not readable by 1.0"
  | noPriorGraph path => s!"no prior graph at {path}"

/-- Why a file could not be read or written. -/
inductive FileFailure where
  | notFound
  | isADirectory
  | notADirectory
  | invalidPath
  /-- A path or a name on it has too many bytes. -/
  | tooLong
deriving DecidableEq

/-- What an operation on a graph fails with. -/
inductive Error where
  | contract (unit : UnitName) (violation : Violation)
  | unavailable (cause : Unavailability)
  | inconsistent (cause : Inconsistency)
  | undecodable (failure : MessagePack.Failure)
  | unreadableSnapshot (failure : Json.Failure)
  | file (failure : FileFailure)
deriving DecidableEq

/-- What the caller does after an error. -/
inductive Recovery where
  /-- Discard the snapshot and rebuild the unit. -/
  | rebuildUnit
  /-- Discard all that is known and rebuild everything. -/
  | rebuildAll
deriving DecidableEq

namespace Error

/-- How to recover from an error. -/
def recovery : Error → Recovery
  | contract _ _ | unreadableSnapshot _ => .rebuildUnit
  | unavailable _ | inconsistent _ | undecodable _ | file _ => .rebuildAll

/-- Whether an error only means that incremental tracking cannot be used. -/
def isUnavailable : Error → Bool
  | unavailable _ => true
  | _ => false

/-- The message for an error, for those that have one of this library. -/
def message? : Error → Option String
  | contract unit violation =>
      some s!"snapshot for {unit} violates the producer contract: {violation.message}"
  | unavailable cause => some s!"incremental tracking unavailable: {cause.reason}"
  | inconsistent cause => some s!"dependency graph is inconsistent: {cause.detail}"
  | undecodable failure => some s!"failed to decode dependency graph: {failure.message}"
  | unreadableSnapshot (.data fault) => some fault.message
  | unreadableSnapshot _ | file _ => none

/-- The error for a document that gives no snapshot. -/
def ofRefusal : Snapshot.Refusal → Error
  | .unreadable failure => unreadableSnapshot failure
  | .foreignVersion version => unavailable (.foreignSnapshot version)
  | .malformed unit violation => contract unit violation

end Error

end Invalidation
