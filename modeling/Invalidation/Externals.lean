import Invalidation.Fingerprint
import Invalidation.Table

/-! Artifacts outside the tracked units that some unit uses, with the fingerprint last seen for
each. The index answers whether an artifact changed since it was last asked about.
-/

namespace Invalidation

/-- The paths in use, in the order in which they were first used, with what was last seen there. -/
abbrev Externals := Table String (Option Fingerprint)

namespace Externals

/-- Adds a path for which nothing was seen; a known path stays as it is. -/
def register (externals : Externals) (path : String)
    : Externals :=
  externals.alter path fun old => some (old.getD none)

def forget (externals : Externals) (path : String) : Externals := externals.alter path fun _ => none

def record (externals : Externals) (path : String) (fingerprint : Option Fingerprint)
    : Externals :=
  externals.alter path fun _ => some fingerprint

/-- Whether an artifact has to be taken for changed: nothing is known of its path, or one of the
two fingerprints is missing or unreadable, or they differ.
-/
def isChanged (externals : Externals) (external : External)
    : Bool :=
  match externals.get? external.path, external.fingerprint with
  | some (some seen), some current => !seen.agrees current
  | _, _ => true

/-- Remembers the fingerprint that comes with an artifact whose path is in use. -/
def observe (externals : Externals) (external : External)
    : Externals :=
  match external.fingerprint with
  | some current => externals.alter external.path fun old => old.map fun _ => some current
  | none => externals

def toList (externals : Externals)
    : List External :=
  externals.entries.map fun (path, fingerprint) => ⟨path, fingerprint⟩

end Externals

/-- How a question about an artifact is meant. -/
inductive ReportWhen where
  /-- Report dependents whatever the fingerprint says. -/
  | always
  /-- Report dependents only if the artifact has to be taken for changed. -/
  | ifChanged
deriving DecidableEq

end Invalidation
