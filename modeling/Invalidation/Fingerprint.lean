import Invalidation.Key

/-! Fingerprints of declaration bodies, and of artifacts outside the tracked units.
A fingerprint that could not be read agrees with nothing, itself included.
-/

namespace Invalidation

/-- A content hash over a declaration body, or the mark left by one that could not be read. -/
inductive Fingerprint where
  | digest (token : String)
  | unreadable
deriving DecidableEq

namespace Fingerprint

/-- The characters of a readable token: ASCII letters and digits, the underscore and the
hyphen.
-/
def isTokenChar (c : Char) : Bool := c.isAlphanum || c = '_' || c = '-'

/-- A readable token is not empty and holds token characters only. -/
def parse (token : String)
    : Fingerprint :=
  if token ≠ "" ∧ token.toList.all isTokenChar then digest token else unreadable

def isReadable : Fingerprint → Bool
  | digest _ => true
  | unreadable => false

/-- The digest, if there is one. -/
def token? : Fingerprint → Option String
  | digest token => some token
  | unreadable => none

/-- Whether two fingerprints certainly describe the same content. -/
def agrees : Fingerprint → Fingerprint → Bool
  | digest a, digest b => a = b
  | _, _ => false

/-- Two absent fingerprints agree, since such facts are compared by structure alone; one that
is absent and one that is present do not.
-/
def optionsAgree : Option Fingerprint → Option Fingerprint → Bool
  | none, none => true
  | some a, some b => a.agrees b
  | _, _ => false

end Fingerprint

/-- An artifact outside the tracked units, with the fingerprint seen for it. -/
structure External where
  path : String
  fingerprint : Option Fingerprint
deriving DecidableEq

namespace External

/-- The key under which units record their use of the artifact. -/
def key (external : External) : Key := .interface (.externalDepend external.path)

/-- The path, followed by the digest where one was read. -/
def text (external : External)
    : String :=
  match external.fingerprint.bind Fingerprint.token? with
  | some token => s!"{external.path}@{token}"
  | none => external.path

end External

end Invalidation
