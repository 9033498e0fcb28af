import Invalidation.KeySchema

/-! The layout of a saved graph: a header, then a body in which every text stands once in a table
and is referred to by its index, as edges refer to the nodes of their unit.
-/

namespace Invalidation.Saved

/-- What a saved graph begins with. -/
structure Header where
  magic : List Nat
  major : Nat
  minor : Nat
deriving DecidableEq

namespace Header

/-- The header that is written: the bytes of "DGPH" and the version of the format. -/
def current : Header := ⟨[68, 71, 80, 72], 1, 0⟩

def schema
    : Schema Header :=
  .record "Header"
    (.required "magic" (.exactly 4 (.natural .byte))
      (.required "major" (.natural .short) (.required "minor" (.natural .short) .nil)))
    (fun (magic, major, minor, ()) => ⟨magic, major, minor⟩)
    (fun header => (header.magic, header.major, header.minor, ()))
    (fun _ => rfl)

end Header

/-- A fingerprint whose digest is an index of the table. -/
inductive Fingerprint where
  | digest (index : Nat)
  | unreadable
deriving DecidableEq

def Fingerprint.index? : Fingerprint → Option Nat
  | digest index => some index
  | unreadable => none

def Fingerprint.schema
    : Schema Fingerprint :=
  .choice "StoredFingerprint"
    (.carrying "Digest" (.natural .long) .digest Fingerprint.index?
      (fun value index found => by cases value <;> simp_all [Fingerprint.index?])
      (.bare "Unreadable" .unreadable (· = .unreadable) (by simp) .nil))

/-- A node. A definition says of itself that it does not cascade. -/
structure Node where
  aspect : Aspect
  kind : Kind
  context : Option Nat
  name : Option Nat
  fingerprint : Option Fingerprint
  definition : Bool
  cascades : Bool
  dependsOn : List Nat
deriving DecidableEq

def Node.schema
    : Schema Node :=
  .record "StoredNode"
    (.required "aspect" Aspect.schema
      (.required "kind" Kind.schema
        (.required "context" (.optional (.natural .long))
          (.required "name" (.optional (.natural .long))
            (.required "fingerprint" (.optional Fingerprint.schema)
              (.required "definition" .boolean
                (.required "cascades" .boolean
                  (.required "depends_on" (.sequence (.natural .long)) .nil))))))))
    (fun (aspect, kind, context, name, fingerprint, definition, cascades, dependsOn, ()) =>
      ⟨aspect, kind, context, name, fingerprint, definition, cascades, dependsOn⟩)
    (fun node =>
      (node.aspect, node.kind, node.context, node.name, node.fingerprint, node.definition,
        node.cascades, node.dependsOn, ()))
    (fun _ => rfl)

/-- A unit with its nodes. -/
structure Unit where
  name : Nat
  nodes : List Node
deriving DecidableEq

def Unit.schema
    : Schema Unit :=
  .record "StoredUnit"
    (.required "name" (.natural .long) (.required "nodes" (.sequence Node.schema) .nil))
    (fun (name, nodes, ()) => ⟨name, nodes⟩) (fun unit => (unit.name, unit.nodes, ()))
    (fun _ => rfl)

/-- An artifact in use, with what was last seen of it. -/
structure External where
  path : Nat
  fingerprint : Option Fingerprint
deriving DecidableEq

def External.schema
    : Schema External :=
  .record "StoredExternal"
    (.required "path" (.natural .long)
      (.required "fingerprint" (.optional Fingerprint.schema) .nil))
    (fun (path, fingerprint, ()) => ⟨path, fingerprint⟩)
    (fun external => (external.path, external.fingerprint, ()))
    (fun _ => rfl)

/-- What follows the header. -/
structure Body where
  strings : List String
  units : List Unit
  externals : List External
deriving DecidableEq

def Body.schema
    : Schema Body :=
  .record "Body"
    (.required "strings" (.sequence .text)
      (.required "units" (.sequence Unit.schema)
        (.required "externals" (.sequence External.schema) .nil)))
    (fun (strings, units, externals, ()) => ⟨strings, units, externals⟩)
    (fun body => (body.strings, body.units, body.externals, ()))
    (fun _ => rfl)

end Invalidation.Saved
