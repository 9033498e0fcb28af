import Invalidation.Json.Read
import Invalidation.Json.Write
import Invalidation.KeySchema
import Invalidation.Snapshot.Basic
import Invalidation.Violation

/-! The JSON documents in which a front end hands snapshots over. The version is read before all
else, so that a document of a later front end is told apart from a broken one.
-/

namespace Invalidation.Document

/-- The version of the layout of a document. -/
structure Version where
  major : Nat
  minor : Nat
deriving DecidableEq

namespace Version

/-- The version that is written. Of those that are read, only the major number counts. -/
def current : Version := ⟨1, 0⟩

def schema
    : Schema Version :=
  .record "SchemaVersion"
    (.required "major" (.natural .short) (.required "minor" (.natural .short) .nil))
    (fun (major, minor, ()) => ⟨major, minor⟩)
    (fun version => (version.major, version.minor, ()))
    (fun _ => rfl)

/-- The version of a document whose other members are passed over. -/
def probe
    : Schema Version :=
  .record "VersionProbe" (.required "version" schema .nil)
    (fun (version, ()) => version) (fun version => (version, ())) (fun _ => rfl)

end Version

/-- A node as a document spells it, before its designator is checked. -/
structure Node where
  aspect : Aspect
  kind : Kind
  context : Option String
  name : Option String
  fingerprint : Option String
  sequence : Nat
  dependsOn : List Nat
  definition : Bool
  cascades : Bool
deriving DecidableEq

/-- A node in a document. Uses cascade unless they say otherwise. -/
def Node.schema
    : Schema Node :=
  .record "WireNode"
    (.required "aspect" Aspect.schema
      (.required "kind" Kind.schema
        (.omissible "context" .text
          (.omissible "name" .text
            (.omissible "fingerprint" .text
              (.required "sequence" (.natural .size)
                (.defaulted "depends_on" (.sequence (.natural .size)) []
                  (.required "definition" .boolean
                    (.defaulted "cascades" .boolean true .nil)))))))))
    (fun (aspect, kind, context, name, fingerprint, sequence, dependsOn, definition, cascades,
        ()) =>
      ⟨aspect, kind, context, name, fingerprint, sequence, dependsOn, definition, cascades⟩)
    (fun node =>
      (node.aspect, node.kind, node.context, node.name, node.fingerprint, node.sequence,
        node.dependsOn, node.definition, node.cascades, ()))
    (fun _ => rfl)

/-- The node of a snapshot that a document's node describes, or the violation it commits. -/
def Node.toSnapshot (node : Node)
    : Except Violation Snapshot.Node := do
  let designator ← Designator.describe node.kind node.context node.name
  return {
    key := ⟨node.aspect, designator⟩
    fingerprint := node.fingerprint.map Fingerprint.parse
    sequence := node.sequence
    dependsOn := node.dependsOn
    role := if node.definition then .definition else .use node.cascades
  }

/-- How a fingerprint is spelled; one that is unreadable becomes a token that reads back so. -/
def fingerprintText : Fingerprint → String
  | .digest token => token
  | .unreadable => "?"

def Node.ofSnapshot (node : Snapshot.Node)
    : Node := {
  aspect := node.key.aspect
  kind := node.key.designator.kind
  context := node.key.designator.context?
  name := node.key.designator.name?
  fingerprint := node.fingerprint.map fingerprintText
  sequence := node.sequence
  dependsOn := node.dependsOn
  definition := node.role.isDefinition
  cascades := node.role.cascades || node.role.isDefinition
}

end Document

/-- The document of a snapshot. -/
structure Document where
  version : Document.Version
  unit : String
  nodes : List Document.Node
deriving DecidableEq

def Document.schema
    : Schema Document :=
  .record "WireSnapshot"
    (.required "version" Document.Version.schema
      (.required "unit" .text (.required "nodes" (.sequence Document.Node.schema) .nil)))
    (fun (version, unit, nodes, ()) => ⟨version, unit, nodes⟩)
    (fun document => (document.version, document.unit, document.nodes, ()))
    (fun _ => rfl)

namespace Snapshot

/-- Why a document gives no snapshot. -/
inductive Refusal where
  /-- The text is no document. -/
  | unreadable (failure : Json.Failure)
  /-- The layout is of another major version. -/
  | foreignVersion (version : Document.Version)
  /-- A node of the unit has no designator; the first such node decides. -/
  | malformed (unit : UnitName) (violation : Violation)
deriving DecidableEq

def ofJson (bytes : Bytes)
    : Except Refusal Snapshot := do
  let version ← (Json.decode Document.Version.probe bytes).mapError .unreadable
  if version.major ≠ Document.Version.current.major then throw (.foreignVersion version)
  let document ← (Json.decode Document.schema bytes).mapError .unreadable
  let nodes ← (document.nodes.mapM Document.Node.toSnapshot).mapError (.malformed document.unit)
  return ⟨document.unit, nodes⟩

/-- Writes a snapshot as a document of the current version. -/
def toJson (snapshot : Snapshot)
    : Bytes :=
  Json.write Document.schema
    ⟨.current, snapshot.unit, snapshot.nodes.map Document.Node.ofSnapshot⟩

end Snapshot

end Invalidation
