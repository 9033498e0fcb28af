import Invalidation.Proofs.Json.Writing
import Invalidation.Proofs.Saved.Restoration
import Invalidation.Proofs.Snapshot.Document

/-! A snapshot that was written as a document is read back as it was, unless a node has an empty part
in its designator: a document has no way to say that.
-/

namespace Invalidation

-----------------------------------------------------------------------------------------
-- Nodes
-----------------------------------------------------------------------------------------

/-- The violation that a node with an empty part in its designator commits. -/
def Snapshot.Node.malformation (node : Snapshot.Node)
    : Violation :=
  .malformedDesignator node.key.designator.kind node.key.designator.lacking

namespace Document

/-- A fingerprint comes back from its spelling as from any other saved form. -/
theorem parse_fingerprintText (fingerprint : Fingerprint)
    : Fingerprint.parse (fingerprintText fingerprint) = fingerprint.reread := by
  cases fingerprint with
  | digest token => rfl
  | unreadable => decide

/-- A node comes back from its document if its designator has no empty part, and is refused for
that otherwise.
-/
theorem toSnapshot_ofSnapshot {node : Snapshot.Node}
    (parsed : ∀ fingerprint ∈ node.fingerprint, fingerprint.Parsed)
    : (Node.ofSnapshot node).toSnapshot
      = if ¬node.key.designator.Complete then
          .error node.malformation
        else .ok node := by
  obtain ⟨⟨aspect, designator⟩, fingerprint, sequence, dependsOn, role⟩ := node
  by_cases complete : designator.Complete
  · have described := Designator.describe_eq_ok_iff.2 ⟨complete, rfl⟩
    have reread : (fingerprint.map fingerprintText).map Fingerprint.parse = fingerprint := by
      have same : (fingerprint.map fingerprintText).map Fingerprint.parse
          = fingerprint.map .reread := by
        cases fingerprint <;> simp [parse_fingerprintText]
      rw [same, Fingerprint.map_reread parsed]
    rw [if_neg (by simpa using complete)]
    simp only [Node.toSnapshot, Node.ofSnapshot, described, Bind.bind, Except.bind, reread]
    cases role with
    | definition => rfl
    | use cascades => cases cascades <;> rfl
  · rw [if_pos complete]
    simp only [Node.toSnapshot, Node.ofSnapshot, Designator.describe_eq_error complete]
    rfl

theorem recoverable_aspect (aspect : Aspect) : Json.Recoverable Aspect.schema aspect := by
  refine ⟨by decide, ?_⟩
  cases aspect <;> simp [Json.RecoverableVariant, Variants.spelled, Aspect.all]

theorem recoverable_kind (kind : Kind) : Json.Recoverable Kind.schema kind := by
  refine ⟨by decide, ?_⟩
  cases kind <;> simp [Json.RecoverableVariant, Variants.spelled, Kind.all]

theorem recoverable_current : Json.Recoverable Version.schema .current :=
  ⟨by decide, (by decide : 1 < Width.short.limit), (by decide : 0 < Width.short.limit), trivial⟩

/-- A node is recoverable from its document if its numbers are of 64 bits. -/
theorem recoverable_node {node : Snapshot.Node}
    (bounded : node.sequence < 2 ^ 64 ∧ ∀ target ∈ node.dependsOn, target < 2 ^ 64)
    : Json.Recoverable Node.schema (.ofSnapshot node) := by
  exact ⟨by decide, recoverable_aspect _, recoverable_kind _, rfl, fun _ _ => trivial, rfl,
    fun _ _ => trivial, rfl, fun _ _ => trivial, bounded.1, bounded.2, trivial, trivial, trivial⟩

end Document

-----------------------------------------------------------------------------------------
-- Documents
-----------------------------------------------------------------------------------------

namespace Snapshot

/-- A snapshot comes back from its document, unless the designator of a node has an empty part: then
reading fails with what the first such node lacks. Numbers have to be of 64 bits.
-/
theorem ofJson_toJson (snapshot : Snapshot)
    (parsed
      : ∀ node ∈ snapshot.nodes, ∀ fingerprint ∈ node.fingerprint, fingerprint.Parsed)
    (bounded
      : ∀ node ∈ snapshot.nodes,
          node.sequence < 2 ^ 64 ∧ ∀ target ∈ node.dependsOn, target < 2 ^ 64)
    : (ofJson snapshot.toJson).mapError Error.ofRefusal
      = match snapshot.nodes.find? fun node => ¬node.key.designator.Complete with
        | none => .ok snapshot
        | some node => .error (.contract snapshot.unit node.malformation) := by
  let document : Document :=
    ⟨.current, snapshot.unit, snapshot.nodes.map Document.Node.ofSnapshot⟩
  have recoverable : Json.Recoverable Document.schema document := by
    refine ⟨by decide, Document.recoverable_current, trivial, ?_, trivial⟩
    intro node member
    obtain ⟨given, known, rfl⟩ := List.mem_map.1 member
    exact Document.recoverable_node (bounded given known)
  have exists_written
      : ∃ members, Json.Written Document.schema document (.object members) :=
    Json.exists_written_object recoverable
  obtain ⟨members, written⟩ := exists_written
  have each (node : Node) (member : node ∈ snapshot.nodes)
      : (Document.Node.toSnapshot ∘ Document.Node.ofSnapshot) node
        = if decide ¬node.key.designator.Complete then .error node.malformation
          else .ok (id node) := by
    simp [Document.toSnapshot_ofSnapshot (parsed node member)]
  rw [toJson, ofJson_of_decode? written.isText written.taken rfl, List.mapM_map,
    mapM_eq_of_find? id Node.malformation _ each, List.map_id]
  cases snapshot.nodes.find? fun node => ¬node.key.designator.Complete <;> rfl

/-- A use with an unreadable fingerprint, the greatest sequence number and a text to be escaped. -/
def oddUse (name : String)
    : Node :=
  ⟨.interface (.member "a\x22\x01é" name), some .unreadable, 2 ^ 64 - 1, [7], .use false⟩

/-- The use comes back as it is, and not at all without a name. -/
theorem ofJson_toJson_oddUse
    : (ofJson (toJson ⟨"u", [oddUse "𝄞"]⟩)).mapError Error.ofRefusal = .ok ⟨"u", [oddUse "𝄞"]⟩
      ∧ (ofJson (toJson ⟨"u", [oddUse "𝄞", oddUse ""]⟩)).mapError Error.ofRefusal
        = .error (.contract "u" (.malformedDesignator .member .missingName)) :=
  ⟨ofJson_toJson ⟨"u", [oddUse "𝄞"]⟩ (by decide) (by decide),
    ofJson_toJson ⟨"u", [oddUse "𝄞", oddUse ""]⟩ (by decide) (by decide)⟩

end Snapshot

end Invalidation
