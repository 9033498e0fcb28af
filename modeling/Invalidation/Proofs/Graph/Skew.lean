import Invalidation.Graph
import Invalidation.Proofs.Json.Writing
import Invalidation.Proofs.Snapshot.Document

/-! A document of another major version is told apart from a broken one, whatever else stands in it:
nothing but the version is looked at before that is decided.
-/

namespace Invalidation

open Json (HasOnly Members Numeral Value)

/-- A text of an object whose only version has another major number is refused for that, and for
nothing else that stands in it; the caller is told that incremental tracking is unavailable, and a
graph that is given the text stays as it was. Names have to be Unicode in the document and in its
version, and the two numbers to be plain digits of 16 bits.
-/
theorem Graph.foreign_version_unavailable (graph : Graph) {members fields : Members}
    {bytes : Bytes} {major minor : Numeral} {version : Document.Version}
    (spelled : (Value.object members).IsText bytes)
    (hasVersion : HasOnly members "version" (.object fields))
    (hasMajor : HasOnly fields "major" (.number major))
    (hasMinor : HasOnly fields "minor" (.number minor))
    (majorSpelled : major.natural? = some version.major)
    (minorSpelled : minor.natural? = some version.minor)
    (small : version.major < 0x10000 ∧ version.minor < 0x10000) (foreign : version.major ≠ 1)
    : (Snapshot.ofJson bytes).mapError Error.ofRefusal
        = .error (.unavailable (.foreignSnapshot version))
      ∧ graph.integrateDocument bytes
        = ⟨.error (.unavailable (.foreignSnapshot version)), graph, []⟩ := by
  have taken : Json.decode? Document.Version.schema (.object fields) = some version :=
    Document.Version.decode?_eq_some_iff.2
      ⟨.number major, .number minor, hasMajor, hasMinor,
        Value.natural?_number_eq_some_iff.2 ⟨majorSpelled, small.1⟩,
        Value.natural?_number_eq_some_iff.2 ⟨minorSpelled, small.2⟩⟩
  have probed := (Json.decode_eq_ok_iff spelled).2
    (Document.decode?_probe_eq_some_iff.2 ⟨.object fields, hasVersion, taken⟩)
  have refused : Snapshot.ofJson bytes = .error (.foreignVersion version) := by
    simp only [Snapshot.ofJson, probed, mapError_ok, Bind.bind, Except.bind]
    rw [if_pos (show version.major ≠ Document.Version.current.major from foreign)]
    rfl
  constructor
  · rw [refused]
    rfl
  · rw [Graph.integrateDocument, refused]
    rfl

/-- The version of a later front end, with a name of its own and half of a code point under it. -/
def laterVersion : Members :=
  Json.membersOf
    [("minor", .number (.ofNatural 7)),
      ("tag", .text [.half]),
      ("major", .number (.ofNatural 2))]

/-- A document of a later front end, where nodes are no list and the unit is there twice. -/
def laterDocument : Members :=
  Json.membersOf
    [("nodes", .boolean true), ("unit", .null), ("version", .object laterVersion),
      ("unit", .list [.list [], .object []])]

/-- The later document is told apart from a broken one. -/
theorem Graph.laterDocument_unavailable
    : (Snapshot.ofJson (Value.object laterDocument).tokens.flatten).mapError Error.ofRefusal
        = .error (.unavailable (.foreignSnapshot ⟨2, 7⟩))
      ∧ (Graph.new {}).integrateDocument (Value.object laterDocument).tokens.flatten
        = ⟨.error (.unavailable (.foreignSnapshot ⟨2, 7⟩)), .new {}, []⟩ :=
  (Graph.new {}).foreign_version_unavailable (Json.laid_flatten _)
    ⟨_, Json.named?_membersOf _, rfl⟩ ⟨_, Json.named?_membersOf _, rfl⟩
    ⟨_, Json.named?_membersOf _, rfl⟩ (Numeral.natural?_ofNatural 2) (Numeral.natural?_ofNatural 7)
    (by decide) (by decide)

end Invalidation
