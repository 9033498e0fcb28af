import Invalidation.Proofs.Except
import Invalidation.Proofs.Json.Decoding
import Invalidation.Snapshot.Document

/-! What a document says, by its members. Each member that is asked for stands there once, and which
others there are makes no difference.
-/

namespace Invalidation

open Json (HasOnly Members Value)

namespace Document

variable {members : Members}

-----------------------------------------------------------------------------------------
-- Members
-----------------------------------------------------------------------------------------

/-- The version of an object is there if each of its two numbers is there once. -/
theorem Version.decode?_eq_some_iff {version : Version}
    : Json.decode? Version.schema (.object members) = some version
      ↔ ∃ major minor,
          HasOnly members "major" major
          ∧ HasOnly members "minor" minor
          ∧ major.natural? .short = some version.major
          ∧ minor.natural? .short = some version.minor := by
  rw [Version.schema, Json.decode?_object_eq_some_iff]
  constructor
  · rintro ⟨named, ⟨major, minor, _⟩, hasNames, taken, rfl⟩
    obtain ⟨first, taken⟩ := Json.decodeFields?_required_eq_some_iff.1 taken
    obtain ⟨second, -⟩ := Json.decodeFields?_required_eq_some_iff.1 taken
    obtain ⟨majorValue, onlyMajor, majorTaken⟩ := Json.single?_eq_some_iff.1 first
    obtain ⟨minorValue, onlyMinor, minorTaken⟩ := Json.single?_eq_some_iff.1 second
    rw [Json.valuesOf_others (by decide)] at onlyMinor
    exact ⟨majorValue, minorValue, ⟨named, hasNames, onlyMajor⟩, ⟨named, hasNames, onlyMinor⟩,
      majorTaken, minorTaken⟩
  · rintro ⟨major, minor, ⟨named, hasNames, onlyMajor⟩, ⟨_, sameNames, onlyMinor⟩, majorTaken,
      minorTaken⟩
    obtain rfl := Option.some.inj (hasNames.symm.trans sameNames)
    refine ⟨named, (version.major, version.minor, ()), hasNames, ?_, rfl⟩
    rw [Json.decodeFields?_required_eq_some_iff, Json.decodeFields?_required_eq_some_iff,
      Json.valuesOf_others (by decide), onlyMajor, onlyMinor]
    exact ⟨majorTaken, minorTaken, rfl⟩

/-- A document is probed for its version alone. -/
theorem decode?_probe_eq_some_iff {version : Version}
    : Json.decode? Version.probe (.object members) = some version
      ↔ ∃ value,
          HasOnly members "version" value ∧ Json.decode? Version.schema value = some version := by
  rw [Version.probe, Json.decode?_object_eq_some_iff]
  constructor
  · rintro ⟨named, ⟨version, _⟩, hasNames, taken, rfl⟩
    obtain ⟨first, -⟩ := Json.decodeFields?_required_eq_some_iff.1 taken
    obtain ⟨value, only, valueTaken⟩ := Json.single?_eq_some_iff.1 first
    exact ⟨value, ⟨named, hasNames, only⟩, valueTaken⟩
  · rintro ⟨value, ⟨named, hasNames, only⟩, taken⟩
    refine ⟨named, (version, ()), hasNames, ?_, rfl⟩
    rw [Json.decodeFields?_required_eq_some_iff, only]
    exact ⟨taken, rfl⟩

/-- A document is there if its version, its unit and its nodes are there once. -/
theorem decode?_eq_some_iff {document : Document}
    : Json.decode? schema (.object members) = some document
      ↔ ∃ version unit nodes,
          HasOnly members "version" version
          ∧ HasOnly members "unit" unit
          ∧ HasOnly members "nodes" nodes
          ∧ Json.decode? Version.schema version = some document.version
          ∧ unit.text? = some document.unit
          ∧ Json.decode? (.sequence Node.schema) nodes = some document.nodes := by
  rw [schema, Json.decode?_object_eq_some_iff]
  constructor
  · rintro ⟨named, ⟨version, unit, nodes, _⟩, hasNames, taken, rfl⟩
    obtain ⟨first, taken⟩ := Json.decodeFields?_required_eq_some_iff.1 taken
    obtain ⟨second, taken⟩ := Json.decodeFields?_required_eq_some_iff.1 taken
    obtain ⟨third, -⟩ := Json.decodeFields?_required_eq_some_iff.1 taken
    obtain ⟨versionValue, onlyVersion, versionTaken⟩ := Json.single?_eq_some_iff.1 first
    obtain ⟨unitValue, onlyUnit, unitTaken⟩ := Json.single?_eq_some_iff.1 second
    obtain ⟨nodesValue, onlyNodes, nodesTaken⟩ := Json.single?_eq_some_iff.1 third
    rw [Json.valuesOf_others (by decide)] at onlyUnit
    rw [Json.valuesOf_others (by decide), Json.valuesOf_others (by decide)] at onlyNodes
    exact ⟨versionValue, unitValue, nodesValue, ⟨named, hasNames, onlyVersion⟩,
      ⟨named, hasNames, onlyUnit⟩, ⟨named, hasNames, onlyNodes⟩, versionTaken, unitTaken,
      nodesTaken⟩
  · rintro ⟨version, unit, nodes, ⟨named, hasNames, onlyVersion⟩, ⟨_, sameNames, onlyUnit⟩,
      ⟨_, sameNames', onlyNodes⟩, versionTaken, unitTaken, nodesTaken⟩
    obtain rfl := Option.some.inj (hasNames.symm.trans sameNames)
    obtain rfl := Option.some.inj (hasNames.symm.trans sameNames')
    refine ⟨named, (document.version, document.unit, document.nodes, ()), hasNames, ?_, rfl⟩
    rw [Json.decodeFields?_required_eq_some_iff, Json.decodeFields?_required_eq_some_iff,
      Json.decodeFields?_required_eq_some_iff, Json.valuesOf_others (by decide),
      Json.valuesOf_others (by decide), Json.valuesOf_others (by decide), onlyVersion, onlyUnit,
      onlyNodes]
    exact ⟨versionTaken, unitTaken, nodesTaken, rfl⟩

/-- The version of a document is read before all else as it is read with the rest. -/
theorem decode?_probe {document : Document}
    (taken : Json.decode? schema (.object members) = some document)
    : Json.decode? Version.probe (.object members) = some document.version := by
  obtain ⟨version, _, _, only, _, _, versionTaken, _⟩ := decode?_eq_some_iff.1 taken
  exact decode?_probe_eq_some_iff.2 ⟨version, only, versionTaken⟩

/-- A value with a version and all the rest is an object, since a list that is long enough for the
rest is too long to be probed for its version.
-/
theorem exists_members {value : Value} {version : Version} {document : Document}
    (probed : Json.decode? Version.probe value = some version)
    (taken : Json.decode? schema value = some document)
    : ∃ members, value = .object members := by
  cases value with
  | object members => exact ⟨members, rfl⟩
  | list elements =>
      match elements with
      | [] => cases taken
      | [value] =>
          have short : Json.decode? schema (.list [value]) = none := by
            simp only [schema, Json.decode?, Value.fromParts?, Json.decodeList?]
            cases Json.decode? Version.schema value <;> rfl
          rw [short] at taken
          cases taken
      | _ :: _ :: _ => cases probed
  | null | boolean | number | text => cases taken

end Document

-----------------------------------------------------------------------------------------
-- Snapshots
-----------------------------------------------------------------------------------------

namespace Snapshot

/-- What is read from a text of an object that is a document of the current version. -/
theorem ofJson_of_decode? {members : Members} {bytes : Bytes} {document : Document}
    (spelled : (Value.object members).IsText bytes)
    (taken : Json.decode? Document.schema (.object members) = some document)
    (current : document.version.major = Document.Version.current.major)
    : ofJson bytes
      = ((document.nodes.mapM Document.Node.toSnapshot).mapError (.malformed document.unit)).map
          fun nodes => ⟨document.unit, nodes⟩ := by
  have probed := (Json.decode_eq_ok_iff spelled).2 (Document.decode?_probe taken)
  have decoded := (Json.decode_eq_ok_iff spelled).2 taken
  simp only [ofJson, probed, decoded, mapError_ok, Bind.bind, Except.bind]
  rw [if_neg (by simpa using current)]
  rfl

/-- The object is a document of the current major version, with the unit and the nodes. -/
def IsDescribedBy (snapshot : Snapshot) (value : Value) : Prop :=
  ∃ members version nodes,
    value = .object members
    ∧ Json.decode? Document.schema (.object members) = some ⟨version, snapshot.unit, nodes⟩
    ∧ version.major = Document.Version.current.major
    ∧ nodes.mapM Document.Node.toSnapshot = .ok snapshot.nodes

/-- From a text of a value the snapshot is read that the value describes, and no other. -/
theorem ofJson_eq_ok_iff {value : Value} {bytes : Bytes} (spelled : value.IsText bytes)
    {snapshot : Snapshot}
    : ofJson bytes = .ok snapshot ↔ snapshot.IsDescribedBy value := by
  constructor
  · intro accepted
    rw [ofJson] at accepted
    obtain ⟨version, probed, accepted⟩ := bind_eq_ok.1 accepted
    split at accepted
    · cases accepted
    rename_i current
    obtain ⟨document, decoded, accepted⟩ := bind_eq_ok.1 accepted
    obtain ⟨nodes, described, made⟩ := bind_eq_ok.1 accepted
    have probed := (Json.decode_eq_ok_iff spelled).1 (mapError_eq_ok.1 probed)
    have taken := (Json.decode_eq_ok_iff spelled).1 (mapError_eq_ok.1 decoded)
    obtain ⟨members, rfl⟩ := Document.exists_members probed taken
    obtain rfl := Option.some.inj (probed.symm.trans (Document.decode?_probe taken))
    rw [← pure_eq_ok.1 made]
    exact ⟨members, document.version, document.nodes, rfl, taken, Decidable.not_not.1 current,
      mapError_eq_ok.1 described⟩
  · rintro ⟨members, version, nodes, rfl, taken, current, described⟩
    rw [ofJson_of_decode? spelled taken current, described]
    rfl

end Snapshot

end Invalidation
