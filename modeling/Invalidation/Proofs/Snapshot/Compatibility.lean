import Invalidation.Proofs.Json.Acceptance
import Invalidation.Proofs.Json.Rewriting
import Invalidation.Proofs.Json.Writing
import Invalidation.Proofs.Snapshot.Document
import Mathlib.Logic.Relation

/-! Documents of later front ends are read as long as the major version stays: they may say more
than is asked for, and say it in another order.
-/

namespace Invalidation

open Json (Among Edits HasOnly Members Numeral Value Within)

namespace Document

/-- The value is a number that the minor version of a document may have. -/
def IsMinor (value : Value) : Prop :=
  ∃ numeral minor, value = .number numeral ∧ numeral.natural? = some minor ∧ minor < 0x10000

/-- A node is written in another way. Names of members that it does not have are free, and the parts
that it may lack may be null.
-/
def Node.Edits : Value → Value → Prop :=
  Json.Edits
    ["aspect", "kind", "context", "name", "fingerprint", "sequence", "depends_on", "definition",
      "cascades"]
    ["context", "name", "fingerprint"]

/-- A document is revised in one place, so that it says the same to those who know no more than this
layout.
-/
inductive Revises : Value → Value → Prop
  | document {document revised} (edits : Edits ["version", "unit", "nodes"] [] document revised)
    : Revises document revised
  | version {document revised}
    (edits : Within "version" (Edits ["major", "minor"] []) document revised)
    : Revises document revised
  /-- Whatever the minor number was, another one takes its place. -/
  | minor {document revised}
    (edits : Within "version" (Within "minor" fun _ changed => IsMinor changed) document revised)
    : Revises document revised
  | node {document revised} (edits : Within "nodes" (Among Node.Edits) document revised)
    : Revises document revised

-----------------------------------------------------------------------------------------
-- Parts
-----------------------------------------------------------------------------------------

/-- A minor number does not change the major one. -/
theorem Version.decode?_of_minor {members : Members} {changed : Value} {version : Version}
    (edits : Within "minor" (fun _ changed => IsMinor changed) (.object members) changed)
    (taken : Json.decode? schema (.object members) = some version)
    : ∃ minor, Json.decode? schema changed = some ⟨version.major, minor⟩ := by
  obtain ⟨major, minor, hasMajor, hasMinor, majorTaken, -⟩ := Version.decode?_eq_some_iff.1 taken
  obtain ⟨membersToo, minorToo, rfl, isMinor, hasMinorToo, keeps⟩ := edits.hasOnly hasMinor
  obtain ⟨numeral, number, rfl, spelled, small⟩ := isMinor
  exact ⟨number, Version.decode?_eq_some_iff.2 ⟨major, .number numeral,
    keeps "major" major (by decide) hasMajor, hasMinorToo, majorTaken,
    Value.natural?_number_eq_some_iff.2 ⟨spelled, small⟩⟩⟩

/-- A node that is written in another way is the same node. -/
theorem Node.decode?_of_edits {value edited : Value} {node : Node}
    (edits : Node.Edits value edited) (taken : Json.decode? Node.schema value = some node)
    : Json.decode? Node.schema edited = some node :=
  Json.Edits.decode? edits (by decide) (by decide) (by decide) taken

/-- A document in which the version changes, but not its major number, is the same otherwise. -/
theorem decode?_of_version {change : Value → Value → Prop} {members : Members} {revised : Value}
    {document : Document} (edits : Within "version" change (.object members) revised)
    (keeps
      : ∀ value changed version,
          change value changed
          → Json.decode? Version.schema value = some version
          → ∃ minor, Json.decode? Version.schema changed = some ⟨version.major, minor⟩)
    (taken : Json.decode? schema (.object members) = some document)
    : ∃ membersToo minor,
        revised = .object membersToo
        ∧ Json.decode? schema (.object membersToo)
          = some ⟨⟨document.version.major, minor⟩, document.unit, document.nodes⟩ := by
  obtain ⟨version, unit, nodes, hasVersion, hasUnit, hasNodes, versionTaken, unitTaken,
    nodesTaken⟩ := decode?_eq_some_iff.1 taken
  obtain ⟨membersToo, versionToo, rfl, changes, hasVersionToo, others⟩ := edits.hasOnly hasVersion
  obtain ⟨minor, versionTaken⟩ := keeps version versionToo _ changes versionTaken
  exact ⟨membersToo, minor, rfl, decode?_eq_some_iff.2 ⟨versionToo, unit, nodes, hasVersionToo,
    others "unit" unit (by decide) hasUnit, others "nodes" nodes (by decide) hasNodes, versionTaken,
    unitTaken, nodesTaken⟩⟩

/-- A document with a node that is written in another way is the same document. -/
theorem decode?_of_nodes {members : Members} {revised : Value} {document : Document}
    (edits : Within "nodes" (Among Node.Edits) (.object members) revised)
    (taken : Json.decode? schema (.object members) = some document)
    : ∃ membersToo,
        revised = .object membersToo
        ∧ Json.decode? schema (.object membersToo) = some document := by
  obtain ⟨version, unit, nodes, hasVersion, hasUnit, hasNodes, versionTaken, unitTaken,
    nodesTaken⟩ := decode?_eq_some_iff.1 taken
  obtain ⟨membersToo, nodesToo, rfl, among, hasNodesToo, others⟩ := edits.hasOnly hasNodes
  have nodesTaken : Json.decode? (.sequence Node.schema) nodesToo = some document.nodes := by
    cases nodes with
    | list elements =>
        obtain ⟨elementsToo, rfl, nodesTaken⟩ := among.mapM
          (fun _ _ _ edits taken => Node.decode?_of_edits edits taken) nodesTaken
        exact nodesTaken
    | null | boolean | number | text | object => cases among
  exact ⟨membersToo, rfl, decode?_eq_some_iff.2 ⟨version, unit, nodesToo,
    others "version" version (by decide) hasVersion, others "unit" unit (by decide) hasUnit,
    hasNodesToo, versionTaken, unitTaken, nodesTaken⟩⟩

/-- A revised document is the same but for the minor number of its version. -/
theorem Revises.decode? {members : Members} {revised : Value} {document : Document}
    (revises : Revises (.object members) revised)
    (taken : Json.decode? schema (.object members) = some document)
    : ∃ membersToo minor,
        revised = .object membersToo
        ∧ Json.decode? schema (.object membersToo)
          = some ⟨⟨document.version.major, minor⟩, document.unit, document.nodes⟩ := by
  cases revises with
  | document edits =>
      obtain ⟨membersToo, rfl⟩ := edits.exists_members
      exact ⟨membersToo, document.version.minor, rfl,
        edits.decode? (by decide) (by decide) (by decide) taken⟩
  | version edits =>
      refine decode?_of_version edits (fun value changed version edits taken => ?_) taken
      exact ⟨version.minor, edits.decode? (by decide) (by decide) (by decide) taken⟩
  | minor edits =>
      refine decode?_of_version edits (fun value changed version edits taken => ?_) taken
      cases edits with
      | member named isMinor => exact Version.decode?_of_minor (.member named isMinor) taken
  | node edits =>
      obtain ⟨membersToo, rfl, taken⟩ := decode?_of_nodes edits taken
      exact ⟨membersToo, document.version.minor, rfl, taken⟩

end Document

namespace Snapshot

variable {snapshot : Snapshot}

/-- Revising a document once does not change the snapshot that it describes. -/
theorem IsDescribedBy.revise {document revised : Value}
    (described : snapshot.IsDescribedBy document) (revises : Document.Revises document revised)
    : snapshot.IsDescribedBy revised := by
  obtain ⟨members, version, nodes, rfl, taken, current, mapped⟩ := described
  obtain ⟨membersToo, minor, rfl, takenToo⟩ := revises.decode? taken
  exact ⟨membersToo, ⟨version.major, minor⟩, nodes, rfl, takenToo, current, mapped⟩

/-- Revising a document any number of times does not change the snapshot, by induction on them. -/
theorem IsDescribedBy.reviseAll {document revised : Value}
    (described : snapshot.IsDescribedBy document)
    (revisions : Relation.ReflTransGen Document.Revises document revised)
    : snapshot.IsDescribedBy revised := by
  induction revisions with
  | refl => exact described
  | tail _ revises ih => exact ih.revise revises

/-- A text that is accepted is a text of a document. However that is revised, any number of times, and
wherever blanks stand in the result, the same snapshot is read from it. The names of members that
are added have to be Unicode; their values may be any.
-/
theorem ofJson_of_revises {bytes : Bytes} (accepted : ofJson bytes = .ok snapshot)
    : (∃ document : Value, document.IsText bytes)
      ∧ ∀ (document revised : Value) (text : Bytes),
          document.IsText bytes
          → Relation.ReflTransGen Document.Revises document revised
          → revised.IsText text
          → ofJson text = .ok snapshot := by
  constructor
  · obtain ⟨version, probed, -⟩ := bind_eq_ok.1 accepted
    exact Json.exists_isText (mapError_eq_ok.1 probed)
  · intro document revised text spelled revisions spelledToo
    have described := (ofJson_eq_ok_iff spelled).1 accepted
    exact (ofJson_eq_ok_iff spelledToo).2 (described.reviseAll revisions)

/-- A use of a top-level name, as front ends write it. -/
def useMembers : List (String × Value) :=
  [("aspect", .text (Json.Quoted.partsOf "interface")),
    ("kind", .text (Json.Quoted.partsOf "topLevel")), ("name", .text (Json.Quoted.partsOf "x")),
    ("sequence", .number (.ofNatural 0)), ("definition", .boolean false)]

/-- The members of a document of one node, with the minor version. -/
def useDocument (minor : Nat) (node : List (String × Value))
    : List (String × Value) :=
  [("version",
      .object (Json.membersOf
        [("major", .number (.ofNatural 1)), ("minor", .number (.ofNatural minor))])),
    ("unit", .text (Json.Quoted.partsOf "u")),
    ("nodes", .list [.object (Json.membersOf node)])]

theorem decode?_useMembers
    : Json.decode? Document.Node.schema (.object (Json.membersOf useMembers))
      = some ⟨.interface, .topLevel, none, some "x", none, 0, [], false, true⟩ := by
  have aspect : Json.decode? Aspect.schema (.text (Json.Quoted.partsOf "interface"))
      = some .interface := by
    rw [Aspect.schema, Json.decode?, Value.variant?, Json.Quoted.text?_partsOf]
    rfl
  have kind : Json.decode? Kind.schema (.text (Json.Quoted.partsOf "topLevel"))
      = some .topLevel := by
    rw [Kind.schema, Json.decode?, Value.variant?, Json.Quoted.text?_partsOf]
    rfl
  have name : Json.nullOr? (Json.decode? .text) (.text (Json.Quoted.partsOf "x"))
      = some (some "x") :=
    congrArg (Option.map some) (Json.Quoted.text?_partsOf "x")
  have sequence : Json.decode? (.natural .size) (.number (.ofNatural 0)) = some 0 :=
    Value.natural?_number_eq_some_iff.2 ⟨Numeral.natural?_ofNatural 0, by decide⟩
  have definition : Json.decode? .boolean (.boolean false) = some false := rfl
  refine Json.decode?_object_eq_some_iff.2
    ⟨useMembers, (.interface, .topLevel, none, some "x", none, 0, [], false, true, ()),
      Json.named?_membersOf _, ?_, rfl⟩
  simp [Json.decodeFields?, useMembers, Json.valuesOf, Json.others, Json.single?, aspect, kind,
    name, sequence, definition]

theorem isDescribedBy_useDocument
    : (Snapshot.mk "u" [⟨.interface (.topLevel "x"), none, 0, [], .use true⟩]).IsDescribedBy
        (.object (Json.membersOf (useDocument 0 useMembers))) := by
  have version
      : Json.decode? Document.Version.schema
          (.object (Json.membersOf
            [("major", .number (.ofNatural 1)), ("minor", .number (.ofNatural 0))]))
        = some ⟨1, 0⟩ :=
    Document.Version.decode?_eq_some_iff.2
      ⟨_, _, ⟨_, Json.named?_membersOf _, rfl⟩, ⟨_, Json.named?_membersOf _, rfl⟩,
        Value.natural?_number_eq_some_iff.2 ⟨Numeral.natural?_ofNatural 1, by decide⟩,
        Value.natural?_number_eq_some_iff.2 ⟨Numeral.natural?_ofNatural 0, by decide⟩⟩
  have nodes
      : Json.decode? (.sequence Document.Node.schema)
          (.list [.object (Json.membersOf useMembers)])
        = some [⟨.interface, .topLevel, none, some "x", none, 0, [], false, true⟩] := by
    rw [Json.decode?, Value.elements?, Option.bind_some, List.mapM_cons, decode?_useMembers]
    rfl
  have taken
      : Json.decode? Document.schema (.object (Json.membersOf (useDocument 0 useMembers)))
        = some ⟨⟨1, 0⟩, "u", [⟨.interface, .topLevel, none, some "x", none, 0, [], false, true⟩]⟩ :=
    Document.decode?_eq_some_iff.2
      ⟨_, _, _, ⟨_, Json.named?_membersOf _, rfl⟩, ⟨_, Json.named?_membersOf _, rfl⟩,
        ⟨_, Json.named?_membersOf _, rfl⟩, version, Json.Quoted.text?_partsOf "u", nodes⟩
  exact ⟨_, _, _, rfl, taken, rfl, rfl⟩

/-- A document with hints that only a later front end knows, half of a code point among them. -/
def hintedDocument : List (String × Value) :=
  ("hints", .list [.object [], .text [.half]])
  :: useDocument 3 (("context", .null) :: useMembers)

/-- The document is read as the one use that it states, in another minor version, with a null, with
a member of a name that nobody knows, and with its members in another order.
-/
theorem ofJson_hintedDocument
    : ofJson (Value.object (Json.membersOf hintedDocument.reverse)).tokens.flatten
      = .ok ⟨"u", [⟨.interface (.topLevel "x"), none, 0, [], .use true⟩]⟩ := by
  have minor : Document.Revises (.object (Json.membersOf (useDocument 0 useMembers)))
      (.object (Json.membersOf (useDocument 3 useMembers))) :=
    .minor <| @Within.member _ _ [] _ _ _ _ (Json.Quoted.text?_partsOf "version") <|
      @Within.member _ _ [(Json.Quoted.partsOf "major", .number (.ofNatural 1))] _ _ _ []
        (Json.Quoted.text?_partsOf "minor")
        ⟨.ofNatural 3, 3, rfl, Numeral.natural?_ofNatural 3, by decide⟩
  have context : Document.Revises (.object (Json.membersOf (useDocument 3 useMembers)))
      (.object (Json.membersOf (useDocument 3 (("context", .null) :: useMembers)))) := by
    have absent
        : ∀ member ∈ Json.membersOf useMembers, Json.Quoted.text? member.1 ≠ some "context" := by
      simp [Json.membersOf, useMembers, Json.Quoted.text?_partsOf]
    exact .node <| @Within.member _ _ (Json.membersOf ((useDocument 3 []).take 2)) _ _ _ []
      (Json.Quoted.text?_partsOf "nodes") <| @Among.element _ [] _ _ [] <|
        .writeNull (Json.Quoted.text?_partsOf "context") (by decide) absent
  have hints
      : Document.Revises
          (.object (Json.membersOf (useDocument 3 (("context", .null) :: useMembers))))
          (.object (Json.membersOf hintedDocument)) :=
    .document (.insert (Json.Quoted.text?_partsOf "hints") (by decide))
  have order : Document.Revises (.object (Json.membersOf hintedDocument))
      (.object (Json.membersOf hintedDocument.reverse)) :=
    .document (.permute (List.Perm.map _ (List.reverse_perm _).symm))
  exact (ofJson_of_revises
      ((ofJson_eq_ok_iff (Json.laid_flatten _)).2 isDescribedBy_useDocument)).2 _ _ _
    (Json.laid_flatten _) (.tail (.tail (.tail (.single minor) context) hints) order)
    (Json.laid_flatten _)

end Snapshot

end Invalidation
