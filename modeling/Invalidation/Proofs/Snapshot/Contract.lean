import Invalidation.Proofs.Snapshot.NormalForm
import Invalidation.Proofs.Table

/-! The contract that a snapshot has to keep, and what one that keeps it collapses to. A snapshot has
a normal form exactly if it keeps the contract, which is said of its nodes alone; the facts of the
normal form are then given by the nodes with their keys.
-/

namespace Invalidation.Snapshot

-----------------------------------------------------------------------------------------
-- The contract
-----------------------------------------------------------------------------------------

/-- The node at a place is the unit's own catch-all definition of an aspect. -/
def DefinesCatchAll (snapshot : Snapshot) (place : Nat) (aspect : Aspect) : Prop :=
  ∃ node,
    snapshot.nodes[place]? = some node
    ∧ node.key = .wholeUnit aspect snapshot.unit
    ∧ node.role = .definition

/-- What the contract asks of a snapshot. -/
structure KeepsContract (snapshot : Snapshot) : Prop where
  interfaceFirst : snapshot.DefinesCatchAll 0 .interface
  implementationSecond : snapshot.DefinesCatchAll 1 .implementation
  numbered
    : ∀ (place : Nat) (node : Node), snapshot.nodes[place]? = some node → node.sequence = place
  targets
    : ∀ node ∈ snapshot.nodes, ∀ target ∈ node.dependsOn, target < snapshot.nodes.length
  /-- No fact about an artifact is private to the unit. -/
  artifactsShown
    : ∀ node ∈ snapshot.nodes, ∀ path, node.key ≠ ⟨.implementation, .externalDepend path⟩
  bareUses : ∀ node ∈ snapshot.nodes, node.role ≠ .definition → node.fingerprint = none
  /-- Neither a use nor another definition of a key comes before its definition. -/
  definedFirst
    : snapshot.nodes.Pairwise fun earlier node =>
        node.role = .definition → earlier.key ≠ node.key

theorem isDefinition_eq_true_iff {role : Role}
    : role.isDefinition = true ↔ role = .definition := by
  cases role <;> simp [Role.isDefinition]

theorem checkCatchAll_eq_ok_iff {snapshot : Snapshot} {place : Nat} {aspect : Aspect}
    : snapshot.checkCatchAll place aspect = .ok () ↔ snapshot.DefinesCatchAll place aspect := by
  unfold checkCatchAll DefinesCatchAll
  cases found : snapshot.nodes[place]? with
  | none => simp
  | some node =>
      simp only [Option.some.injEq, exists_eq_left', ← isDefinition_eq_true_iff]
      by_cases catchAll : node.key = .wholeUnit aspect snapshot.unit ∧ node.role.isDefinition
      · simp only [catchAll, and_self, ↓reduceIte]
      · simp only [catchAll, ↓reduceIte, iff_false]
        split <;> exact nofun

/-- A key is about a private artifact if it is about an artifact and no interface key. -/
theorem private_artifact_iff {key : Key}
    : key.externalPath?.isSome ∧ !key.isInterface
      ↔ ∃ path, key = ⟨.implementation, .externalDepend path⟩ := by
  obtain ⟨aspect, designator⟩ := key
  cases aspect <;> cases designator <;> simp [Key.externalPath?, Key.isInterface]

theorem checkNode_eq_ok_iff {snapshot : Snapshot} {place : Nat} {node : Node}
    : snapshot.checkNode place node = .ok ()
      ↔ node.sequence = place
        ∧ (∀ target ∈ node.dependsOn, target < snapshot.nodes.length)
        ∧ ∀ path, node.key ≠ ⟨.implementation, .externalDepend path⟩ := by
  unfold checkNode
  by_cases numbered : node.sequence = place
  · simp only [numbered, ne_eq, not_true_eq_false, ↓reduceIte, true_and]
    split
    · rename_i target dangling
      refine iff_of_false nofun fun contract => ?_
      have inside := contract.1 target (List.mem_of_find?_eq_some dangling)
      have outside := List.find?_some dangling
      simp only [decide_eq_true_eq] at outside
      omega
    · rename_i complete
      have inside : ∀ target ∈ node.dependsOn, target < snapshot.nodes.length := by
        simpa using complete
      rw [and_iff_right inside]
      split
      · rename_i hidden
        obtain ⟨path, isHidden⟩ := private_artifact_iff.1 hidden
        exact iff_of_false nofun fun shown => shown path isHidden
      · rename_i shown
        exact iff_of_true rfl fun path isHidden => shown (private_artifact_iff.2 ⟨path, isHidden⟩)
  · simp [numbered]

-----------------------------------------------------------------------------------------
-- Which nodes collapse
-----------------------------------------------------------------------------------------

/-- Nodes collapse exactly if each is acceptable after the facts of the nodes before it, and then they
are noted one after the other; by induction on the nodes.
-/
theorem collapseFrom_eq_ok_iff {snapshot : Snapshot} {nodes : List Node} {index : Nat}
    {facts result : List Fact}
    : snapshot.collapseFrom index facts nodes = .ok result
      ↔ (∀ before node after,
            nodes = before ++ node :: after
            → snapshot.Acceptable (before.foldl note facts) (index + before.length) node)
        ∧ nodes.foldl note facts = result := by
  induction nodes generalizing index facts with
  | nil => simp [collapseFrom]
  | cons head rest ih =>
      rw [collapseFrom, bind_eq_ok]
      constructor
      · intro collapsed
        obtain ⟨middle, first, later⟩ := collapsed
        obtain ⟨acceptable, rfl⟩ := collapse_eq_ok_iff.1 first
        obtain ⟨others, noted⟩ := ih.1 later
        refine ⟨fun before node after split => ?_, noted⟩
        cases before with
        | nil =>
            obtain ⟨rfl, rfl⟩ := List.cons.inj split
            exact acceptable
        | cons first before =>
            obtain ⟨rfl, sameRest⟩ := List.cons.inj split
            have accepted := others before node after sameRest
            rw [Nat.add_right_comm] at accepted
            exact accepted
      · intro given
        obtain ⟨each, noted⟩ := given
        refine ⟨note facts head, collapse_eq_ok_iff.2 ⟨each [] head rest rfl, rfl⟩, ih.2 ⟨?_, noted⟩⟩
        intro before node after split
        have accepted := each (head :: before) node after (congrArg (head :: ·) split)
        rw [List.length_cons, ← Nat.add_assoc, Nat.add_right_comm] at accepted
        exact accepted

/-- Noting nodes adds their keys and no others, by induction on the nodes. -/
theorem mem_keys_foldl_note {nodes : List Node} {facts : List Fact} {key : Key}
    : key ∈ (nodes.foldl note facts).map (·.key)
      ↔ key ∈ facts.map (·.key) ∨ ∃ node ∈ nodes, node.key = key := by
  induction nodes generalizing facts with
  | nil => simp
  | cons head rest ih =>
      rw [List.foldl_cons, ih, mem_keys_note, or_assoc, List.exists_mem_cons_iff, eq_comm]

/-- The unit's own catch-all keys are those of its two catch-all facts. -/
theorem exists_eq_wholeUnit_of_owns {snapshot : Snapshot} {key : Key}
    (owns : snapshot.ownsWholeUnit key = true)
    : ∃ aspect, key = .wholeUnit aspect snapshot.unit := by
  obtain ⟨aspect, designator⟩ := key
  cases designator with
  | sourceFileProvide name =>
      simp only [ownsWholeUnit, Key.isWholeUnit, Designator.kind, Designator.name?,
        Option.some.injEq, Bool.and_eq_true, decide_eq_true_eq] at owns
      exact ⟨aspect, by rw [Key.wholeUnit, owns.2]⟩
  | _ => simp [ownsWholeUnit, Key.isWholeUnit, Designator.kind] at owns

namespace KeepsContract

variable {snapshot : Snapshot}

/-- A definition comes after nodes with other keys only. -/
theorem key_ne (keeps : snapshot.KeepsContract) {before after : List Node} {node : Node}
    (split : snapshot.nodes = before ++ node :: after) (provided : node.role = .definition)
    : ∀ earlier ∈ before, earlier.key ≠ node.key := by
  intro earlier isBefore
  have ordered := keeps.definedFirst
  rw [split, List.pairwise_append] at ordered
  exact ordered.2.2 earlier isBefore node List.mem_cons_self provided

/-- A catch-all key of the unit is not defined later on, since it is defined at the beginning. -/
theorem not_ownsWholeUnit (keeps : snapshot.KeepsContract) {before after : List Node}
    {node : Node} (split : snapshot.nodes = before ++ node :: after)
    (provided : node.role = .definition)
    : ¬(1 < before.length ∧ snapshot.ownsWholeUnit node.key) := by
  intro misplaced
  obtain ⟨late, owns⟩ := misplaced
  obtain ⟨aspect, isCatchAll⟩ := exists_eq_wholeUnit_of_owns owns
  have first : ∃ place ≤ 1, snapshot.DefinesCatchAll place aspect := by
    cases aspect with
    | interface => exact ⟨0, Nat.zero_le 1, keeps.interfaceFirst⟩
    | implementation => exact ⟨1, Nat.le_refl 1, keeps.implementationSecond⟩
  obtain ⟨place, early, catchAll, found, sameKey, -⟩ := first
  have isBefore : catchAll ∈ before := by
    rw [split, List.getElem?_append_left (Nat.lt_of_le_of_lt early late)] at found
    exact List.mem_of_getElem? found
  exact keeps.key_ne split provided catchAll isBefore (sameKey.trans isCatchAll.symm)

/-- In a snapshot that keeps the contract every node is acceptable after those before it. -/
theorem acceptable (keeps : snapshot.KeepsContract) {before after : List Node} {node : Node}
    (split : snapshot.nodes = before ++ node :: after)
    : snapshot.Acceptable (before.foldl note []) before.length node where
  checked := by
    have member : node ∈ snapshot.nodes := by simp [split]
    refine checkNode_eq_ok_iff.2
      ⟨keeps.numbered before.length node ?_, keeps.targets node member,
        keeps.artifactsShown node member⟩
    rw [split, List.getElem?_append_right (Nat.le_refl _), Nat.sub_self]
    rfl
  definition := by
    intro provided
    refine ⟨keeps.not_ownsWholeUnit split provided, fun fact member sameKey => ?_⟩
    have known : node.key ∈ (before.foldl note []).map (·.key) :=
      List.mem_map.2 ⟨fact, member, sameKey⟩
    rcases mem_keys_foldl_note.1 known with nothing | ⟨earlier, isBefore, same⟩
    · cases nothing
    · exact keeps.key_ne split provided earlier isBefore same
  bareUse := keeps.bareUses node (by simp [split])

/-- Catch-all facts at the beginning and acceptable nodes are all that the contract asks for. -/
theorem of_acceptable (first : snapshot.DefinesCatchAll 0 .interface)
    (second : snapshot.DefinesCatchAll 1 .implementation)
    (each
      : ∀ before node after,
          snapshot.nodes = before ++ node :: after
          → snapshot.Acceptable (before.foldl note []) before.length node)
    : snapshot.KeepsContract := by
  have ofMember {node : Node} (member : node ∈ snapshot.nodes)
      : ∃ facts place, snapshot.Acceptable facts place node := by
    obtain ⟨before, after, split⟩ := List.append_of_mem member
    exact ⟨_, _, each before node after split⟩
  have ofPlace {place : Nat} {node : Node} (found : snapshot.nodes[place]? = some node)
      : snapshot.Acceptable ((snapshot.nodes.take place).foldl note []) place node := by
    obtain ⟨inside, rfl⟩ := List.getElem?_eq_some_iff.1 found
    have split := (List.take_append_drop place snapshot.nodes).symm
    rw [List.drop_eq_getElem_cons inside] at split
    have accepted := each _ _ _ split
    rwa [List.length_take, Nat.min_eq_left (Nat.le_of_lt inside)] at accepted
  refine {
    interfaceFirst := first
    implementationSecond := second
    numbered := fun place node found => (checkNode_eq_ok_iff.1 (ofPlace found).checked).1
    targets := ?_
    artifactsShown := ?_
    bareUses := ?_
    definedFirst := ?_
  }
  · intro node member
    obtain ⟨facts, place, accepted⟩ := ofMember member
    exact (checkNode_eq_ok_iff.1 accepted.checked).2.1
  · intro node member
    obtain ⟨facts, place, accepted⟩ := ofMember member
    exact (checkNode_eq_ok_iff.1 accepted.checked).2.2
  · intro node member
    obtain ⟨facts, place, accepted⟩ := ofMember member
    exact accepted.bareUse
  · apply List.pairwise_iff_getElem.2
    intro place later inside laterInside earlier provided sameKey
    have accepted := ofPlace (List.getElem?_eq_getElem laterInside)
    have isBefore : snapshot.nodes[place] ∈ snapshot.nodes.take later :=
      List.mem_take_iff_getElem.2 ⟨place, by omega, rfl⟩
    have known
        : snapshot.nodes[later].key
          ∈ ((snapshot.nodes.take later).foldl note []).map (·.key) :=
      mem_keys_foldl_note.2 (.inr ⟨_, isBefore, sameKey⟩)
    obtain ⟨fact, member, same⟩ := List.mem_map.1 known
    exact (accepted.definition provided).2 fact member same

end KeepsContract

/-- A snapshot has a normal form exactly if it keeps the contract. -/
theorem exists_normalForm_iff {snapshot : Snapshot}
    : (∃ facts, snapshot.normalForm = .ok facts) ↔ snapshot.KeepsContract := by
  constructor
  · intro given
    obtain ⟨facts, accepted⟩ := given
    obtain ⟨first, second, merged, collapsed, -⟩ := normalForm_eq_ok_iff.1 accepted
    have each := (collapseFrom_eq_ok_iff.1 collapsed).1
    simp only [Nat.zero_add] at each
    exact .of_acceptable (checkCatchAll_eq_ok_iff.1 first) (checkCatchAll_eq_ok_iff.1 second) each
  · intro keeps
    have collapsed
        : snapshot.collapseFrom 0 [] snapshot.nodes = .ok (snapshot.nodes.foldl note []) := by
      refine collapseFrom_eq_ok_iff.2 ⟨fun before node after split => ?_, rfl⟩
      rw [Nat.zero_add]
      exact keeps.acceptable split
    exact ⟨_, normalForm_eq_ok_iff.2
      ⟨checkCatchAll_eq_ok_iff.2 keeps.interfaceFirst,
        checkCatchAll_eq_ok_iff.2 keeps.implementationSecond, _, collapsed, rfl⟩⟩

-----------------------------------------------------------------------------------------
-- What nodes collapse to
-----------------------------------------------------------------------------------------

/-- A fact has the role and the fingerprint that nodes with its key give it: those of a definition
among them, and otherwise those of a use that cascades if one of them does.
-/
structure Sums (nodes : List Node) (fact : Fact) : Prop where
  defined
    : ∀ node ∈ nodes,
        node.key = fact.key
        → node.role = .definition
        → fact.role = .definition ∧ fact.fingerprint = node.fingerprint
  used
    : (∀ node ∈ nodes, node.key = fact.key → node.role ≠ .definition)
      → fact.fingerprint = none
        ∧ ∃ cascades,
            fact.role = .use cascades
            ∧ (cascades = true ↔ ∃ node ∈ nodes, node.key = fact.key ∧ node.role = .use true)

/-- The facts that nodes collapse to: one for each key, in the order in which the keys appear. -/
structure Gathers (nodes : List Node) (facts : List Fact) : Prop where
  keys : facts.map (·.key) = (nodes.map (·.key)).foldl addLast []
  sums : ∀ fact ∈ facts, Sums nodes fact

/-- A node with another key changes nothing about a fact. -/
theorem Sums.append_of_ne {nodes : List Node} {fact : Fact} (sums : Sums nodes fact) {node : Node}
    (other : node.key ≠ fact.key)
    : Sums (nodes ++ [node]) fact := by
  have same {known : Node}
      : known ∈ nodes ++ [node] ∧ known.key = fact.key ↔ known ∈ nodes ∧ known.key = fact.key := by
    rw [List.mem_append, List.mem_singleton, or_and_right]
    refine or_iff_left fun given => other ?_
    rw [← given.1, given.2]
  constructor
  · intro known member sameKey
    exact sums.defined known (same.1 ⟨member, sameKey⟩).1 sameKey
  · intro unprovided
    obtain ⟨bare, cascades, role, cascading⟩ := sums.used fun known member sameKey =>
      unprovided known (same.2 ⟨member, sameKey⟩).1 sameKey
    refine ⟨bare, cascades, role, cascading.trans ?_⟩
    simp only [← and_assoc, same]

/-- Joining a use to a fact is noting it among the nodes with the fact's key. -/
theorem Sums.join {nodes : List Node} {fact : Fact} (sums : Sums nodes fact) {node : Node}
    {cascades : Bool} (role : node.role = .use cascades) (sameKey : node.key = fact.key)
    : Sums (nodes ++ [node]) (collapse.join cascades fact) := by
  constructor
  · intro known member knownKey provided
    rw [join_key] at knownKey
    rcases List.mem_append.1 member with old | new
    · obtain ⟨isDefinition, sameFingerprint⟩ := sums.defined known old knownKey provided
      rw [join_fingerprint, sameFingerprint]
      exact ⟨by rw [collapse.join, isDefinition]; exact isDefinition, rfl⟩
    · obtain rfl := List.mem_singleton.1 new
      rw [role] at provided
      cases provided
  · intro unprovided
    rw [join_key] at unprovided ⊢
    obtain ⟨bare, before, isUse, cascading⟩ := sums.used fun known old =>
      unprovided known (List.mem_append_left _ old)
    refine ⟨by rw [join_fingerprint, bare], before || cascades, by rw [collapse.join, isUse], ?_⟩
    rw [Bool.or_eq_true, cascading]
    simp only [List.mem_append, List.mem_singleton, or_and_right, exists_or, exists_eq_left,
      sameKey, role, true_and, Role.use.injEq]

/-- The first node with a key gives the fact its role and its fingerprint. -/
theorem sums_first {nodes : List Node} {node : Node} (new : ∀ known ∈ nodes, known.key ≠ node.key)
    (bare : node.role ≠ .definition → node.fingerprint = none)
    : Sums (nodes ++ [node]) ⟨node.key, node.fingerprint, node.role, []⟩ := by
  have alone {known : Node} (member : known ∈ nodes ++ [node]) (sameKey : known.key = node.key)
      : known = node := by
    rcases List.mem_append.1 member with old | isNode
    · exact absurd sameKey (new known old)
    · exact List.mem_singleton.1 isNode
  have last : node ∈ nodes ++ [node] := List.mem_append_right _ List.mem_cons_self
  constructor
  · intro known member sameKey provided
    obtain rfl := alone member sameKey
    exact ⟨provided, rfl⟩
  · intro unprovided
    have isUse := unprovided node last rfl
    refine ⟨bare isUse, ?_⟩
    cases role : node.role with
    | definition => exact absurd role isUse
    | use cascades =>
        refine ⟨cascades, rfl, ?_⟩
        constructor
        · intro isCascading
          exact ⟨node, last, rfl, isCascading ▸ role⟩
        · intro given
          obtain ⟨known, member, sameKey, cascading⟩ := given
          rw [alone member sameKey, role] at cascading
          exact Role.use.inj cascading

theorem Gathers.exists_iff {nodes : List Node} {facts : List Fact} (gathers : Gathers nodes facts)
    {key : Key}
    : (∃ fact ∈ facts, fact.key = key) ↔ ∃ node ∈ nodes, node.key = key := by
  rw [← List.mem_map, gathers.keys, foldl_addLast_nil, List.mem_eraseDups, List.mem_map]

/-- The first node with a key becomes a fact, last. -/
theorem Gathers.append {nodes : List Node} {facts : List Fact} (gathers : Gathers nodes facts)
    {node : Node} (new : ∀ fact ∈ facts, fact.key ≠ node.key)
    (bare : node.role ≠ .definition → node.fingerprint = none)
    : Gathers (nodes ++ [node])
        (facts ++ [⟨node.key, node.fingerprint, node.role, []⟩]) where
  keys := by
    have absent : node.key ∉ (nodes.map (·.key)).foldl addLast [] := by
      rw [← gathers.keys]
      intro known
      obtain ⟨fact, member, sameKey⟩ := List.mem_map.1 known
      exact new fact member sameKey
    rw [List.map_append, gathers.keys, List.map_append, List.foldl_append]
    simp only [List.map_cons, List.map_nil, List.foldl_cons, List.foldl_nil, addLast, absent,
      ↓reduceIte]
  sums := by
    intro fact member
    rcases List.mem_append.1 member with old | isNew
    · exact (gathers.sums fact old).append_of_ne (new fact old).symm
    · obtain rfl := List.mem_singleton.1 isNew
      refine sums_first (fun known isKnown sameKey => ?_) bare
      obtain ⟨old, oldMember, same⟩ := gathers.exists_iff.2 ⟨known, isKnown, sameKey⟩
      exact new old oldMember same

/-- A use of a key that is known is joined to the fact with the key. -/
theorem Gathers.join {nodes : List Node} {facts : List Fact} (gathers : Gathers nodes facts)
    {node : Node} {cascades : Bool} (role : node.role = .use cascades)
    (known : ∃ fact ∈ facts, fact.key = node.key)
    : Gathers (nodes ++ [node])
        (facts.map fun fact =>
          if fact.key = node.key then collapse.join cascades fact else fact) where
  keys := by
    have isKnown : node.key ∈ (nodes.map (·.key)).foldl addLast [] :=
      gathers.keys ▸ List.mem_map.2 known
    rw [keys_joined, gathers.keys, List.map_append, List.foldl_append]
    exact (addLast_of_mem isKnown).symm
  sums := by
    intro fact member
    obtain ⟨old, oldMember, rfl⟩ := List.mem_map.1 member
    by_cases same : old.key = node.key
    · rw [if_pos same]
      exact (gathers.sums old oldMember).join role same.symm
    · rw [if_neg same]
      exact (gathers.sums old oldMember).append_of_ne (Ne.symm same)

/-- Noting an acceptable node gathers it with the nodes before it. -/
theorem Gathers.note {snapshot : Snapshot} {nodes : List Node} {facts : List Fact} {index : Nat}
    {node : Node} (gathers : Gathers nodes facts)
    (acceptable : snapshot.Acceptable facts index node)
    : Gathers (nodes ++ [node]) (note facts node) := by
  cases role : node.role with
  | definition =>
      have appended := gathers.append (acceptable.definition role).2 acceptable.bareUse
      simpa only [Snapshot.note, role] using appended
  | use cascades =>
      simp only [Snapshot.note, role]
      split
      · rename_i known
        exact gathers.join role (by simpa using known)
      · rename_i unknown
        have appended := gathers.append (by simpa using unknown) acceptable.bareUse
        rw [role, acceptable.bareUse (by simp [role])] at appended
        exact appended

/-- Nodes that collapse gather, by induction on the nodes with those before them generalized. -/
theorem Gathers.collapseFrom {snapshot : Snapshot} {before nodes : List Node} {index : Nat}
    {facts result : List Fact} (gathers : Gathers before facts)
    (accepted : snapshot.collapseFrom index facts nodes = .ok result)
    : Gathers (before ++ nodes) result := by
  induction nodes generalizing before index facts with
  | nil =>
      rw [List.append_nil, ← Except.ok.inj accepted]
      exact gathers
  | cons node rest ih =>
      obtain ⟨middle, first, later⟩ := bind_eq_ok.1 accepted
      obtain ⟨acceptable, rfl⟩ := collapse_eq_ok_iff.1 first
      rw [List.append_cons]
      exact ih (gathers.note acceptable) later

-----------------------------------------------------------------------------------------
-- The normal form
-----------------------------------------------------------------------------------------

/-- The keys to which the nodes with a key have edges, in the order of nodes and edges and with all
repetitions: every edge leads to the key of the node at its place.
-/
def LeadsTo (snapshot : Snapshot) (key : Key) (targets : List Key) : Prop :=
  targets.map some
  = ((snapshot.nodes.filter (·.key = key)).flatMap (·.dependsOn)).map fun place =>
      snapshot.nodes[place]?.map (·.key)

/-- Where no edge dangles, the edges of a fact are those of the nodes with its key, each target once.
-/
theorem exists_leadsTo {snapshot : Snapshot}
    (inside : ∀ node ∈ snapshot.nodes, ∀ target ∈ node.dependsOn, target < snapshot.nodes.length)
    (key : Key)
    : ∃ targets, snapshot.LeadsTo key targets ∧ snapshot.edgesFrom key = targets.eraseDups := by
  refine ⟨_, ?_, rfl⟩
  rw [LeadsTo, List.map_filterMap, List.filterMap_eq_map_iff_forall_eq_some]
  intro place depends
  obtain ⟨node, member, isEdge⟩ := List.mem_flatMap.1 depends
  have isPlace := inside node (List.mem_of_mem_filter member) place isEdge
  rw [List.getElem?_eq_getElem isPlace]
  rfl

/-- What a snapshot in normal form says of a key: what the nodes with the key give, with their
edges.
-/
structure CollapsesTo (snapshot : Snapshot) (fact : Fact) : Prop where
  sums : Sums snapshot.nodes fact
  edges : ∃ targets, snapshot.LeadsTo fact.key targets ∧ fact.dependsOn = targets.eraseDups

theorem keys_eq_of_normalForm {snapshot : Snapshot} {facts : List Fact}
    (accepted : snapshot.normalForm = .ok facts)
    : facts.map (·.key) = (snapshot.nodes.map (·.key)).eraseDups := by
  obtain ⟨-, -, merged, collapsed, rfl⟩ := normalForm_eq_ok_iff.1 accepted
  have nothing : Gathers [] [] := ⟨rfl, nofun⟩
  rw [List.map_map, ← foldl_addLast_nil]
  exact (nothing.collapseFrom collapsed).keys

theorem collapsesTo_of_normalForm {snapshot : Snapshot} {facts : List Fact}
    (accepted : snapshot.normalForm = .ok facts)
    : ∀ fact ∈ facts, snapshot.CollapsesTo fact := by
  have keeps := exists_normalForm_iff.1 ⟨facts, accepted⟩
  obtain ⟨-, -, merged, collapsed, rfl⟩ := normalForm_eq_ok_iff.1 accepted
  have nothing : Gathers [] [] := ⟨rfl, nofun⟩
  intro fact member
  obtain ⟨old, oldMember, rfl⟩ := List.mem_map.1 member
  have sums := (nothing.collapseFrom collapsed).sums old oldMember
  exact ⟨⟨sums.defined, sums.used⟩, exists_leadsTo keeps.targets old.key⟩

/-- A snapshot that keeps the contract has a normal form, which has one fact for each key in the order
in which the keys appear, and each fact is what the nodes with its key collapse to. A snapshot that
breaks the contract has none.
-/
theorem normalForm_decides_contract (snapshot : Snapshot)
    : match snapshot.normalForm with
      | .ok facts =>
          snapshot.KeepsContract
          ∧ facts.map (·.key) = (snapshot.nodes.map (·.key)).eraseDups
          ∧ ∀ fact ∈ facts, snapshot.CollapsesTo fact
      | .error _ => ¬snapshot.KeepsContract := by
  cases normal : snapshot.normalForm with
  | ok facts =>
      exact ⟨exists_normalForm_iff.1 ⟨facts, normal⟩, keys_eq_of_normalForm normal,
        collapsesTo_of_normalForm normal⟩
  | error violation =>
      intro keeps
      obtain ⟨facts, accepted⟩ := exists_normalForm_iff.2 keeps
      cases normal.symm.trans accepted

end Invalidation.Snapshot
