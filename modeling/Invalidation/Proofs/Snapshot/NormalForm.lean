import Invalidation.Snapshot.Normal
import Invalidation.Proofs.Except
import Invalidation.Proofs.Index
import Mathlib.Data.List.Nodup

/-! The normal form of a snapshot that keeps the contract: one fact per key, edges without
repetitions, and a shape that does not depend on fingerprints.
-/

namespace Invalidation

namespace Snapshot

-----------------------------------------------------------------------------------------
-- One node
-----------------------------------------------------------------------------------------

/-- What the contract asks of a node after the facts of the nodes before it. -/
structure Acceptable (snapshot : Snapshot) (facts : List Fact) (index : Nat) (node : Node)
    : Prop where
  checked : snapshot.checkNode index node = .ok ()
  definition
    : node.role = .definition
      → ¬(1 < index ∧ snapshot.ownsWholeUnit node.key) ∧ ∀ fact ∈ facts, fact.key ≠ node.key
  bareUse : node.role ≠ .definition → node.fingerprint = none

/-- The facts after an acceptable node. -/
def note (facts : List Fact) (node : Node)
    : List Fact :=
  match node.role with
  | .definition => facts ++ [⟨node.key, node.fingerprint, .definition, []⟩]
  | .use cascades =>
      if facts.any (·.key = node.key) then
        facts.map fun fact => if fact.key = node.key then collapse.join cascades fact else fact
      else facts ++ [⟨node.key, none, .use cascades, []⟩]

/-- A node is collapsed exactly when it is acceptable, and then it is noted. -/
theorem collapse_eq_ok_iff {snapshot : Snapshot} {facts result : List Fact} {index : Nat}
    {node : Node}
    : snapshot.collapse facts index node = .ok result
      ↔ snapshot.Acceptable facts index node ∧ note facts node = result := by
  cases checked : snapshot.checkNode index node with
  | error violation =>
      have refused : ¬snapshot.Acceptable facts index node := by
        intro acceptable
        exact nomatch checked.symm.trans acceptable.checked
      simp [collapse, checked, bind, Except.bind, refused]
  | ok =>
      cases role : node.role with
      | definition =>
          simp only [collapse, checked, bind, Except.bind, role, note]
          split
          · rename_i misplaced
            apply iff_of_false (by simp)
            intro acceptable
            exact (acceptable.1.definition role).1 misplaced
          · rename_i placed
            split
            · rename_i found
              have new : ∀ fact ∈ facts, fact.key ≠ node.key := by simpa using found
              have acceptable : snapshot.Acceptable facts index node :=
                ⟨checked, fun _ => ⟨placed, new⟩, fun isUse => absurd role isUse⟩
              simp only [acceptable, true_and, pure_eq_ok]
            · rename_i fact found
              apply iff_of_false (by split <;> simp)
              intro acceptable
              exact (acceptable.1.definition role).2 fact (List.mem_of_find?_eq_some found)
                (by simpa using List.find?_some found)
      | use cascades =>
          simp only [collapse, checked, bind, Except.bind, role, note]
          split
          · rename_i fingerprinted
            apply iff_of_false (by simp)
            intro acceptable
            simp [acceptable.1.bareUse (by simp [role])] at fingerprinted
          · rename_i bare
            have acceptable : snapshot.Acceptable facts index node :=
              ⟨checked, fun provided => by simp [role] at provided, fun _ => by simpa using bare⟩
            simp only [acceptable, true_and]
            split <;> exact pure_eq_ok

-----------------------------------------------------------------------------------------
-- All nodes
-----------------------------------------------------------------------------------------

@[simp]
theorem join_key (cascades : Bool) (fact : Fact)
    : (collapse.join cascades fact).key = fact.key := by
  unfold collapse.join
  split <;> rfl

@[simp]
theorem join_fingerprint (cascades : Bool) (fact : Fact)
    : (collapse.join cascades fact).fingerprint = fact.fingerprint := by
  unfold collapse.join
  split <;> rfl

@[simp]
theorem join_isDefinition (cascades : Bool) (fact : Fact)
    : (collapse.join cascades fact).isDefinition = fact.isDefinition := by
  unfold collapse.join Fact.isDefinition
  split
  · rfl
  · rename_i role
    simp [role, Role.isDefinition]

/-- Joining a use to the facts with its key leaves all keys in their places. -/
theorem keys_joined (cascades : Bool) (key : Key) (facts : List Fact)
    : (facts.map fun fact =>
        if fact.key = key then collapse.join cascades fact else fact).map (·.key)
      = facts.map (·.key) := by
  rw [List.map_map]
  apply List.map_congr_left
  intro fact _
  simp only [Function.comp_apply]
  split <;> simp

/-- Facts under collapse have distinct keys, and uses among them no fingerprints. -/
structure Collapsed (facts : List Fact) : Prop where
  keysDistinct : (facts.map (·.key)).Nodup
  bareUses : ∀ fact ∈ facts, fact.isDefinition = false → fact.fingerprint = none

theorem Collapsed.append {facts : List Fact} (collapsed : Collapsed facts) {fact : Fact}
    (new : ∀ old ∈ facts, old.key ≠ fact.key)
    (bare : fact.isDefinition = false → fact.fingerprint = none)
    : Collapsed (facts ++ [fact]) := by
  constructor
  · rw [List.map_append, List.nodup_append]
    refine ⟨collapsed.keysDistinct, by simp, ?_⟩
    intro key known other isOther
    obtain ⟨old, member, rfl⟩ := List.mem_map.1 known
    obtain rfl := List.mem_singleton.1 isOther
    exact new old member
  · intro other member isUse
    rcases List.mem_append.1 member with old | isNew
    · exact collapsed.bareUses other old isUse
    · obtain rfl := List.mem_singleton.1 isNew
      exact bare isUse

theorem Acceptable.note_collapsed {snapshot : Snapshot} {facts : List Fact} {index : Nat}
    {node : Node} (acceptable : snapshot.Acceptable facts index node)
    (collapsed : Collapsed facts)
    : Collapsed (note facts node) := by
  cases role : node.role with
  | definition =>
      simp only [note, role]
      exact collapsed.append (acceptable.definition role).2
        (by simp [Fact.isDefinition, Role.isDefinition])
  | use cascades =>
      simp only [note, role]
      split
      · constructor
        · rw [keys_joined]
          exact collapsed.keysDistinct
        · intro fact member isUse
          obtain ⟨old, oldMember, rfl⟩ := List.mem_map.1 member
          by_cases same : old.key = node.key
          · simp only [same, ↓reduceIte, join_isDefinition, join_fingerprint] at isUse ⊢
            exact collapsed.bareUses old oldMember isUse
          · simp only [same, ↓reduceIte] at isUse ⊢
            exact collapsed.bareUses old oldMember isUse
      · rename_i new
        exact collapsed.append (by simpa using new) fun _ => rfl

theorem collapseFrom_collapsed {snapshot : Snapshot} {nodes : List Node} {index : Nat}
    {facts result : List Fact} (accepted : snapshot.collapseFrom index facts nodes = .ok result)
    (collapsed : Collapsed facts)
    : Collapsed result := by
  induction nodes generalizing index facts with
  | nil => exact Except.ok.inj accepted ▸ collapsed
  | cons node rest ih =>
      obtain ⟨middle, first, later⟩ := bind_eq_ok.1 accepted
      obtain ⟨acceptable, rfl⟩ := collapse_eq_ok_iff.1 first
      exact ih later (acceptable.note_collapsed collapsed)

/-- A snapshot has a normal form exactly when it begins with its catch-all facts and its nodes
collapse; the edges come last.
-/
theorem normalForm_eq_ok_iff {snapshot : Snapshot} {facts : List Fact}
    : snapshot.normalForm = .ok facts
      ↔ snapshot.checkCatchAll 0 .interface = .ok ()
        ∧ snapshot.checkCatchAll 1 .implementation = .ok ()
        ∧ ∃ merged,
            snapshot.collapseFrom 0 [] snapshot.nodes = .ok merged
            ∧ merged.map (fun fact => { fact with dependsOn := snapshot.edgesFrom fact.key })
              = facts := by
  simp only [normalForm, bind_eq_ok, pure_eq_ok, Unique.exists_iff]

/-- A normal form has one fact for each key. -/
theorem keys_nodup_of_normalForm {snapshot : Snapshot} {facts : List Fact}
    (accepted : snapshot.normalForm = .ok facts)
    : (facts.map (·.key)).Nodup := by
  obtain ⟨-, -, merged, collapsed, rfl⟩ := normalForm_eq_ok_iff.1 accepted
  rw [List.map_map]
  exact (collapseFrom_collapsed collapsed ⟨.nil, by simp⟩).keysDistinct

/-- In a normal form uses carry no fingerprints. -/
theorem fingerprint_eq_none_of_use {snapshot : Snapshot} {facts : List Fact}
    (accepted : snapshot.normalForm = .ok facts) {fact : Fact} (member : fact ∈ facts)
    (isUse : fact.isDefinition = false)
    : fact.fingerprint = none := by
  obtain ⟨-, -, merged, collapsed, rfl⟩ := normalForm_eq_ok_iff.1 accepted
  obtain ⟨old, oldMember, rfl⟩ := List.mem_map.1 member
  exact (collapseFrom_collapsed collapsed ⟨.nil, by simp⟩).bareUses old oldMember isUse

/-- In a normal form no fact has two edges to one key. -/
theorem dependsOn_nodup_of_normalForm {snapshot : Snapshot} {facts : List Fact}
    (accepted : snapshot.normalForm = .ok facts) {fact : Fact} (member : fact ∈ facts)
    : fact.dependsOn.Nodup := by
  obtain ⟨-, -, merged, -, rfl⟩ := normalForm_eq_ok_iff.1 accepted
  obtain ⟨old, -, rfl⟩ := List.mem_map.1 member
  exact nodup_eraseDups _

-----------------------------------------------------------------------------------------
-- Fingerprints
-----------------------------------------------------------------------------------------

/-- A noted fact has the fingerprint of a fact before, that of the node, or none. -/
theorem fingerprint_of_mem_note {facts : List Fact} {node : Node} {fact : Fact}
    (member : fact ∈ note facts node)
    : (∃ old ∈ facts, old.fingerprint = fact.fingerprint)
      ∨ node.fingerprint = fact.fingerprint
      ∨ fact.fingerprint = none := by
  unfold note at member
  split at member
  · rcases List.mem_append.1 member with old | new
    · exact .inl ⟨fact, old, rfl⟩
    · obtain rfl := List.mem_singleton.1 new
      exact .inr (.inl rfl)
  · split at member
    · obtain ⟨old, oldMember, rfl⟩ := List.mem_map.1 member
      refine .inl ⟨old, oldMember, ?_⟩
      split
      · rw [join_fingerprint]
      · rfl
    · rcases List.mem_append.1 member with old | new
      · exact .inl ⟨fact, old, rfl⟩
      · obtain rfl := List.mem_singleton.1 new
        exact .inr (.inr rfl)

/-- Collapsed facts have the fingerprints of facts before, those of the nodes, or none; by induction
on the nodes.
-/
theorem fingerprint_of_collapseFrom {snapshot : Snapshot} {nodes : List Node} {index : Nat}
    {facts result : List Fact} (accepted : snapshot.collapseFrom index facts nodes = .ok result)
    {fact : Fact} (member : fact ∈ result)
    : (∃ old ∈ facts, old.fingerprint = fact.fingerprint)
      ∨ (∃ node ∈ nodes, node.fingerprint = fact.fingerprint)
      ∨ fact.fingerprint = none := by
  induction nodes generalizing index facts with
  | nil =>
      rw [← Except.ok.inj accepted] at member
      exact .inl ⟨fact, member, rfl⟩
  | cons node rest ih =>
      obtain ⟨middle, first, later⟩ := bind_eq_ok.1 accepted
      obtain ⟨-, rfl⟩ := collapse_eq_ok_iff.1 first
      rcases ih later with ⟨noted, isNoted, same⟩ | ⟨other, isNode, same⟩ | bare
      · rw [← same]
        rcases fingerprint_of_mem_note isNoted with known | given | bare
        · exact .inl known
        · exact .inr (.inl ⟨node, List.mem_cons_self, given⟩)
        · exact .inr (.inr bare)
      · exact .inr (.inl ⟨other, List.mem_cons_of_mem _ isNode, same⟩)
      · exact .inr (.inr bare)

/-- A fingerprint of a normal form is that of a node. -/
theorem exists_node_of_fingerprint {snapshot : Snapshot} {facts : List Fact}
    (accepted : snapshot.normalForm = .ok facts) {fact : Fact} (member : fact ∈ facts)
    {fingerprint : Fingerprint} (given : fingerprint ∈ fact.fingerprint)
    : ∃ node ∈ snapshot.nodes, fingerprint ∈ node.fingerprint := by
  obtain ⟨-, -, merged, collapsed, rfl⟩ := normalForm_eq_ok_iff.1 accepted
  obtain ⟨old, oldMember, rfl⟩ := List.mem_map.1 member
  rcases fingerprint_of_collapseFrom collapsed oldMember with
    ⟨earlier, isEarlier, -⟩ | ⟨node, isNode, same⟩ | bare
  · cases isEarlier
  · exact ⟨node, isNode, same ▸ given⟩
  · have none_given : fingerprint ∈ old.fingerprint := given
    rw [bare] at none_given
    cases none_given

-----------------------------------------------------------------------------------------
-- Keys
-----------------------------------------------------------------------------------------

/-- Noting a node adds its key and no other. -/
theorem mem_keys_note {facts : List Fact} {node : Node} {key : Key}
    : key ∈ (note facts node).map (·.key) ↔ key ∈ facts.map (·.key) ∨ key = node.key := by
  unfold note
  split
  · simp
  · rename_i cascades _
    split
    · rename_i known
      obtain ⟨fact, member, sameKey⟩ := List.any_eq_true.1 known
      rw [keys_joined]
      refine ⟨.inl, fun given => given.elim id ?_⟩
      rintro rfl
      exact List.mem_map.2 ⟨fact, member, of_decide_eq_true sameKey⟩
    · simp

/-- The keys of collapsed nodes are those of the facts before and those of the nodes, by induction
on the nodes.
-/
theorem mem_keys_collapseFrom {snapshot : Snapshot} {nodes : List Node} {index : Nat}
    {facts result : List Fact} (accepted : snapshot.collapseFrom index facts nodes = .ok result)
    {key : Key}
    : key ∈ result.map (·.key) ↔ key ∈ facts.map (·.key) ∨ ∃ node ∈ nodes, node.key = key := by
  induction nodes generalizing index facts with
  | nil =>
      rw [Except.ok.inj accepted]
      simp
  | cons node rest ih =>
      obtain ⟨middle, first, later⟩ := bind_eq_ok.1 accepted
      obtain ⟨-, rfl⟩ := collapse_eq_ok_iff.1 first
      rw [ih later, mem_keys_note, or_assoc, List.exists_mem_cons_iff, eq_comm]

/-- Nodes that collapse were checked one by one, by induction on the nodes. -/
theorem checkNode_of_collapseFrom {snapshot : Snapshot} {nodes : List Node} {index : Nat}
    {facts result : List Fact} (accepted : snapshot.collapseFrom index facts nodes = .ok result)
    : ∀ node ∈ nodes, ∃ place, snapshot.checkNode place node = .ok () := by
  induction nodes generalizing index facts with
  | nil => exact fun node member => nomatch member
  | cons node rest ih =>
      obtain ⟨middle, first, later⟩ := bind_eq_ok.1 accepted
      rw [List.forall_mem_cons]
      exact ⟨⟨index, (collapse_eq_ok_iff.1 first).1.checked⟩, ih later⟩

/-- The keys of a normal form are those of the nodes. -/
theorem mem_keys_of_normalForm {snapshot : Snapshot} {facts : List Fact}
    (accepted : snapshot.normalForm = .ok facts) {key : Key}
    : key ∈ facts.map (·.key) ↔ ∃ node ∈ snapshot.nodes, node.key = key := by
  obtain ⟨-, -, merged, collapsed, rfl⟩ := normalForm_eq_ok_iff.1 accepted
  have keys
      : key ∈ merged.map (·.key)
        ↔ key ∈ [].map Fact.key ∨ ∃ node ∈ snapshot.nodes, node.key = key :=
    mem_keys_collapseFrom collapsed
  rw [List.map_nil, or_iff_right List.not_mem_nil] at keys
  rw [List.map_map, ← keys]
  rfl

/-- In a normal form every edge leads to a fact. -/
theorem target_mem_keys_of_normalForm {snapshot : Snapshot} {facts : List Fact}
    (accepted : snapshot.normalForm = .ok facts) {fact : Fact} (member : fact ∈ facts)
    {target : Key} (depends : target ∈ fact.dependsOn)
    : target ∈ facts.map (·.key) := by
  rw [mem_keys_of_normalForm accepted]
  obtain ⟨-, -, merged, -, rfl⟩ := normalForm_eq_ok_iff.1 accepted
  obtain ⟨old, -, rfl⟩ := List.mem_map.1 member
  obtain ⟨place, -, found⟩ := List.mem_filterMap.1 (List.mem_eraseDups.1 depends)
  obtain ⟨node, isNode, rfl⟩ := Option.map_eq_some_iff.1 found
  exact ⟨node, List.mem_of_getElem? isNode, rfl⟩

/-- In a normal form whatever is about an artifact is an interface fact. -/
theorem isInterface_of_normalForm {snapshot : Snapshot} {facts : List Fact}
    (accepted : snapshot.normalForm = .ok facts) {fact : Fact} (member : fact ∈ facts)
    (external : fact.key.externalPath?.isSome = true)
    : fact.key.isInterface = true := by
  obtain ⟨node, isNode, sameKey⟩ :=
    (mem_keys_of_normalForm accepted).1 (List.mem_map.2 ⟨fact, member, rfl⟩)
  obtain ⟨-, -, merged, collapsed, -⟩ := normalForm_eq_ok_iff.1 accepted
  obtain ⟨place, checked⟩ := checkNode_of_collapseFrom collapsed node isNode
  rw [← sameKey] at external ⊢
  unfold checkNode at checked
  split at checked
  · cases checked
  · split at checked
    · cases checked
    · split at checked
      · cases checked
      · rename_i shown
        by_contra hidden
        exact shown ⟨external, by simpa using hidden⟩

-----------------------------------------------------------------------------------------
-- Catch-all facts
-----------------------------------------------------------------------------------------

/-- Some fact is a definition of a key. -/
def Provides (facts : List Fact) (key : Key) : Prop :=
  ∃ fact ∈ facts, fact.key = key ∧ fact.isDefinition = true

/-- A definition stays one when further nodes are noted, since a use joins it without changing it.
-/
theorem Provides.note {facts : List Fact} {key : Key} (provides : Provides facts key) (node : Node)
    : Provides (note facts node) key := by
  obtain ⟨fact, member, rfl, provided⟩ := provides
  unfold Snapshot.note
  split
  · exact ⟨fact, List.mem_append_left _ member, rfl, provided⟩
  · rename_i cascades _
    split
    · by_cases same : fact.key = node.key
      · refine ⟨collapse.join cascades fact, List.mem_map.2 ⟨fact, member, ?_⟩, ?_, ?_⟩
        · rw [if_pos same]
        · exact join_key cascades fact
        · rw [join_isDefinition, provided]
      · exact ⟨fact, List.mem_map.2 ⟨fact, member, if_neg same⟩, rfl, provided⟩
    · exact ⟨fact, List.mem_append_left _ member, rfl, provided⟩

theorem provides_note {facts : List Fact} {node : Node} (provided : node.role.isDefinition = true)
    : Provides (note facts node) node.key := by
  cases role : node.role with
  | definition =>
      simp only [note, role]
      exact ⟨_, List.mem_append_right _ List.mem_cons_self, rfl, rfl⟩
  | use cascades =>
      rw [role] at provided
      cases provided

/-- Whatever is provided before nodes collapse, or defined by one of them, is provided afterwards,
by induction on the nodes.
-/
theorem collapseFrom_provides {snapshot : Snapshot} {nodes : List Node} {index : Nat}
    {facts result : List Fact} (accepted : snapshot.collapseFrom index facts nodes = .ok result)
    {key : Key}
    (provided
      : Provides facts key ∨ ∃ node ∈ nodes, node.key = key ∧ node.role.isDefinition = true)
    : Provides result key := by
  induction nodes generalizing index facts with
  | nil =>
      rcases provided with known | ⟨node, member, -⟩
      · exact Except.ok.inj accepted ▸ known
      · cases member
  | cons node rest ih =>
      obtain ⟨middle, first, later⟩ := bind_eq_ok.1 accepted
      obtain ⟨-, rfl⟩ := collapse_eq_ok_iff.1 first
      apply ih later
      rcases provided with known | ⟨other, member, sameKey, isDefinition⟩
      · exact .inl (known.note node)
      · rcases List.mem_cons.1 member with rfl | inRest
        · exact .inl (sameKey ▸ provides_note isDefinition)
        · exact .inr ⟨other, inRest, sameKey, isDefinition⟩

/-- Where the check for a catch-all fact succeeds, a node of the snapshot defines it. -/
theorem exists_node_of_checkCatchAll {snapshot : Snapshot} {sequence : Nat} {aspect : Aspect}
    (checked : snapshot.checkCatchAll sequence aspect = .ok ())
    : ∃ node ∈ snapshot.nodes,
        node.key = .wholeUnit aspect snapshot.unit ∧ node.role.isDefinition = true := by
  unfold checkCatchAll at checked
  split at checked
  · cases checked
  · rename_i node found
    split at checked
    · rename_i isCatchAll
      exact ⟨node, List.mem_of_getElem? found, isCatchAll⟩
    · split at checked <;> cases checked

/-- A normal form provides both catch-all facts of the unit. -/
theorem provides_wholeUnit_of_normalForm {snapshot : Snapshot} {facts : List Fact}
    (accepted : snapshot.normalForm = .ok facts) (aspect : Aspect)
    : Provides facts (.wholeUnit aspect snapshot.unit) := by
  obtain ⟨first, second, merged, collapsed, rfl⟩ := normalForm_eq_ok_iff.1 accepted
  have defined
      : ∃ node ∈ snapshot.nodes,
          node.key = .wholeUnit aspect snapshot.unit ∧ node.role.isDefinition = true := by
    cases aspect with
    | interface => exact exists_node_of_checkCatchAll first
    | implementation => exact exists_node_of_checkCatchAll second
  obtain ⟨fact, member, sameKey, provided⟩ := collapseFrom_provides collapsed (.inr defined)
  exact ⟨_, List.mem_map.2 ⟨fact, member, rfl⟩, sameKey, provided⟩

/-- A normal form has facts, at least the catch-all ones. -/
theorem normalForm_ne_nil {snapshot : Snapshot} {facts : List Fact}
    (accepted : snapshot.normalForm = .ok facts)
    : facts ≠ [] := by
  obtain ⟨fact, member, -⟩ := provides_wholeUnit_of_normalForm accepted .interface
  exact List.ne_nil_of_mem member

end Snapshot

-----------------------------------------------------------------------------------------
-- Without fingerprints
-----------------------------------------------------------------------------------------

/-- A fact without its fingerprint: its key, its role and its edges. -/
def Fact.bare (fact : Fact) : Fact := { fact with fingerprint := none }

@[simp]
theorem Fact.bare_key (fact : Fact) : fact.bare.key = fact.key := rfl

@[simp]
theorem Fact.bare_isDefinition (fact : Fact) : fact.bare.isDefinition = fact.isDefinition := rfl

/-- Facts are the same without fingerprints if they have the same key, the same role and the same
edges in the same order.
-/
theorem Fact.bare_eq_bare_iff {fact other : Fact}
    : fact.bare = other.bare
      ↔ fact.key = other.key ∧ fact.role = other.role ∧ fact.dependsOn = other.dependsOn := by
  simp [Fact.bare]

def Snapshot.Node.bare (node : Snapshot.Node) : Snapshot.Node := { node with fingerprint := none }

namespace Snapshot

/-- A snapshot without fingerprints. Two snapshots that are equal without them differ at most in the
fingerprints of definitions if both keep the contract, since their uses carry none.
-/
def bare (snapshot : Snapshot) : Snapshot := { snapshot with nodes := snapshot.nodes.map Node.bare }

/-- What is noted of a node without its fingerprint is what is noted of the node, without. -/
theorem note_bare (facts : List Fact) (node : Node)
    : note (facts.map Fact.bare) node.bare = (note facts node).map Fact.bare := by
  cases role : node.role with
  | definition => simp [note, Node.bare, Fact.bare, role]
  | use cascades =>
      have known : (facts.map Fact.bare).any (·.key = node.key) = facts.any (·.key = node.key) := by
        rw [List.any_map]
        rfl
      have joined (fact : Fact)
          : (collapse.join cascades fact.bare) = (collapse.join cascades fact).bare := by
        unfold collapse.join
        cases provided : fact.role <;> simp [Fact.bare, provided]
      simp only [note, Node.bare, role, known]
      split
      · rw [List.map_map, List.map_map]
        apply List.map_congr_left
        intro fact _
        by_cases same : fact.key = node.key
        · simpa only [Function.comp_apply, Fact.bare_key, same, ↓reduceIte] using joined fact
        · simp only [Function.comp_apply, Fact.bare_key, same, ↓reduceIte]
      · simp [Fact.bare]

theorem Acceptable.bare {snapshot : Snapshot} {facts : List Fact} {index : Nat} {node : Node}
    (acceptable : snapshot.Acceptable facts index node)
    : snapshot.bare.Acceptable (facts.map Fact.bare) index node.bare where
  checked := by
    have checked := acceptable.checked
    simp only [checkNode, Snapshot.bare, List.length_map] at checked ⊢
    exact checked
  definition := by
    intro provided
    obtain ⟨placed, new⟩ := acceptable.definition provided
    refine ⟨placed, fun fact member => ?_⟩
    obtain ⟨old, oldMember, rfl⟩ := List.mem_map.1 member
    exact new old oldMember
  bareUse := fun _ => rfl

/-- Nodes collapse without their fingerprints as they do with them, by induction on the nodes. -/
theorem collapseFrom_bare {snapshot : Snapshot} {nodes : List Node} {index : Nat}
    {facts result : List Fact} (accepted : snapshot.collapseFrom index facts nodes = .ok result)
    : snapshot.bare.collapseFrom index (facts.map Fact.bare) (nodes.map Node.bare)
      = .ok (result.map Fact.bare) := by
  induction nodes generalizing index facts with
  | nil => exact congrArg _ (congrArg _ (Except.ok.inj accepted))
  | cons node rest ih =>
      obtain ⟨middle, first, later⟩ := bind_eq_ok.1 accepted
      obtain ⟨acceptable, rfl⟩ := collapse_eq_ok_iff.1 first
      refine bind_eq_ok.2 ⟨_, collapse_eq_ok_iff.2 ⟨acceptable.bare, rfl⟩, ?_⟩
      rw [note_bare]
      exact ih later

theorem edgesFrom_bare (snapshot : Snapshot) (key : Key)
    : snapshot.bare.edgesFrom key = snapshot.edgesFrom key := by
  have targets
      : ((snapshot.nodes.map Node.bare).filter (·.key = key)).flatMap (·.dependsOn)
        = (snapshot.nodes.filter (·.key = key)).flatMap (·.dependsOn) := by
    rw [List.filter_map, List.flatMap_map]
    rfl
  have keys (target : Nat)
      : (snapshot.nodes.map Node.bare)[target]?.map (·.key)
        = snapshot.nodes[target]?.map (·.key) := by
    rw [List.getElem?_map, Option.map_map]
    rfl
  simp only [edgesFrom, Snapshot.bare, targets, keys]

theorem checkCatchAll_bare (snapshot : Snapshot) (sequence : Nat) (aspect : Aspect)
    : snapshot.bare.checkCatchAll sequence aspect = snapshot.checkCatchAll sequence aspect := by
  simp only [checkCatchAll, Snapshot.bare, List.getElem?_map]
  cases snapshot.nodes[sequence]? <;> rfl

/-- The normal form of a snapshot without its fingerprints is its normal form, without. -/
theorem normalForm_bare {snapshot : Snapshot} {facts : List Fact}
    (accepted : snapshot.normalForm = .ok facts)
    : snapshot.bare.normalForm = .ok (facts.map Fact.bare) := by
  obtain ⟨first, second, merged, collapsed, rfl⟩ := normalForm_eq_ok_iff.1 accepted
  refine normalForm_eq_ok_iff.2 ⟨?_, ?_, _, collapseFrom_bare collapsed, ?_⟩
  · rw [checkCatchAll_bare, first]
  · rw [checkCatchAll_bare, second]
  · simp only [List.map_map]
    apply List.map_congr_left
    intro fact _
    simp [Fact.bare, edgesFrom_bare]

/-- Snapshots that are equal without fingerprints have normal forms that are. -/
theorem map_bare_eq_of_normalForm {snapshot other : Snapshot} {facts others : List Fact}
    (same : snapshot.bare = other.bare) (accepted : snapshot.normalForm = .ok facts)
    (otherAccepted : other.normalForm = .ok others)
    : facts.map Fact.bare = others.map Fact.bare :=
  Except.ok.inj
    ((normalForm_bare accepted).symm.trans (same ▸ normalForm_bare otherAccepted))

end Snapshot

end Invalidation
