import Invalidation.Proofs.Snapshot.Entry
import Invalidation.Proofs.Snapshot.Shorthand
import Mathlib.Data.List.Forall2
import Mathlib.Data.List.Perm.Basic

/-! What a shorthand means, read off its entries one fact at a time. A snapshot is laid out in two
passes over the entries, and its nodes collapse once more in the normal form; but no order of the
entries shows in the outcome, save that the first definition of a key gives its fingerprint.
-/

namespace Invalidation

/-- Two facts are the same, up to the order in which they list their edges. -/
structure Fact.SameAs (fact other : Fact) : Prop where
  key : fact.key = other.key
  fingerprint : fact.fingerprint = other.fingerprint
  role : fact.role = other.role
  edges : ∀ key, key ∈ fact.dependsOn ↔ key ∈ other.dependsOn

theorem Fact.SameAs.refl (fact : Fact) : fact.SameAs fact := ⟨rfl, rfl, rfl, fun _ => .rfl⟩

end Invalidation

namespace Invalidation.Shorthand

open Snapshot

-----------------------------------------------------------------------------------------
-- The meaning of entries
-----------------------------------------------------------------------------------------

/-- The first definition of a key that entries ask for. -/
def firstDefinition? (entries : List Entry) (key : Key)
    : Option Definition :=
  (entries.filterMap (·.defined)).find? (·.key = key)

/-- What entries of a unit say, fact by fact. -/
inductive Meant (unit : UnitName) (entries : List Entry) (fact : Fact) : Prop where
  /-- The unit provides itself as a whole, on both sides. -/
  | catchAll (aspect : Aspect) (key : fact.key = .wholeUnit aspect unit)
      (role : fact.role = .definition) (fingerprint : fact.fingerprint = none)
      (edges : fact.dependsOn = [])
  /-- A key that entries define takes its fingerprint from the first of them, and depends on what
  all of them use.
  -/
  | definition (first : Definition)
      (isFirst : firstDefinition? entries fact.key = some first)
      (role : fact.role = .definition) (fingerprint : fact.fingerprint = first.fingerprint)
      (edges
        : ∀ key,
            key ∈ fact.dependsOn
            ↔ ∃ entry ∈ entries,
                entry.used = some key ∧ entry.defined.map (·.key) = some fact.key)
  /-- Any other key that entries use cascades if one of them does. -/
  | use (cascades : Bool)
      (undefined : ∀ entry ∈ entries, entry.defined.map (·.key) ≠ some fact.key)
      (used : ∃ entry ∈ entries, entry.used = some fact.key)
      (notOwn : fact.key ≠ .wholeUnit .interface unit)
      (role : fact.role = .use cascades)
      (cascading
        : cascades = true
          ↔ ∃ entry ∈ entries, entry.used = some fact.key ∧ entry.cascades = true)
      (fingerprint : fact.fingerprint = none) (edges : fact.dependsOn = [])

variable {unit : UnitName} {entries : List Entry}

theorem Meant.of_sameAs {fact other : Fact} (meant : Meant unit entries fact)
    (same : fact.SameAs other)
    : Meant unit entries other := by
  have noEdges (edges : fact.dependsOn = []) : other.dependsOn = [] :=
    List.eq_nil_iff_forall_not_mem.2 fun key depends => by
      simpa [edges] using (same.edges key).2 depends
  cases meant with
  | catchAll aspect own role bare edges =>
      exact .catchAll aspect (same.key ▸ own) (same.role ▸ role) (same.fingerprint ▸ bare)
        (noEdges edges)
  | definition first isFirst role fingerprint edges =>
      rw [same.key] at isFirst edges
      exact .definition first isFirst (same.role ▸ role) (same.fingerprint ▸ fingerprint)
        fun key => (same.edges key).symm.trans (edges key)
  | use cascades undefined used notOwn role cascading bare edges =>
      rw [same.key] at undefined used notOwn cascading
      exact .use cascades undefined used notOwn (same.role ▸ role) cascading
        (same.fingerprint ▸ bare) (noEdges edges)

-----------------------------------------------------------------------------------------
-- The nodes of a key
-----------------------------------------------------------------------------------------

/-- The definition that is kept of a key is the first one, by induction on the definitions. -/
theorem find?_foldl_keepFirst {found news : List Definition} {key : Key}
    : (news.foldl definitions.keepFirst found).find? (·.key = key)
      = (found ++ news).find? (·.key = key) := by
  induction news generalizing found with
  | nil => rw [List.foldl_nil, List.append_nil]
  | cons definition rest ih =>
      rw [List.foldl_cons, ih, definitions.keepFirst]
      split
      · rename_i known
        rw [List.find?_append, List.find?_append, List.find?_cons]
        by_cases isKey : definition.key = key
        · obtain ⟨old, member, sameKey⟩ := List.any_eq_true.1 known
          have isFound : (found.find? (·.key = key)).isSome = true := by
            rw [List.find?_isSome]
            exact ⟨old, member, by simpa [isKey] using sameKey⟩
          rw [Option.or_of_isSome isFound, Option.or_of_isSome isFound]
        · simp [isKey]
      · rw [List.append_assoc, List.singleton_append]

theorem find?_definitions (entries : List Entry) (key : Key)
    : (definitions entries).find? (·.key = key) = firstDefinition? entries key := by
  rw [definitions, find?_foldl_keepFirst, List.nil_append, firstDefinition?]

theorem exists_catchAllNode (unit : UnitName) (entries : List Entry) (aspect : Aspect)
    : ∃ place,
        ⟨.wholeUnit aspect unit, none, place, [], .definition⟩ ∈ (layOut unit entries).nodes := by
  rw [nodes_layOut]
  cases aspect with
  | interface => exact ⟨0, List.mem_append_left _ List.mem_cons_self⟩
  | implementation => exact ⟨1, List.mem_append_left _ (List.mem_cons_of_mem _ List.mem_cons_self)⟩

theorem exists_definitionNode (unit : UnitName) {definition : Definition}
    (member : definition ∈ definitions entries)
    : ∃ index, definitionNode entries index definition ∈ (layOut unit entries).nodes := by
  obtain ⟨index, atIndex⟩ := List.getElem?_of_mem member
  refine ⟨index, List.mem_of_getElem? (i := index + 2) ?_⟩
  rw [getElem?_layOut, getElem?_laterNodes atIndex]

theorem getElem?_useNode {index : Nat} {use : Key × Bool}
    (atIndex : (uses entries)[index]? = some use)
    : (layOut unit entries).nodes[2 + (definitions entries).length + index]?
      = some (useNode entries index use) := by
  rw [Nat.add_assoc, Nat.add_comm, getElem?_layOut, laterNodes,
    List.getElem?_append_right (by simp), List.length_mapIdx, Nat.add_sub_cancel_left,
    List.getElem?_mapIdx, atIndex, Option.map_some]

theorem mem_targets_iff {key : Key} {place : Nat}
    : place ∈ targets entries key
      ↔ ∃ entry ∈ entries,
          entry.defined.map (·.key) = some key ∧ target? entries entry = some place := by
  have defines (entry : Entry)
      : entry.defined.any (·.key = key) = true ↔ entry.defined.map (·.key) = some key := by
    cases entry.defined <;> simp
  simp only [targets, List.mem_eraseDups, List.mem_filterMap, List.mem_filter, defines, and_assoc]

/-- The uses that are laid out are those of the entries that are no mere edges. -/
theorem mem_uses_iff {use : Key × Bool}
    : use ∈ uses entries
      ↔ ∃ entry ∈ entries,
          entry.isEdge (definitions entries) = false
          ∧ entry.used = some use.1
          ∧ entry.cascades = use.2 := by
  rw [uses, List.mem_eraseDups, List.mem_filterMap]
  refine exists_congr fun entry => and_congr_right fun _ => ?_
  cases isEdge : entry.isEdge (definitions entries) with
  | true => simp
  | false => simp [Option.map_eq_some_iff, Prod.ext_iff]

/-- The uses of a key that no entry defines are all laid out. -/
theorem mem_uses_iff_of_undefined {key : Key} {cascades : Bool}
    (undefined : ∀ entry ∈ entries, entry.defined.map (·.key) ≠ some key)
    : (key, cascades) ∈ uses entries
      ↔ ∃ entry ∈ entries, entry.used = some key ∧ entry.cascades = cascades := by
  rw [mem_uses_iff]
  refine exists_congr fun entry => and_congr_right fun _ => and_iff_right_of_imp fun given => ?_
  have absent : ¬∃ definition ∈ definitions entries, definition.key = key := by
    rw [← List.mem_map, mem_keys_definitions_iff]
    rintro ⟨other, member, defines⟩
    exact undefined other member defines
  simpa [Entry.isEdge, given.1] using fun _ => absent

/-- An edge of an entry leads to a node with the key that the entry uses. -/
theorem key_target? {entry : Entry} (member : entry ∈ entries) {place : Nat}
    (found : target? entries entry = some place)
    : (layOut unit entries).nodes[place]?.map (·.key) = entry.used := by
  obtain ⟨key, used, rfl⟩ := Option.map_eq_some_iff.1 found
  rw [used]
  by_cases isEdge : entry.isEdge (definitions entries)
  · rw [if_pos isEdge, Nat.add_comm, getElem?_layOut]
    simp only [Entry.isEdge, used, Option.any_some, Bool.and_eq_true, List.any_eq_true] at isEdge
    have inside := List.findIdx_lt_length_of_exists isEdge.2
    rw [getElem?_laterNodes (List.getElem?_eq_getElem inside)]
    have sameKey := List.findIdx_getElem (w := inside)
    simpa [definitionNode] using sameKey
  · have isUse : (key, entry.cascades) ∈ uses entries :=
      mem_uses_iff.2 ⟨entry, member, by simpa using isEdge, used, rfl⟩
    rw [if_neg isEdge, getElem?_useNode (List.getElem?_idxOf isUse)]
    rfl

-----------------------------------------------------------------------------------------
-- The facts of a layout
-----------------------------------------------------------------------------------------

/-- Only the node of a key's definition has edges, and all those of the key. -/
theorem exists_dependsOn_iff {key : Key} {place : Nat}
    : (∃ node ∈ (layOut unit entries).nodes, node.key = key ∧ place ∈ node.dependsOn)
      ↔ place ∈ targets entries key := by
  constructor
  · rintro ⟨node, member, sameKey, depends⟩
    obtain ⟨own, found⟩ := List.getElem?_of_mem member
    rcases layOut_cases found with ⟨-, aspect, rfl⟩ | ⟨definition, -, rfl⟩ | ⟨use, -, rfl⟩
    · cases depends
    · exact sameKey ▸ depends
    · cases depends
  · intro isTarget
    obtain ⟨entry, member, defines, -⟩ := mem_targets_iff.1 isTarget
    obtain ⟨definition, isDefinition, sameKey⟩ :=
      List.mem_map.1 (mem_keys_definitions_iff.2 ⟨entry, member, defines⟩)
    obtain ⟨index, isNode⟩ := exists_definitionNode unit isDefinition
    rw [← sameKey] at isTarget
    exact ⟨_, isNode, sameKey, isTarget⟩

/-- What a fact depends on, is used by the entries that define its key. -/
theorem mem_dependsOn_iff {fact : Fact} (collapses : (layOut unit entries).CollapsesTo fact)
    {key : Key}
    : key ∈ fact.dependsOn
      ↔ ∃ entry ∈ entries,
          entry.used = some key ∧ entry.defined.map (·.key) = some fact.key := by
  obtain ⟨targets, leads, edges⟩ := collapses.edges
  rw [edges, List.mem_eraseDups, ← List.mem_map_of_injective (Option.some_injective Key), leads]
  simp only [List.mem_map, List.mem_flatMap, List.mem_filter, decide_eq_true_eq, and_assoc,
    exists_dependsOn_iff, mem_targets_iff]
  constructor
  · rintro ⟨place, ⟨entry, member, defines, found⟩, leadsTo⟩
    exact ⟨entry, member, (key_target? member found).symm.trans leadsTo, defines⟩
  · rintro ⟨entry, member, used, defines⟩
    obtain ⟨place, found⟩ : ∃ place, target? entries entry = some place := by
      rw [target?, used]
      exact ⟨_, rfl⟩
    exact ⟨place, ⟨entry, member, defines, found⟩, (key_target? member found).trans used⟩

/-- Some definition of a key is the first one, if any entry defines the key. -/
theorem exists_first_iff {key : Key}
    : (∃ first, firstDefinition? entries key = some first)
      ↔ ∃ entry ∈ entries, entry.defined.map (·.key) = some key := by
  simp only [← find?_definitions, ← Option.isSome_iff_exists, List.find?_isSome, decide_eq_true_eq,
    ← mem_keys_definitions_iff, List.mem_map]

/-- The first definition of a key is the one that is kept. -/
theorem mem_definitions_of_first {key : Key} {first : Definition}
    (isFirst : firstDefinition? entries key = some first)
    : first ∈ definitions entries ∧ first.key = key := by
  rw [← find?_definitions] at isFirst
  exact ⟨List.mem_of_find?_eq_some isFirst, by simpa using List.find?_some isFirst⟩

theorem exists_useNode_iff {key : Key} {cascades : Bool}
    : (∃ node ∈ (layOut unit entries).nodes, node.key = key ∧ node.role = .use cascades)
      ↔ (key, cascades) ∈ uses entries := by
  constructor
  · rintro ⟨node, member, sameKey, isUse⟩
    obtain ⟨place, found⟩ := List.getElem?_of_mem member
    rcases layOut_cases found with ⟨-, aspect, rfl⟩ | ⟨definition, -, rfl⟩ | ⟨other, isOther, rfl⟩
    · cases isUse
    · cases isUse
    · obtain rfl : other = (key, cascades) := Prod.ext sameKey (Role.use.inj isUse)
      exact isOther
  · intro member
    obtain ⟨index, atIndex⟩ := List.getElem?_of_mem member
    exact ⟨_, List.mem_of_getElem? (getElem?_useNode atIndex), rfl, rfl⟩

/-- A fact has no edges if no entry defines its key. -/
theorem dependsOn_eq_nil {fact : Fact} (collapses : (layOut unit entries).CollapsesTo fact)
    (undefined : ∀ entry ∈ entries, entry.defined.map (·.key) ≠ some fact.key)
    : fact.dependsOn = [] := by
  refine List.eq_nil_iff_forall_not_mem.2 fun key depends => ?_
  obtain ⟨entry, member, -, defines⟩ := (mem_dependsOn_iff collapses).1 depends
  exact undefined entry member defines

/-- A fact that is neither a catch-all of the unit nor defined by an entry is a use. -/
theorem meant_of_use {fact : Fact} (collapses : (layOut unit entries).CollapsesTo fact)
    (occurs : ∃ node ∈ (layOut unit entries).nodes, node.key = fact.key)
    (notOwn : ∀ aspect, fact.key ≠ .wholeUnit aspect unit)
    (undefined : ∀ entry ∈ entries, entry.defined.map (·.key) ≠ some fact.key)
    : Meant unit entries fact := by
  -- Catch-all facts and definitions have other keys, so only uses collapse to the fact.
  have isUse {node : Snapshot.Node} (member : node ∈ (layOut unit entries).nodes)
      (sameKey : node.key = fact.key)
      : ∃ cascades, node.role = .use cascades := by
    obtain ⟨place, found⟩ := List.getElem?_of_mem member
    rcases layOut_cases found with
      ⟨-, aspect, rfl⟩ | ⟨definition, isDefinition, rfl⟩ | ⟨use, -, rfl⟩
    · exact absurd sameKey.symm (notOwn aspect)
    · obtain ⟨entry, isEntry, defines⟩ :=
        mem_keys_definitions_iff.1 (List.mem_map.2 ⟨definition, isDefinition, sameKey⟩)
      exact absurd defines (undefined entry isEntry)
    · exact ⟨use.2, rfl⟩
  obtain ⟨node, member, sameKey⟩ := occurs
  obtain ⟨once, isOnce⟩ := isUse member sameKey
  have laidOut : (fact.key, once) ∈ uses entries :=
    exists_useNode_iff.1 ⟨node, member, sameKey, isOnce⟩
  obtain ⟨entry, isEntry, used, -⟩ := (mem_uses_iff_of_undefined undefined).1 laidOut
  have unprovided
      : ∀ node ∈ (layOut unit entries).nodes, node.key = fact.key → node.role ≠ .definition := by
    intro node member sameKey provided
    obtain ⟨cascades, role⟩ := isUse member sameKey
    cases provided.symm.trans role
  obtain ⟨bare, cascades, role, cascading⟩ := collapses.sums.used unprovided
  rw [exists_useNode_iff, mem_uses_iff_of_undefined undefined] at cascading
  exact .use cascades undefined ⟨entry, isEntry, used⟩ (notOwn .interface) role cascading bare
    (dependsOn_eq_nil collapses undefined)

/-- Entries name interface keys only, and none of them defines the unit as a whole. -/
structure SparesCatchAll (unit : UnitName) (entries : List Entry) : Prop where
  shown : ∀ entry ∈ entries, entry.Shown
  undefined : ∀ entry ∈ entries, entry.defined.map (·.key) ≠ some (.wholeUnit .interface unit)

namespace SparesCatchAll

theorem catchAll_undefined (spares : SparesCatchAll unit entries) (aspect : Aspect)
    : ∀ entry ∈ entries, entry.defined.map (·.key) ≠ some (.wholeUnit aspect unit) := by
  intro entry member defines
  cases aspect with
  | interface => exact spares.undefined entry member defines
  | implementation => cases (spares.shown entry member).defined _ defines

/-- A fact of the normal form is what the entries say of its key. -/
theorem meant_of_collapsesTo (spares : SparesCatchAll unit entries) {fact : Fact}
    (collapses : (layOut unit entries).CollapsesTo fact)
    (occurs : ∃ node ∈ (layOut unit entries).nodes, node.key = fact.key)
    : Meant unit entries fact := by
  by_cases own : ∃ aspect, fact.key = .wholeUnit aspect unit
  · obtain ⟨aspect, own⟩ := own
    obtain ⟨place, member⟩ := exists_catchAllNode unit entries aspect
    obtain ⟨role, bare⟩ := collapses.sums.defined _ member own.symm rfl
    exact .catchAll aspect own role bare
      (dependsOn_eq_nil collapses (own ▸ spares.catchAll_undefined aspect))
  · by_cases defined : ∃ entry ∈ entries, entry.defined.map (·.key) = some fact.key
    · obtain ⟨first, isFirst⟩ := exists_first_iff.2 defined
      obtain ⟨isDefinition, sameKey⟩ := mem_definitions_of_first isFirst
      obtain ⟨index, member⟩ := exists_definitionNode unit isDefinition
      obtain ⟨role, fingerprint⟩ := collapses.sums.defined _ member sameKey rfl
      exact .definition first isFirst role fingerprint fun key => mem_dependsOn_iff collapses
    · exact meant_of_use collapses occurs (not_exists.1 own) fun entry member defines =>
        defined ⟨entry, member, defines⟩

theorem exists_normalForm (spares : SparesCatchAll unit entries)
    : ∃ facts, (layOut unit entries).normalForm = .ok facts := by
  have keeps : (layOut unit entries).KeepsRest := keepsRest_layOut spares.shown
  have decides := keeps.normalForm_decides
  cases normal : (layOut unit entries).normalForm with
  | ok facts => exact ⟨facts, rfl⟩
  | error violation =>
      simp only [normal] at decides
      obtain ⟨place, -, late, aspect, defines⟩ := decides
      obtain ⟨entry, member, again⟩ := exists_definesAt_layOut_iff.1 ⟨place, late, defines⟩
      exact absurd again (spares.catchAll_undefined aspect entry member)

/-- Each key that entries say something of stands in the layout. -/
theorem occurs_of_meant {fact : Fact} (meant : Meant unit entries fact)
    : ∃ node ∈ (layOut unit entries).nodes, node.key = fact.key := by
  cases meant with
  | catchAll aspect own =>
      obtain ⟨place, member⟩ := exists_catchAllNode unit entries aspect
      exact ⟨_, member, own.symm⟩
  | definition first isFirst =>
      obtain ⟨isDefinition, sameKey⟩ := mem_definitions_of_first isFirst
      obtain ⟨index, member⟩ := exists_definitionNode unit isDefinition
      exact ⟨_, member, sameKey⟩
  | use _ undefined used =>
      obtain ⟨entry, member, used⟩ := used
      have isUse := (mem_uses_iff_of_undefined undefined).2 ⟨entry, member, used, rfl⟩
      obtain ⟨node, isNode, sameKey, -⟩ := exists_useNode_iff.2 isUse
      exact ⟨node, isNode, sameKey⟩

/-- Entries say one thing of each key. -/
theorem sameAs_of_meant (spares : SparesCatchAll unit entries) {fact other : Fact}
    (meant : Meant unit entries fact) (otherMeant : Meant unit entries other)
    (sameKey : fact.key = other.key)
    : fact.SameAs other := by
  -- The cases exclude each other: a key is the unit's own, or defined, or merely used.
  have notFirst {key : Key} {aspect : Aspect} (own : key = .wholeUnit aspect unit)
      : ∀ first, firstDefinition? entries key ≠ some first := by
    intro first isFirst
    obtain ⟨entry, member, defines⟩ := exists_first_iff.1 ⟨first, isFirst⟩
    exact spares.catchAll_undefined aspect entry member (own ▸ defines)
  have notUsed {key : Key} {aspect : Aspect} (own : key = .wholeUnit aspect unit)
      (notOwn : key ≠ .wholeUnit .interface unit)
      : ¬∃ entry ∈ entries, entry.used = some key := by
    rintro ⟨entry, member, used⟩
    have shown := (spares.shown entry member).used key used
    obtain rfl : aspect = .interface := by rwa [own] at shown
    exact notOwn own
  cases meant with
  | catchAll aspect own role bare edges =>
      cases otherMeant with
      | catchAll _ _ otherRole otherBare otherEdges =>
          exact ⟨sameKey, bare.trans otherBare.symm, role.trans otherRole.symm,
            by simp [edges, otherEdges]⟩
      | definition first isFirst => exact absurd isFirst (notFirst (sameKey ▸ own) first)
      | use _ _ used notOwn => exact absurd used (notUsed (sameKey ▸ own) notOwn)
  | definition first isFirst role fingerprint edges =>
      cases otherMeant with
      | catchAll aspect own => exact absurd isFirst (notFirst (sameKey ▸ own) first)
      | definition other isOther otherRole otherFingerprint otherEdges =>
          rw [← sameKey] at isOther otherEdges
          obtain rfl : first = other := Option.some.inj (isFirst.symm.trans isOther)
          exact ⟨sameKey, fingerprint.trans otherFingerprint.symm, role.trans otherRole.symm,
            fun key => (edges key).trans (otherEdges key).symm⟩
      | use _ undefined =>
          obtain ⟨entry, member, defines⟩ := exists_first_iff.1 ⟨first, isFirst⟩
          exact absurd (sameKey ▸ defines) (undefined entry member)
  | use cascades undefined used notOwn role cascading bare edges =>
      cases otherMeant with
      | catchAll aspect own => exact absurd used (notUsed (sameKey ▸ own) notOwn)
      | definition first isFirst =>
          obtain ⟨entry, member, defines⟩ := exists_first_iff.1 ⟨first, isFirst⟩
          exact absurd (sameKey ▸ defines) (undefined entry member)
      | use other _ _ _ otherRole otherCascading otherBare otherEdges =>
          rw [← sameKey, ← cascading, Bool.coe_iff_coe] at otherCascading
          rw [otherCascading] at otherRole
          exact ⟨sameKey, bare.trans otherBare.symm, role.trans otherRole.symm,
            by simp [edges, otherEdges]⟩

/-- The facts of the normal form are all that the entries say. -/
theorem meant_iff (spares : SparesCatchAll unit entries) {facts : List Fact}
    (normal : (layOut unit entries).normalForm = .ok facts) {fact : Fact}
    : Meant unit entries fact ↔ ∃ found ∈ facts, found.SameAs fact := by
  have occurs {key : Key}
      : (∃ found ∈ facts, found.key = key)
        ↔ ∃ node ∈ (layOut unit entries).nodes, node.key = key := by
    rw [← List.mem_map, keys_eq_of_normalForm normal, List.mem_eraseDups, List.mem_map]
  have foundMeant {found : Fact} (member : found ∈ facts) : Meant unit entries found :=
    spares.meant_of_collapsesTo (collapsesTo_of_normalForm normal found member)
      (occurs.1 ⟨found, member, rfl⟩)
  constructor
  · intro meant
    obtain ⟨found, member, sameKey⟩ := occurs.2 (occurs_of_meant meant)
    exact ⟨found, member, spares.sameAs_of_meant (foundMeant member) meant sameKey⟩
  · rintro ⟨found, member, same⟩
    exact (foundMeant member).of_sameAs same

end SparesCatchAll

-----------------------------------------------------------------------------------------
-- Entries in another order
-----------------------------------------------------------------------------------------

/-- The lines of groups: the texts of their entries, each with the kind of its group. -/
def lines (groups : List (Kind × List String))
    : List (Kind × String) :=
  groups.flatMap fun (kind, texts) => texts.map (kind, ·)

/-- A line spells an entry that defines a key. -/
def Defining (key : Key) (line : Kind × String) : Prop :=
  ∃ entry, Spells line.1 line.2 entry ∧ entry.defined.map (·.key) = some key

/-- The definition that a line asks for. -/
def definition? (line : Kind × String)
    : Option Definition :=
  (readEntry line.1 line.2).toOption.bind (·.defined)

theorem definition?_eq_of_spells {line : Kind × String} {entry : Entry}
    (spells : Spells line.1 line.2 entry)
    : definition? line = entry.defined := by
  rw [definition?, readEntry_eq_ok_iff.2 spells]
  rfl

theorem defining_iff {key : Key} {line : Kind × String}
    : Defining key line ↔ (definition? line).any (·.key = key) = true := by
  rw [Defining, definition?]
  cases read : readEntry line.1 line.2 with
  | error violation =>
      refine iff_of_false ?_ (by simp [Except.toOption])
      rintro ⟨entry, spells, -⟩
      cases read.symm.trans (readEntry_eq_ok_iff.2 spells)
  | ok entry =>
      simp only [← readEntry_eq_ok_iff, read, Except.ok.injEq, exists_eq_left', Except.toOption,
        Option.bind_some]
      cases entry.defined <;> simp

instance (key : Key) (line : Kind × String) : Decidable (Defining key line) :=
  decidable_of_iff _ defining_iff.symm

/-- Groups have the same lines in another order, in which those that define one key keep theirs. -/
structure Rearranged (groups other : List (Kind × List String)) : Prop where
  sameLines : (lines groups).Perm (lines other)
  sameOrder : ∀ key, (lines groups).filter (Defining key ·) = (lines other).filter (Defining key ·)

/-- Only the keys that some line defines have lines whose order counts. -/
instance (groups other : List (Kind × List String)) : Decidable (Rearranged groups other) :=
  decidable_of_iff
    ((lines groups).Perm (lines other)
      ∧ ∀ definition ∈ (lines groups).filterMap definition?,
        (lines groups).filter (Defining definition.key ·)
        = (lines other).filter (Defining definition.key ·)) <| by
    constructor
    · rintro ⟨sameLines, sameOrder⟩
      refine ⟨sameLines, fun key => ?_⟩
      by_cases known : ∃ line ∈ lines groups, Defining key line
      · obtain ⟨line, member, defines⟩ := known
        rw [defining_iff, Option.any_eq_true] at defines
        obtain ⟨definition, asks, isKey⟩ := defines
        have sameFilter := sameOrder definition (List.mem_filterMap.2 ⟨line, member, asks⟩)
        rwa [of_decide_eq_true isKey] at sameFilter
      · have none (line) (member : line ∈ lines groups) : ¬Defining key line :=
          fun defines => known ⟨line, member, defines⟩
        rw [List.filter_eq_nil_iff.2 (by simpa using none), eq_comm, List.filter_eq_nil_iff]
        simpa [sameLines.mem_iff] using none
    · intro rearranged
      exact ⟨rearranged.sameLines, fun definition _ => rearranged.sameOrder definition.key⟩

/-- Entries are spelled by lines, one by one. -/
abbrev Spelled (lines : List (Kind × String)) (entries : List Entry) : Prop :=
  List.Forall₂ (fun line entry => Spells line.1 line.2 entry) lines entries

/-- Groups are read as the entries that their lines spell, by induction on the lines. -/
theorem readGroups_eq_ok_iff {groups : List (Kind × List String)} {entries : List Entry}
    : readGroups groups = .ok entries ↔ Spelled (lines groups) entries := by
  change (lines groups).mapM (fun line => readEntry line.1 line.2) = .ok entries ↔ List.Forall₂ ..
  induction lines groups generalizing entries with
  | nil => rw [List.mapM_nil, pure_eq_ok, List.forall₂_nil_left_iff, eq_comm]
  | cons line rest ih =>
      simp only [List.mapM_cons, bind_eq_ok, pure_eq_ok, ih, readEntry_eq_ok_iff,
        List.forall₂_cons_left_iff]
      constructor
      · rintro ⟨entry, spells, others, spelled, rfl⟩
        exact ⟨entry, others, spells, spelled, rfl⟩
      · rintro ⟨entry, others, spells, spelled, rfl⟩
        exact ⟨entry, spells, others, spelled, rfl⟩

/-- The first definition of a key is the one that the first line asks for that defines the key. -/
theorem firstDefinition?_eq {lines : List (Kind × String)} (spelled : Spelled lines entries)
    (key : Key)
    : firstDefinition? entries key = (lines.filter (Defining key ·)).head?.bind definition? := by
  have asked : entries.filterMap (·.defined) = lines.filterMap definition? := by
    induction spelled with
    | nil => rfl
    | cons spells _ ih =>
        rw [List.filterMap_cons, List.filterMap_cons, ih, definition?_eq_of_spells spells]
  rw [firstDefinition?, asked, List.find?_filterMap, List.head?_filter]
  simp only [defining_iff, Bool.decide_eq_true]

theorem Meant.of_entries {other : List Entry} {fact : Fact} (meant : Meant unit entries fact)
    (sameMembers : ∀ entry, entry ∈ entries ↔ entry ∈ other)
    (sameFirst : ∀ key, firstDefinition? entries key = firstDefinition? other key)
    : Meant unit other fact := by
  cases meant with
  | catchAll aspect own role bare edges => exact .catchAll aspect own role bare edges
  | definition first isFirst role fingerprint edges =>
      rw [sameFirst] at isFirst
      simp only [sameMembers] at edges
      exact .definition first isFirst role fingerprint edges
  | use cascades undefined used notOwn role cascading bare edges =>
      simp only [sameMembers] at undefined used cascading
      exact .use cascades undefined used notOwn role cascading bare edges

-----------------------------------------------------------------------------------------
-- The outcome
-----------------------------------------------------------------------------------------

theorem shown_of_spelled {lines : List (Kind × String)} (spelled : Spelled lines entries)
    : ∀ entry ∈ entries, entry.Shown := by
  induction spelled with
  | nil => exact List.forall_mem_nil _
  | cons spells _ ih =>
      exact List.forall_mem_cons.2 ⟨shown_of_readEntry (readEntry_eq_ok_iff.2 spells), ih⟩

/-- What is built from groups whose lines spell entries, of which none defines the unit as a whole,
is accepted, and its normal form has exactly the facts that the entries mean, no two of them with
one key. The facts are the same for the groups in another order, as long as the lines that define
one key keep theirs.
-/
theorem built_means_its_entries {unit : UnitName} {groups : List (Kind × List String)}
    {entries : List Entry} (spelled : Spelled (lines groups) entries)
    (undefined
      : ∀ entry ∈ entries, entry.defined.map (·.key) ≠ some (.wholeUnit .interface unit))
    : ∃ snapshot facts,
        build unit groups = .ok snapshot
        ∧ snapshot.normalForm = .ok facts
        ∧ (facts.map (·.key)).Nodup
        ∧ (∀ fact, Meant unit entries fact ↔ ∃ found ∈ facts, found.SameAs fact)
        ∧ ∀ other,
            Rearranged groups other
            → ∃ otherSnapshot otherFacts,
                build unit other = .ok otherSnapshot
                ∧ otherSnapshot.normalForm = .ok otherFacts
                ∧ ∀ fact,
                    (∃ found ∈ otherFacts, found.SameAs fact)
                    ↔ ∃ found ∈ facts, found.SameAs fact := by
  have spares : SparesCatchAll unit entries := ⟨shown_of_spelled spelled, undefined⟩
  obtain ⟨facts, normal⟩ := spares.exists_normalForm
  refine ⟨layOut unit entries, facts, map_eq_ok.2 ⟨entries, readGroups_eq_ok_iff.2 spelled, rfl⟩,
    normal, keys_nodup_of_normalForm normal, fun fact => spares.meant_iff normal, ?_⟩
  intro other rearranged
  obtain ⟨otherEntries, otherSpelled, shuffled⟩ :=
    List.perm_comp_forall₂ rearranged.sameLines.symm spelled
  have sameMembers (entry : Entry) : entry ∈ entries ↔ entry ∈ otherEntries :=
    shuffled.mem_iff.symm
  have sameFirst (key : Key)
      : firstDefinition? entries key = firstDefinition? otherEntries key := by
    rw [firstDefinition?_eq spelled, firstDefinition?_eq otherSpelled, rearranged.sameOrder]
  have otherSpares : SparesCatchAll unit otherEntries :=
    ⟨shown_of_spelled otherSpelled, fun entry member =>
      undefined entry ((sameMembers entry).2 member)⟩
  obtain ⟨otherFacts, otherNormal⟩ := otherSpares.exists_normalForm
  refine ⟨layOut unit otherEntries, otherFacts,
    map_eq_ok.2 ⟨otherEntries, readGroups_eq_ok_iff.2 otherSpelled, rfl⟩, otherNormal,
    fun fact => ?_⟩
  rw [← otherSpares.meant_iff otherNormal, ← spares.meant_iff normal]
  constructor
  · intro meant
    exact meant.of_entries (fun entry => (sameMembers entry).symm) fun key => (sameFirst key).symm
  · intro meant
    exact meant.of_entries sameMembers sameFirst

/-- Groups with an edge to what is defined later on, two definitions of one key, a use that never
cascades, and a use of the unit as a whole.
-/
def layeredGroups : List (Kind × List String) :=
  [(.topLevel, ["late->early", "late@f1", "#far->late@f2", "#far->"]),
    (.sourceFileProvide, ["u0->"])]

/-- The same groups in another order. -/
def relayeredGroups : List (Kind × List String) :=
  [(.sourceFileProvide, ["u0->"]),
    (.topLevel, ["#far->", "late@f1", "late->early", "#far->late@f2"])]

/-- The entries that the layered groups spell. -/
def layeredEntries : List Entry :=
  let key (name : String) : Key := .interface (.topLevel name)
  [⟨true, some (key "late"), some ⟨key "early", none⟩⟩,
    ⟨true, none, some ⟨key "late", some (.digest "f1")⟩⟩,
    ⟨false, some (key "far"), some ⟨key "late", some (.digest "f2")⟩⟩,
    ⟨false, some (key "far"), none⟩,
    ⟨true, some (.wholeUnit .interface "u0"), none⟩]

/-- In both orders the later key has the fingerprint of its first definition, and depends on what
its second one uses.
-/
theorem layered_groups_mean
    : ∃ snapshot facts otherSnapshot otherFacts,
        build "u0" layeredGroups = .ok snapshot
        ∧ snapshot.normalForm = .ok facts
        ∧ build "u0" relayeredGroups = .ok otherSnapshot
        ∧ otherSnapshot.normalForm = .ok otherFacts
        ∧ ∃ late ∈ facts,
            ∃ same ∈ otherFacts,
              same.SameAs late
              ∧ late.key = .interface (.topLevel "late")
              ∧ late.fingerprint = some (.digest "f1")
              ∧ ∀ key, key ∈ late.dependsOn ↔ key = .interface (.topLevel "far") := by
  have read : readGroups layeredGroups = .ok layeredEntries := by decide +kernel
  have undefined
      : ∀ entry ∈ layeredEntries,
          entry.defined.map (·.key) ≠ some (.wholeUnit .interface "u0") := by
    decide +kernel
  have rearranged : Rearranged layeredGroups relayeredGroups := by decide +kernel
  obtain ⟨snapshot, facts, built, normal, -, means, others⟩ :=
    built_means_its_entries (readGroups_eq_ok_iff.1 read) undefined
  obtain ⟨otherSnapshot, otherFacts, otherBuilt, otherNormal, sameFacts⟩ :=
    others relayeredGroups rearranged
  have meant
      : Meant "u0" layeredEntries
          ⟨.interface (.topLevel "late"), some (.digest "f1"), .definition,
            [.interface (.topLevel "far")]⟩ := by
    refine .definition ⟨.interface (.topLevel "late"), some (.digest "f1")⟩ ?_ rfl rfl ?_
    · decide +kernel
    · intro key
      simp [layeredEntries, Key.interface, eq_comm]
  obtain ⟨late, member, same⟩ := (means _).1 meant
  obtain ⟨other, otherMember, otherSame⟩ := (sameFacts late).2 ⟨late, member, .refl late⟩
  have edges (key : Key) : key ∈ late.dependsOn ↔ key = .interface (.topLevel "far") := by
    rw [same.edges, List.mem_singleton]
  exact ⟨snapshot, facts, otherSnapshot, otherFacts, built, normal, otherBuilt, otherNormal, late,
    member, other, otherMember, otherSame, same.key, same.fingerprint, edges⟩

end Invalidation.Shorthand
