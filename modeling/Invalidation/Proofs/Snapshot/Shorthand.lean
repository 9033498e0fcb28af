import Invalidation.Proofs.Snapshot.Violation
import Invalidation.Snapshot.Shorthand

/-! Snapshots that are laid out from a shorthand keep the contract, whatever the entries are and in
whatever order they come, as long as none of them defines the unit's own catch-all fact: every
snapshot begins with that definition.
-/

namespace Invalidation.Snapshot

-----------------------------------------------------------------------------------------
-- The catch-all facts defined again
-----------------------------------------------------------------------------------------

/-- What the contract asks of a snapshot, save that the nodes after the two catch-all facts may
define these again.
-/
structure KeepsRest (snapshot : Snapshot) : Prop where
  begins
    : ∃ rest,
        snapshot.nodes = wholeUnitNodes snapshot.unit ++ rest
        ∧ rest.Pairwise fun earlier node => node.role = .definition → earlier.key ≠ node.key
  checked
    : ∀ (place : Nat) (node : Node),
        snapshot.nodes[place]? = some node → snapshot.checkNode place node = .ok ()
  bareUses : ∀ node ∈ snapshot.nodes, node.role ≠ .definition → node.fingerprint = none

@[simp]
theorem ownsWholeUnit_wholeUnit (snapshot : Snapshot) (aspect : Aspect)
    : snapshot.ownsWholeUnit (.wholeUnit aspect snapshot.unit) = true := by
  simp [ownsWholeUnit, Key.isWholeUnit, Key.wholeUnit, Designator.kind, Designator.name?]

theorem KeepsContract.not_definesCatchAll {snapshot : Snapshot} (keeps : snapshot.KeepsContract)
    {place : Nat} (late : 1 < place) (aspect : Aspect)
    : ¬snapshot.DefinesCatchAll place aspect := by
  intro defines
  obtain ⟨node, found, sameKey, provided⟩ := defines
  obtain ⟨before, after, split, rfl⟩ := exists_split_of_getElem? found
  exact keeps.not_ownsWholeUnit split provided ⟨late, by rw [sameKey, ownsWholeUnit_wholeUnit]⟩

namespace KeepsRest

variable {snapshot : Snapshot}

theorem definesCatchAll (keeps : snapshot.KeepsRest)
    : snapshot.DefinesCatchAll 0 .interface ∧ snapshot.DefinesCatchAll 1 .implementation := by
  obtain ⟨rest, begins, -⟩ := keeps.begins
  unfold DefinesCatchAll
  rw [begins]
  exact ⟨⟨_, rfl, rfl, rfl⟩, ⟨_, rfl, rfl, rfl⟩⟩

/-- A key that is defined after a node with the key is a catch-all key of the unit. -/
theorem owns_of_again (keeps : snapshot.KeepsRest) {before after : List Node} {node : Node}
    (split : snapshot.nodes = before ++ node :: after) (provided : node.role = .definition)
    {earlier : Node} (isBefore : earlier ∈ before) (sameKey : earlier.key = node.key)
    : 1 < before.length ∧ snapshot.ownsWholeUnit node.key = true := by
  obtain ⟨rest, begins, ordered⟩ := keeps.begins
  rw [begins, wholeUnitNodes] at split
  -- Nothing comes before the first catch-all fact, and only that one before the second.
  rcases before with _ | ⟨first, _ | ⟨second, others⟩⟩
  · cases isBefore
  · simp only [List.cons_append, List.nil_append, List.cons.injEq] at split
    obtain ⟨rfl, rfl, -⟩ := split
    rw [List.mem_singleton.1 isBefore] at sameKey
    cases sameKey
  · simp only [List.cons_append, List.nil_append, List.cons.injEq] at split
    obtain ⟨rfl, rfl, rfl⟩ := split
    refine ⟨by simp, ?_⟩
    rw [← sameKey]
    rcases List.mem_cons.1 isBefore with rfl | isBefore
    · exact ownsWholeUnit_wholeUnit snapshot .interface
    · rcases List.mem_cons.1 isBefore with rfl | isBefore
      · exact ownsWholeUnit_wholeUnit snapshot .implementation
      · have different := (List.pairwise_append.1 ordered).2.2 earlier isBefore node
          List.mem_cons_self provided
        exact absurd sameKey different

/-- The first node that is not acceptable defines a catch-all key of the unit again, one case for
each reason to refuse a node.
-/
theorem definesCatchAll_of_collapse (keeps : snapshot.KeepsRest) {before : List Node} {node : Node}
    {facts : List Fact} {violation : Violation} (reaches : snapshot.Reaches before node facts)
    (refused : snapshot.collapse facts before.length node = .error violation)
    : violation = .misplacedWholeUnit before.length
      ∧ 1 < before.length
      ∧ ∃ aspect, snapshot.DefinesCatchAll before.length aspect := by
  have found := reaches.getElem?_length
  have placed (provided : node.role = .definition) {fact : Fact} (member : fact ∈ facts)
      (sameKey : fact.key = node.key)
      : 1 < before.length ∧ snapshot.ownsWholeUnit node.key = true := by
    obtain ⟨after, split⟩ := reaches.split
    obtain ⟨earlier, isBefore, same⟩ := reaches.gathers.exists_iff.1 ⟨fact, member, rfl⟩
    exact keeps.owns_of_again split provided isBefore (same.trans sameKey)
  rcases collapse_eq_error refused with alone | ⟨-, refuses⟩
  · cases (keeps.checked _ node found).symm.trans alone
  · cases refuses with
    | misplaced provided late owns =>
        obtain ⟨aspect, sameKey⟩ := exists_eq_wholeUnit_of_owns owns
        exact ⟨rfl, late, aspect, node, found, sameKey, provided⟩
    | duplicate provided elsewhere member sameKey _ =>
        exact absurd (placed provided member sameKey) elsewhere
    | late provided elsewhere member sameKey _ =>
        exact absurd (placed provided member sameKey) elsewhere
    | fingerprinted isUse carried =>
        exact absurd (keeps.bareUses node (List.mem_of_getElem? found) isUse) carried

/-- A snapshot that keeps the rest of the contract keeps all of it or defines one of its catch-all
facts again; then it is refused for such a definition.
-/
theorem normalForm_decides (keeps : snapshot.KeepsRest)
    : match snapshot.normalForm with
      | .ok _ => ∀ place aspect, 1 < place → ¬snapshot.DefinesCatchAll place aspect
      | .error violation =>
          ∃ place,
            violation = .misplacedWholeUnit place
            ∧ 1 < place
            ∧ ∃ aspect, snapshot.DefinesCatchAll place aspect := by
  cases normal : snapshot.normalForm with
  | ok facts =>
      intro place aspect late
      exact (exists_normalForm_iff.1 ⟨facts, normal⟩).not_definesCatchAll late aspect
  | error violation =>
      have first := checkCatchAll_eq_ok_iff.2 keeps.definesCatchAll.1
      have second := checkCatchAll_eq_ok_iff.2 keeps.definesCatchAll.2
      rcases normalForm_eq_error normal with failed | ⟨-, failed | ⟨-, node⟩⟩
      · cases first.symm.trans failed
      · cases second.symm.trans failed
      · obtain ⟨before, node, facts, reaches, failed⟩ := node
        exact ⟨before.length, keeps.definesCatchAll_of_collapse reaches failed⟩

end KeepsRest

end Invalidation.Snapshot

namespace Invalidation.Shorthand

open Snapshot

-----------------------------------------------------------------------------------------
-- What entries name
-----------------------------------------------------------------------------------------

/-- An entry of one of the groups asks for a definition of a key. -/
def Defines (groups : List (Kind × List String)) (key : Key) : Prop :=
  ∃ group ∈ groups,
    ∃ text ∈ group.2,
      ∃ entry, readEntry group.1 text = .ok entry ∧ entry.defined.map (·.key) = some key

instance (groups : List (Kind × List String)) (key : Key) : Decidable (Defines groups key) :=
  decidable_of_iff
    (∃ group ∈ groups,
      ∃ text ∈ group.2,
        ∃ entry ∈ (readEntry group.1 text).toOption, entry.defined.map (·.key) = some key)
    (by simp only [Defines, Option.mem_def, toOption_eq_some_iff])

/-- All that an entry names is on the interface side. -/
structure Entry.Shown (entry : Entry) : Prop where
  used : ∀ key, entry.used = some key → key.aspect = .interface
  defined : ∀ key, entry.defined.map (·.key) = some key → key.aspect = .interface

theorem aspect_of_readFact {kind : Kind} {text : String} {definition : Definition}
    (read : readFact kind text = .ok definition)
    : definition.key.aspect = .interface := by
  unfold readFact at read
  split at read
  cases kind
  all_goals
    obtain ⟨designator, -, made⟩ := bind_eq_ok.1 read
    rw [← pure_eq_ok.1 made]
    rfl

theorem shown_of_readEntry {kind : Kind} {text : String} {entry : Entry}
    (read : readEntry kind text = .ok entry)
    : entry.Shown := by
  have shown {text : String} {definition : Definition}
      (readIt : readFact kind text = .ok definition)
      : ∀ key, some definition.key = some key → key.aspect = .interface := by
    intro key same
    rw [← Option.some.inj same]
    exact aspect_of_readFact readIt
  unfold readEntry at read
  split at read
  split at read
  · obtain ⟨definition, readIt, made⟩ := bind_eq_ok.1 read
    obtain rfl := pure_eq_ok.1 made
    exact ⟨nofun, shown readIt⟩
  · obtain ⟨used, readUsed, later⟩ := bind_eq_ok.1 read
    split at later
    · obtain rfl := pure_eq_ok.1 later
      exact ⟨shown readUsed, nofun⟩
    · obtain ⟨definition, readIt, made⟩ := bind_eq_ok.1 later
      obtain rfl := pure_eq_ok.1 made
      exact ⟨shown readUsed, shown readIt⟩

theorem exists_defined_iff {groups : List (Kind × List String)} {entries : List Entry}
    (read : readGroups groups = .ok entries) {key : Key}
    : (∃ entry ∈ entries, entry.defined.map (·.key) = some key) ↔ Defines groups key := by
  constructor
  · intro given
    obtain ⟨entry, member, defined⟩ := given
    obtain ⟨pair, listed, readIt⟩ := exists_of_mem_mapM read member
    obtain ⟨group, isGroup, inGroup⟩ := List.mem_flatMap.1 listed
    obtain ⟨text, isText, rfl⟩ := List.mem_map.1 inGroup
    exact ⟨group, isGroup, text, isText, entry, readIt, defined⟩
  · intro given
    obtain ⟨group, isGroup, text, isText, entry, readIt, defined⟩ := given
    have listed : (group.1, text) ∈ groups.flatMap fun group => group.2.map (group.1, ·) :=
      List.mem_flatMap.2 ⟨group, isGroup, List.mem_map.2 ⟨text, isText, rfl⟩⟩
    obtain ⟨result, member, found⟩ := exists_mem_of_mapM read listed
    obtain rfl := Except.ok.inj (readIt.symm.trans found)
    exact ⟨entry, member, defined⟩

-----------------------------------------------------------------------------------------
-- Definitions and uses
-----------------------------------------------------------------------------------------

/-- The first definition of each key is kept, in order; by induction on the definitions. -/
theorem keys_foldl_keepFirst (found news : List Definition)
    : (news.foldl definitions.keepFirst found).map (·.key)
      = (news.map (·.key)).foldl addLast (found.map (·.key)) := by
  induction news generalizing found with
  | nil => rfl
  | cons definition rest ih =>
      rw [List.foldl_cons, ih, List.map_cons, List.foldl_cons]
      congr 1
      simp only [definitions.keepFirst, addLast, List.any_eq_true, decide_eq_true_eq,
        List.mem_map]
      split <;> simp

theorem keys_definitions (entries : List Entry)
    : (definitions entries).map (·.key)
      = ((entries.filterMap (·.defined)).map (·.key)).eraseDups := by
  rw [definitions, keys_foldl_keepFirst, List.map_nil, foldl_addLast_nil]

theorem mem_keys_definitions_iff {entries : List Entry} {key : Key}
    : key ∈ (definitions entries).map (·.key)
      ↔ ∃ entry ∈ entries, entry.defined.map (·.key) = some key := by
  rw [keys_definitions, List.mem_eraseDups, List.map_filterMap, List.mem_filterMap]

/-- A use that is laid out is one that an entry asks for. -/
theorem exists_used_of_mem_uses {entries : List Entry} {use : Key × Bool}
    (member : use ∈ uses entries)
    : ∃ entry ∈ entries, entry.used = some use.1 := by
  obtain ⟨entry, isEntry, asks⟩ := List.mem_filterMap.1 (List.mem_eraseDups.1 member)
  split at asks
  · cases asks
  · obtain ⟨key, used, rfl⟩ := Option.map_eq_some_iff.1 asks
    exact ⟨entry, isEntry, used⟩

theorem aspect_of_mem_definitions {entries : List Entry} (shown : ∀ entry ∈ entries, entry.Shown)
    {definition : Definition} (member : definition ∈ definitions entries)
    : definition.key.aspect = .interface := by
  obtain ⟨entry, isEntry, defined⟩ :=
    mem_keys_definitions_iff.1 (List.mem_map.2 ⟨definition, member, rfl⟩)
  exact (shown entry isEntry).defined definition.key defined

-----------------------------------------------------------------------------------------
-- The layout
-----------------------------------------------------------------------------------------

/-- The node of a definition, by its index among the definitions. -/
def definitionNode (entries : List Entry) (index : Nat) (definition : Definition)
    : Node :=
  ⟨definition.key, definition.fingerprint, 2 + index, targets entries definition.key, .definition⟩

/-- The node of a use, by its index among the uses. -/
def useNode (entries : List Entry) (index : Nat) (use : Key × Bool)
    : Node :=
  ⟨use.1, none, 2 + (definitions entries).length + index, [], .use use.2⟩

/-- The nodes after the catch-all facts: all definitions, then all uses. -/
def laterNodes (entries : List Entry)
    : List Node :=
  (definitions entries).mapIdx (definitionNode entries)
  ++ (uses entries).mapIdx (useNode entries)

theorem nodes_layOut (unit : UnitName) (entries : List Entry)
    : (layOut unit entries).nodes = wholeUnitNodes unit ++ laterNodes entries :=
  List.append_assoc _ _ _

theorem length_layOut (unit : UnitName) (entries : List Entry)
    : (layOut unit entries).nodes.length
      = 2 + (definitions entries).length + (uses entries).length := by
  rw [nodes_layOut, List.length_append, laterNodes, List.length_append, List.length_mapIdx,
    List.length_mapIdx, ← Nat.add_assoc]
  rfl

theorem getElem?_layOut (unit : UnitName) (entries : List Entry) (index : Nat)
    : (layOut unit entries).nodes[index + 2]? = (laterNodes entries)[index]? := by
  rw [nodes_layOut]
  rfl

theorem getElem?_laterNodes {entries : List Entry} {index : Nat} {definition : Definition}
    (atIndex : (definitions entries)[index]? = some definition)
    : (laterNodes entries)[index]? = some (definitionNode entries index definition) := by
  obtain ⟨inside, -⟩ := List.getElem?_eq_some_iff.1 atIndex
  rw [laterNodes, List.getElem?_append_left (by rwa [List.length_mapIdx]), List.getElem?_mapIdx,
    atIndex, Option.map_some]

theorem laterNodes_cases {entries : List Entry} {index : Nat} {node : Node}
    (found : (laterNodes entries)[index]? = some node)
    : (∃ definition ∈ definitions entries, node = definitionNode entries index definition)
      ∨ ∃ use ∈ uses entries, node = ⟨use.1, none, 2 + index, [], .use use.2⟩ := by
  rcases Nat.lt_or_ge index (definitions entries).length with inside | beyond
  · have atIndex := List.getElem?_eq_getElem inside
    rw [getElem?_laterNodes atIndex] at found
    exact .inl ⟨_, List.getElem_mem inside, (Option.some.inj found).symm⟩
  · rw [laterNodes, List.getElem?_append_right (by rwa [List.length_mapIdx]),
      List.length_mapIdx, List.getElem?_mapIdx] at found
    obtain ⟨use, atIndex, rfl⟩ := Option.map_eq_some_iff.1 found
    refine .inr ⟨use, List.mem_of_getElem? atIndex, ?_⟩
    rw [useNode, Nat.add_assoc, Nat.add_sub_cancel' beyond]

/-- What stands at a place of a laid-out snapshot, with the place as its number: a catch-all fact at
the beginning, then a definition, then a use.
-/
theorem layOut_cases {unit : UnitName} {entries : List Entry} {place : Nat} {node : Node}
    (found : (layOut unit entries).nodes[place]? = some node)
    : (place ≤ 1 ∧ ∃ aspect, node = ⟨.wholeUnit aspect unit, none, place, [], .definition⟩)
      ∨ (∃ definition ∈ definitions entries,
          node
          = ⟨definition.key, definition.fingerprint, place, targets entries definition.key,
              .definition⟩)
      ∨ ∃ use ∈ uses entries, node = ⟨use.1, none, place, [], .use use.2⟩ := by
  rcases place with _ | _ | index
  · exact .inl ⟨Nat.zero_le 1, .interface, (Option.some.inj found).symm⟩
  · exact .inl ⟨Nat.le_refl 1, .implementation, (Option.some.inj found).symm⟩
  · rw [getElem?_layOut] at found
    rw [Nat.add_assoc, Nat.add_comm index]
    exact .inr (laterNodes_cases found)

theorem target?_lt {unit : UnitName} {entries : List Entry} {entry : Entry} {target : Nat}
    (member : entry ∈ entries) (found : target? entries entry = some target)
    : target < (layOut unit entries).nodes.length := by
  rw [length_layOut]
  obtain ⟨key, used, rfl⟩ := Option.map_eq_some_iff.1 found
  by_cases isEdge : entry.isEdge (definitions entries)
  · rw [if_pos isEdge]
    simp only [Entry.isEdge, used, Option.any_some, Bool.and_eq_true, List.any_eq_true] at isEdge
    have inside := List.findIdx_lt_length_of_exists isEdge.2
    omega
  · rw [if_neg isEdge]
    have isUse : (key, entry.cascades) ∈ uses entries := by
      refine List.mem_eraseDups.2 (List.mem_filterMap.2 ⟨entry, member, ?_⟩)
      rw [if_neg isEdge, used, Option.map_some]
    have inside := List.idxOf_lt_length_of_mem isUse
    omega

theorem lt_of_mem_targets {unit : UnitName} {entries : List Entry} {key : Key} {target : Nat}
    (member : target ∈ targets entries key)
    : target < (layOut unit entries).nodes.length := by
  obtain ⟨entry, isEntry, found⟩ := List.mem_filterMap.1 (List.mem_eraseDups.1 member)
  exact target?_lt (List.mem_of_mem_filter isEntry) found

/-- No two of the nodes after the catch-all facts define one key, and the uses come last. -/
theorem laterNodes_definedFirst (entries : List Entry)
    : (laterNodes entries).Pairwise fun earlier node =>
        node.role = .definition → earlier.key ≠ node.key := by
  have isUse (node : Node) (member : node ∈ (uses entries).mapIdx (useNode entries))
      : node.role ≠ .definition := by
    obtain ⟨index, inside, rfl⟩ := List.mem_mapIdx.1 member
    exact nofun
  refine List.pairwise_append.2 ⟨?_, ?_, fun earlier _ node member provided => ?_⟩
  · have keys
        : ((definitions entries).mapIdx (definitionNode entries)).map (·.key)
          = (definitions entries).map (·.key) := by
      apply List.ext_getElem?
      simp [definitionNode, Function.comp_def]
    have distinct : ((definitions entries).map (·.key)).Nodup := by
      rw [keys_definitions]
      exact nodup_eraseDups _
    rw [← keys, List.Nodup, List.pairwise_map] at distinct
    apply distinct.imp
    intro _ _ different _
    exact different
  · exact List.pairwise_of_forall_mem_list fun _ _ node member provided =>
      absurd provided (isUse node member)
  · exact absurd provided (isUse node member)

/-- What entries are laid out as keeps the contract, save that it may define the unit's own
catch-all fact again.
-/
theorem keepsRest_layOut {unit : UnitName} {entries : List Entry}
    (shown : ∀ entry ∈ entries, entry.Shown)
    : (layOut unit entries).KeepsRest where
  begins := ⟨_, nodes_layOut unit entries, laterNodes_definedFirst entries⟩
  checked := by
    intro place node found
    apply checkNode_eq_ok_iff.2
    rcases layOut_cases found with
      ⟨-, aspect, rfl⟩ | ⟨definition, member, rfl⟩ | ⟨use, member, rfl⟩
    · exact ⟨rfl, List.forall_mem_nil _, fun path => by simp [Key.wholeUnit]⟩
    · refine ⟨rfl, fun target depends => lt_of_mem_targets depends, fun path hidden => ?_⟩
      have isShown := aspect_of_mem_definitions shown member
      cases isShown.symm.trans (congrArg Key.aspect hidden)
    · obtain ⟨entry, isEntry, used⟩ := exists_used_of_mem_uses member
      refine ⟨rfl, List.forall_mem_nil _, fun path hidden => ?_⟩
      have isShown := (shown entry isEntry).used use.1 used
      cases isShown.symm.trans (congrArg Key.aspect hidden)
  bareUses := by
    intro node member isUse
    obtain ⟨place, found⟩ := List.getElem?_of_mem member
    rcases layOut_cases found with ⟨-, aspect, rfl⟩ | ⟨definition, -, rfl⟩ | ⟨use, -, rfl⟩
    · rfl
    · exact absurd rfl isUse
    · rfl

/-- Behind the catch-all facts a laid-out snapshot defines what its entries define. -/
theorem exists_definesAt_layOut_iff {unit : UnitName} {entries : List Entry} {key : Key}
    : (∃ place, 1 < place ∧ (layOut unit entries).DefinesAt place key)
      ↔ ∃ entry ∈ entries, entry.defined.map (·.key) = some key := by
  rw [← mem_keys_definitions_iff, List.mem_map]
  constructor
  · intro given
    obtain ⟨place, late, node, found, rfl, provided⟩ := given
    rcases layOut_cases found with ⟨early, -⟩ | ⟨definition, member, rfl⟩ | ⟨use, -, rfl⟩
    · omega
    · exact ⟨definition, member, rfl⟩
    · cases provided
  · intro given
    obtain ⟨definition, member, rfl⟩ := given
    obtain ⟨index, atIndex⟩ := List.getElem?_of_mem member
    refine ⟨index + 2, by omega, definitionNode entries index definition, ?_, rfl, rfl⟩
    rw [getElem?_layOut, getElem?_laterNodes atIndex]

-----------------------------------------------------------------------------------------
-- Built snapshots
-----------------------------------------------------------------------------------------

/-- A snapshot that is built from a shorthand is accepted, unless an entry defines the unit's own
catch-all fact. Then it is refused for that definition, which comes after the one that every
snapshot begins with.
-/
theorem built_accepted_unless_unit_redefined {unit : UnitName}
    {groups : List (Kind × List String)} {snapshot : Snapshot}
    (built : build unit groups = .ok snapshot)
    : (¬Defines groups (.wholeUnit .interface unit) → ∃ facts, snapshot.normalForm = .ok facts)
      ∧ (Defines groups (.wholeUnit .interface unit)
        → ∃ place,
            1 < place
            ∧ snapshot.DefinesAt place (.wholeUnit .interface unit)
            ∧ snapshot.normalForm = .error (.misplacedWholeUnit place)) := by
  obtain ⟨entries, read, rfl⟩ := map_eq_ok.1 built
  have shown : ∀ entry ∈ entries, entry.Shown := by
    intro entry member
    obtain ⟨pair, -, readIt⟩ := exists_of_mem_mapM read member
    exact shown_of_readEntry readIt
  have keeps : (layOut unit entries).KeepsRest := keepsRest_layOut shown
  have decides := keeps.normalForm_decides
  rw [← exists_defined_iff read, ← exists_definesAt_layOut_iff]
  cases normal : (layOut unit entries).normalForm with
  | ok facts =>
      simp only [normal] at decides
      refine ⟨fun _ => ⟨facts, rfl⟩, fun defines => ?_⟩
      obtain ⟨place, late, definesAt⟩ := defines
      exact absurd definesAt (decides place .interface late)
  | error violation =>
      simp only [normal] at decides
      obtain ⟨place, rfl, late, aspect, definesAt⟩ := decides
      obtain rfl : aspect = .interface := by
        obtain ⟨entry, member, defined⟩ := exists_definesAt_layOut_iff.1 ⟨place, late, definesAt⟩
        exact (shown entry member).defined _ defined
      exact ⟨fun undefined => absurd ⟨place, late, definesAt⟩ undefined,
        fun _ => ⟨place, late, definesAt, rfl⟩⟩

/-- Groups of which the entries use keys before others define them, use and define the same keys
again, and use the unit as a whole.
-/
def shuffledGroups : List (Kind × List String) :=
  [(.topLevel, ["late->early", "#late->", "late->late", "late@f1"]),
    (.sourceFileProvide, ["u0->", "u1"]),
    (.member, ["type,late->"])]

/-- The snapshot of these groups is accepted, although the entries stand in no order. -/
theorem shuffled_groups_accepted
    : ∃ snapshot,
        build "u0" shuffledGroups = .ok snapshot ∧ ∃ facts, snapshot.normalForm = .ok facts := by
  have readable : (build "u0" shuffledGroups).isOk = true := by decide +kernel
  have undefined : ¬Defines shuffledGroups (.wholeUnit .interface "u0") := by decide +kernel
  cases built : build "u0" shuffledGroups with
  | error violation =>
      rw [built] at readable
      cases readable
  | ok snapshot =>
      exact ⟨snapshot, rfl, (built_accepted_unless_unit_redefined built).1 undefined⟩

/-- An entry that defines the unit as a whole is laid out after the definition that is there
already, and the snapshot is refused.
-/
theorem unit_redefined_refused
    : ¬∀ (unit : UnitName) (groups : List (Kind × List String)) (snapshot : Snapshot),
        build unit groups = .ok snapshot → ∃ facts, snapshot.normalForm = .ok facts := by
  intro always
  have built
      : build "u0" [(.sourceFileProvide, ["u0"])]
        = .ok ((start "u0").define (.wholeUnit .interface "u0") none) := by
    decide +kernel
  obtain ⟨facts, accepted⟩ := always _ _ _ built
  have refused
      : ((start "u0").define (.wholeUnit .interface "u0") none).normalForm
        = .error (.misplacedWholeUnit 2) := by
    decide +kernel
  cases refused.symm.trans accepted

end Invalidation.Shorthand
