import Invalidation.Proofs.Integration.Answer
import Invalidation.Proofs.Walk.Shape

/-! What an integration lists if the fresh facts of a unit differ from the stored ones in
fingerprints only: the definitions whose fingerprints do not agree, and what that change widens
to. The way back lists the same.
-/

namespace Invalidation

theorem Fingerprint.optionsAgree_comm (a b : Option Fingerprint)
    : optionsAgree a b = optionsAgree b a := by
  rcases a with _ | a <;> rcases b with _ | b <;> try rfl
  cases a <;> cases b <;> simp [optionsAgree, agrees, eq_comm]

/-- Facts that are the same without fingerprints have the same content if their fingerprints
agree.
-/
theorem Fact.sameContentAs_of_bare {fact old : Fact} (same : fact.bare = old.bare)
    : fact.sameContentAs old = Fingerprint.optionsAgree fact.fingerprint old.fingerprint := by
  obtain ⟨-, sameRole, sameEdges⟩ := Fact.bare_eq_bare_iff.1 same
  simp [Fact.sameContentAs, sameRole, sameEdges]

namespace Integration

/-- Whether two lists of facts hold fingerprints for a key that do not agree. -/
def disagree (facts others : List Fact) (key : Key)
    : Bool :=
  facts.any fun fact => others.any fun other =>
    fact.key = key
    && other.key = key
    && !Fingerprint.optionsAgree fact.fingerprint other.fingerprint

/-- The definitions whose fingerprints do not agree with those in the other list. -/
def disagreeing (facts others : List Fact)
    : List Fact :=
  facts.filter fun fact => fact.isDefinition && disagree facts others fact.key

/-- The definitions of a unit that a change from the other facts bears on: those whose
fingerprints do not agree, and those to which that widens.
-/
def flipped (granularity : Granularity) (unit : UnitName) (facts others : List Fact)
    : List Node :=
  let direct : List Node := (disagreeing facts others).map (⟨·, unit⟩)
  direct ++ (widened granularity unit (direct.map (⟨.changed, ·⟩)) facts).map (⟨·, unit⟩)

theorem disagree_comm (facts others : List Fact)
    : disagree facts others = disagree others facts := by
  funext key
  rw [disagree, disagree, Bool.eq_iff_iff]
  simp only [List.any_eq_true, Bool.and_eq_true]
  constructor
  · intro given
    obtain ⟨fact, member, other, otherMember, ⟨factKey, otherKey⟩, differ⟩ := given
    rw [Fingerprint.optionsAgree_comm] at differ
    exact ⟨other, otherMember, fact, member, ⟨otherKey, factKey⟩, differ⟩
  · intro given
    obtain ⟨other, otherMember, fact, member, ⟨otherKey, factKey⟩, differ⟩ := given
    rw [Fingerprint.optionsAgree_comm] at differ
    exact ⟨fact, member, other, otherMember, ⟨factKey, otherKey⟩, differ⟩

/-- Where keys are distinct, lists disagree on a key if the fingerprints of its two facts do not
agree.
-/
theorem disagree_eq {facts others : List Fact} (distinct : (facts.map (·.key)).Nodup)
    (othersDistinct : (others.map (·.key)).Nodup) {fact other : Fact} (member : fact ∈ facts)
    (otherMember : other ∈ others) (sameKey : fact.key = other.key)
    : disagree facts others fact.key
      = !Fingerprint.optionsAgree fact.fingerprint other.fingerprint := by
  rw [disagree, Bool.eq_iff_iff]
  simp only [List.any_eq_true, Bool.and_eq_true, decide_eq_true_eq]
  constructor
  · intro given
    obtain ⟨fact', member', other', otherMember', ⟨factKey, otherKey⟩, differ⟩ := given
    rw [List.inj_on_of_nodup_map distinct member' member factKey,
      List.inj_on_of_nodup_map othersDistinct otherMember' otherMember (otherKey.trans sameKey)]
      at differ
    exact differ
  · exact fun differ => ⟨fact, member, other, otherMember, ⟨rfl, sameKey.symm⟩, differ⟩

variable {facts others : List Fact}

theorem map_bare_disagreeing (same : facts.map Fact.bare = others.map Fact.bare)
    : (disagreeing facts others).map Fact.bare = (disagreeing others facts).map Fact.bare := by
  have mapped (some other : List Fact)
      : (disagreeing some other).map Fact.bare
        = (some.map Fact.bare).filter fun fact =>
            fact.isDefinition && disagree some other fact.key := by
    rw [List.filter_map]
    rfl
  rw [mapped, mapped, same, disagree_comm]

theorem map_bare_widened (granularity : Granularity) (unit : UnitName) {direct direct' : List Node}
    (sameDirect : direct.map Node.bare = direct'.map Node.bare)
    (same : facts.map Fact.bare = others.map Fact.bare)
    : (widened granularity unit (direct.map (⟨.changed, ·⟩)) facts).map Fact.bare
      = (widened granularity unit (direct'.map (⟨.changed, ·⟩)) others).map Fact.bare := by
  have sameEmpty : direct.isEmpty = direct'.isEmpty := by
    simpa using congrArg List.isEmpty sameDirect
  have sameAny
      : direct.any (fun node =>
            node.isDefinition && node.key.isInterface && !node.key.isWholeUnit)
        = direct'.any fun node =>
            node.isDefinition && node.key.isInterface && !node.key.isWholeUnit := by
    have mapped := congrArg (List.any · fun node =>
      node.isDefinition && node.key.isInterface && !node.key.isWholeUnit) sameDirect
    simp only [List.any_map] at mapped
    exact mapped
  have filtered (list : List Fact) (keep : Fact → Bool) (bare : ∀ fact, keep fact.bare = keep fact)
      : (list.filter keep).map Fact.bare = (list.map Fact.bare).filter keep := by
    rw [List.filter_map]
    congr 1
    exact List.filter_congr fun fact _ => (bare fact).symm
  simp only [widened, List.isEmpty_map, sameEmpty, List.any_map, Function.comp_def, sameAny]
  split
  · rfl
  · cases granularity with
    | coarse =>
        rw [filtered _ _ Fact.bare_isDefinition, filtered _ _ Fact.bare_isDefinition, same]
    | fineGrained =>
        dsimp only
        split
        · rw [filtered _ _ fun _ => rfl, filtered _ _ fun _ => rfl, same]
        · rfl

/-- Without fingerprints, a change bears on the same definitions either way. -/
theorem map_bare_flipped (granularity : Granularity) (unit : UnitName)
    (same : facts.map Fact.bare = others.map Fact.bare)
    : (flipped granularity unit facts others).map Node.bare
      = (flipped granularity unit others facts).map Node.bare := by
  have ownedBy (list : List Fact)
      : (list.map fun fact => (⟨fact, unit⟩ : Node)).map Node.bare
        = (list.map Fact.bare).map (⟨·, unit⟩) := by
    rw [List.map_map, List.map_map]
    rfl
  have sameDirect
      : ((disagreeing facts others).map fun fact => (⟨fact, unit⟩ : Node)).map Node.bare
        = ((disagreeing others facts).map fun fact => (⟨fact, unit⟩ : Node)).map Node.bare := by
    rw [ownedBy, ownedBy, map_bare_disagreeing same]
  simp only [flipped, List.map_append]
  apply congrArg₂ (· ++ ·) sameDirect
  rw [ownedBy, ownedBy, map_bare_widened granularity unit sameDirect same]

variable {store : Store} {externals : Externals} {granularity : Granularity}
  {snapshot : Snapshot} {incoming : List Fact} {result : Result}

/-- A change bears on definitions only: the catch-all fact to which it may widen is one. -/
theorem isDefinition_of_mem_flipped (normal : snapshot.normalForm = .ok incoming) {node : Node}
    (member : node ∈ flipped granularity snapshot.unit incoming others)
    : node.isDefinition = true := by
  rcases List.mem_append.1 member with direct | extra
  · obtain ⟨fact, disagrees, rfl⟩ := List.mem_map.1 direct
    exact (Bool.and_eq_true_iff.1 (List.mem_filter.1 disagrees).2).1
  · obtain ⟨fact, widens, rfl⟩ := List.mem_map.1 extra
    exact isDefinition_of_mem_widened normal widens

/-- A snapshot differs from what is stored for its unit in the fingerprints of definitions only. -/
structure Flip (store : Store) (snapshot : Snapshot) (incoming : List Fact) : Prop where
  normal : snapshot.normalForm = .ok incoming
  synced : store.Synced
  bareUses
    : ∀ fact ∈ store.factsOf snapshot.unit, fact.isDefinition = false → fact.fingerprint = none
  same : incoming.map Fact.bare = (store.factsOf snapshot.unit).map Fact.bare

namespace Flip

theorem of_bare_eq {other : Snapshot} (sameBare : snapshot.bare = other.bare)
    (normal : snapshot.normalForm = .ok incoming)
    (stored : other.normalForm = .ok (store.factsOf snapshot.unit))
    (synced : store.Synced)
    : Flip store snapshot incoming where
  normal := normal
  synced := synced
  bareUses := fun _ member => Snapshot.fingerprint_eq_none_of_use stored member
  same := Snapshot.map_bare_eq_of_normalForm sameBare normal stored

variable (flip : Flip store snapshot incoming)

include flip

/-- No stored fact is removed, since its key comes in. -/
theorem removedFacts_eq_nil : removedFacts store snapshot.unit incoming = [] := by
  apply List.eq_nil_iff_forall_not_mem.2
  intro old removed
  obtain ⟨owned, absent⟩ := mem_removedFacts.1 removed
  have counterpart : old.bare ∈ incoming.map Fact.bare :=
    flip.same ▸ List.mem_map.2 ⟨old, owned, rfl⟩
  obtain ⟨fact, member, sameBare⟩ := List.mem_map.1 counterpart
  exact absent fact member (Fact.bare_eq_bare_iff.1 sameBare).1

/-- An incoming fact is listed if it is a definition and fingerprints for its key do not agree. -/
theorem arrival?_eq {fact : Fact} (member : fact ∈ incoming)
    : arrival? store snapshot.unit fact
      = if fact.isDefinition && disagree incoming (store.factsOf snapshot.unit) fact.key then
          some ⟨.changed, ⟨fact, snapshot.unit⟩⟩
        else none := by
  have counterpart : fact.bare ∈ (store.factsOf snapshot.unit).map Fact.bare :=
    flip.same ▸ List.mem_map.2 ⟨fact, member, rfl⟩
  obtain ⟨old, owned, sameBare⟩ := List.mem_map.1 counterpart
  obtain ⟨sameKey, sameRole, -⟩ := Fact.bare_eq_bare_iff.1 sameBare
  have found : store.fact? (fact.refIn snapshot.unit) = some old :=
    flip.synced.fact?_eq_some_iff.2 ⟨owned, sameKey⟩
  rw [disagree_eq (Snapshot.keys_nodup_of_normalForm flip.normal)
    (flip.synced.keysDistinct snapshot.unit) member owned sameKey.symm]
  simp only [arrival?, compare?, found, Fact.sameContentAs_of_bare sameBare.symm]
  cases provided : fact.isDefinition with
  | true =>
      cases Fingerprint.optionsAgree fact.fingerprint old.fingerprint <;> simp
  | false =>
      have isUse : old.isDefinition = false := by
        rw [Fact.isDefinition, sameRole, ← Fact.isDefinition, provided]
      simp [Snapshot.fingerprint_eq_none_of_use flip.normal member provided,
        flip.bareUses old owned isUse, Fingerprint.optionsAgree]

/-- The incoming facts that are listed are the definitions whose fingerprints do not agree with the
stored ones.
-/
theorem arrivals_eq
    : incoming.filterMap (arrival? store snapshot.unit)
      = ((disagreeing incoming (store.factsOf snapshot.unit)).map
          fun fact => (⟨fact, snapshot.unit⟩ : Node)).map (⟨.changed, ·⟩) := by
  rw [List.map_map, disagreeing, ← List.filterMap_eq_map, List.filterMap_filter]
  exact List.filterMap_congr fun fact member => flip.arrival?_eq member

/-- What is listed is what the change bears on. A fact to which the change widens is not listed
twice.
-/
theorem mem_nodes_iff
    (ran : run store externals granularity snapshot.unit incoming = result) {node : Node}
    : node ∈ result.invalidated.nodes
      ↔ node ∈ flipped granularity snapshot.unit incoming (store.factsOf snapshot.unit) := by
  have distinct := Snapshot.keys_nodup_of_normalForm flip.normal
  have nodes := congrArg (List.map Entry.node) (run_entries ran flip.synced distinct)
  rw [Integration.direct, flip.removedFacts_eq_nil, flip.arrivals_eq, List.map_nil,
    List.append_nil, List.map_append, List.map_map] at nodes
  rw [Invalidated.nodes, nodes, flipped, List.mem_append, List.mem_append]
  generalize owned
    : ((disagreeing incoming (store.factsOf snapshot.unit)).map
        fun fact => (⟨fact, snapshot.unit⟩ : Node)) = direct
  have directNodes : direct.map (Entry.node ∘ fun node => ⟨.changed, node⟩) = direct :=
    List.map_id direct
  rw [directNodes, widening, List.map_map, List.mem_map, List.mem_map]
  constructor
  · intro given
    rcases given with listed | ⟨fact, widens, rfl⟩
    · exact .inl listed
    · exact .inr ⟨fact, List.mem_of_mem_filter widens, rfl⟩
  · intro given
    rcases given with listed | ⟨fact, widens, rfl⟩
    · exact .inl listed
    · by_cases known : ∃ node ∈ direct, node.key = fact.key
      · obtain ⟨node, listed, sameKey⟩ := known
        subst owned
        obtain ⟨other, disagrees, rfl⟩ := List.mem_map.1 listed
        rw [List.inj_on_of_nodup_map distinct (mem_of_mem_widened widens)
          (List.mem_of_mem_filter disagrees) sameKey.symm]
        exact .inl listed
      · exact .inr ⟨fact, List.mem_filter.2 ⟨widens, by simpa using known⟩, rfl⟩

variable (ran : run store externals granularity snapshot.unit incoming = result)

include ran

theorem not_listsUse (ref : NodeRef) : ¬result.invalidated.ListsUse ref := by
  intro given
  obtain ⟨node, listed, isUse, -⟩ := given
  rw [isDefinition_of_mem_flipped flip.normal ((flip.mem_nodes_iff ran).1 listed)] at isUse
  cases isUse

theorem mem_definitions_iff {node : Node}
    : node ∈ result.invalidated.definitions
      ↔ node ∈ flipped granularity snapshot.unit incoming (store.factsOf snapshot.unit) := by
  rw [Invalidated.definitions, Store.definitionsOf, List.mem_filter, flip.mem_nodes_iff ran]
  exact and_iff_left_of_imp (isDefinition_of_mem_flipped flip.normal)

theorem entries_eq_nil_iff
    : result.invalidated.entries = []
      ↔ flipped granularity snapshot.unit incoming (store.factsOf snapshot.unit) = [] := by
  rw [← List.map_eq_nil_iff (f := Entry.node), ← Invalidated.nodes, List.eq_nil_iff_forall_not_mem,
    List.eq_nil_iff_forall_not_mem]
  simp only [flip.mem_nodes_iff ran]

theorem sameShape : store.SameShape result.store := by
  intro unit
  rw [run_factsOf ran flip.synced (Snapshot.keys_nodup_of_normalForm flip.normal)]
  split
  · rename_i sameUnit
    rw [sameUnit, flip.same]
  · rfl

/-- A walk finds whatever is reached from the definitions that the change bears on. What is reached
may be said of any store of the same shape.
-/
theorem finds_iff {base : Store} (shape : base.SameShape store) (baseSynced : base.Synced)
    {starts : List Node}
    (sameStarts
      : starts.map Node.bare
        = (flipped granularity snapshot.unit incoming (store.factsOf snapshot.unit)).map Node.bare)
    {unit : UnitName}
    : result.store.Finds result.invalidated unit
      ↔ ∃ ref,
          ref.unit = unit ∧ base.Reached base.ReverseStep (fun _ => True) starts ref := by
  have shape := shape.trans (flip.sameShape ran)
  have sameDefinitions {node : Node}
      : node ∈ result.invalidated.definitions.map Node.bare ↔ node ∈ starts.map Node.bare := by
    simp only [sameStarts, List.mem_map, flip.mem_definitions_iff ran]
  constructor
  · intro given
    obtain ⟨ref, owner, reached⟩ := given
    have synced := run_synced ran flip.synced
    refine ⟨ref, owner, Store.Reached.sameShape ?_ shape.symm synced fun _ => sameDefinitions.1⟩
    exact reached.mono fun _ _ _ _ => trivial
  · intro given
    obtain ⟨ref, owner, reached⟩ := given
    refine ⟨ref, owner, Store.Reached.sameShape ?_ shape baseSynced fun _ => sameDefinitions.2⟩
    exact reached.mono fun _ next _ _ => flip.not_listsUse ran next

end Flip

end Integration

end Invalidation
