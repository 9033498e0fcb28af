import Invalidation.Proofs.Externals
import Invalidation.Proofs.Snapshot.NormalForm
import Invalidation.Proofs.Walk.Report
import Invalidation.Proofs.Walk.ReverseStep

/-! An integration replaces the facts of one unit. Afterwards the unit owns the incoming facts,
other units own what they did, and what the integration lists are facts of the unit: the current
ones, or removed ones as they were stored.
-/

namespace Invalidation.Integration

variable {store : Store} {externals : Externals} {granularity : Granularity} {unit : UnitName}
  {incoming : List Fact} {result : Result}

/-- The store in which a unit's facts are replaced and marks are as they were. -/
def replaced (store : Store) (unit : UnitName) (incoming : List Fact)
    : Store :=
  (store.putAll unit incoming).dropAll unit (removedFacts store unit incoming)

section

variable {left right : Store} {leftExternals rightExternals : Externals}

theorem arrival?_congr (stored : ∀ node, node.unit = unit → left.fact? node = right.fact? node)
    : arrival? left unit = arrival? right unit := by
  funext fact
  rw [arrival?, arrival?, stored (fact.refIn unit) rfl]

theorem removedFacts_congr (stored : left.factsOf unit = right.factsOf unit)
    (incoming : List Fact)
    : removedFacts left unit incoming = removedFacts right unit incoming := by
  rw [removedFacts, removedFacts, stored]

/-- What an integration invalidates is given by the nodes before and after it and by the artifacts
in use.
-/
theorem run_invalidated_congr (nodes : left.SameNodes right)
    (stored : (replaced left unit incoming).SameNodes (replaced right unit incoming))
    (sameUse : ∀ path, leftExternals.contains path = rightExternals.contains path)
    : (run left leftExternals granularity unit incoming).invalidated
      = (run right rightExternals granularity unit incoming).invalidated := by
  have arrivals := arrival?_congr fun node (_ : node.unit = unit) => nodes.fact? node
  have removed := removedFacts_congr (nodes.factsOf unit) incoming
  have current := stored.factsOf unit
  simp only [replaced, removed] at current
  simp only [run, arrivals, removed, current, funext sameUse]

end

/-- An integration takes marks away from the store with the replaced facts. -/
theorem run_store (ran : run store externals granularity unit incoming = result)
    : result.store
      = ((replaced store unit incoming).unmarkUnit unit).unmarkBeyond
          (Store.definitionsOf result.invalidated.nodes) := by
  subst ran
  rfl

/-- Taking marks away leaves the replaced facts and the indices as they are. -/
theorem run_alike_replaced (ran : run store externals granularity unit incoming = result)
    : result.store.Alike (replaced store unit incoming) := by
  subst ran
  exact Store.alike_withMarks (replaced store unit incoming) _

theorem mem_removedFacts {old : Fact}
    : old ∈ removedFacts store unit incoming
      ↔ old ∈ store.factsOf unit ∧ ∀ fact ∈ incoming, fact.key ≠ old.key := by
  simp [removedFacts]

theorem synced_replaced (synced : store.Synced) : (replaced store unit incoming).Synced :=
  (synced.putAll unit incoming).dropAll unit _

theorem run_synced (ran : run store externals granularity unit incoming = result)
    (synced : store.Synced)
    : result.store.Synced := by
  subst ran
  exact (synced_replaced synced).withMarks _

/-- Replacing leaves the unit with exactly the incoming facts, in their order: old facts with other
keys are removed, and no incoming fact shares a key with those.
-/
theorem factsOf_replaced (synced : store.Synced) (distinct : (incoming.map (·.key)).Nodup)
    (other : UnitName)
    : (replaced store unit incoming).factsOf other
      = if other = unit then incoming else store.factsOf other := by
  rw [replaced, (synced.putAll unit incoming).factsOf_dropAll, synced.factsOf_putAll distinct]
  split
  · rename_i same
    have gone
        : ((store.factsOf other).filter fun old => !incoming.any (·.key = old.key)).filter
            (fun old => !(removedFacts store unit incoming).any (·.key = old.key)) = [] := by
      apply List.filter_eq_nil_iff.2
      intro old member
      obtain ⟨owned, absent⟩ := List.mem_filter.1 member
      have removed : old ∈ removedFacts store unit incoming :=
        mem_removedFacts.2 ⟨same ▸ owned, by simpa using absent⟩
      simpa using ⟨old, removed, rfl⟩
    have kept
        : incoming.filter
            (fun fact => !(removedFacts store unit incoming).any (·.key = fact.key))
          = incoming := by
      apply List.filter_eq_self.2
      intro fact member
      simpa using fun old removed => Ne.symm ((mem_removedFacts.1 removed).2 fact member)
    rw [List.filter_append, gone, kept, List.nil_append]
  · rfl

/-- After an integration the unit owns the incoming facts and other units own what they did. -/
theorem run_factsOf (ran : run store externals granularity unit incoming = result)
    (synced : store.Synced) (distinct : (incoming.map (·.key)).Nodup) (other : UnitName)
    : result.store.factsOf other = if other = unit then incoming else store.factsOf other := by
  subst ran
  exact factsOf_replaced synced distinct other

theorem run_factsOf_self (ran : run store externals granularity unit incoming = result)
    (synced : store.Synced) (distinct : (incoming.map (·.key)).Nodup)
    : result.store.factsOf unit = incoming :=
  (run_factsOf ran synced distinct unit).trans (if_pos rfl)

/-- After an integration the nodes of the unit are those of the incoming facts, and the nodes of
other units are those that were stored.
-/
theorem run_contains (ran : run store externals granularity unit incoming = result)
    (synced : store.Synced) (distinct : (incoming.map (·.key)).Nodup) {node : NodeRef}
    : result.store.contains node
      ↔ if node.unit = unit then ∃ fact ∈ incoming, fact.key = node.key
        else store.contains node := by
  rw [(run_synced ran synced).contains_iff, run_factsOf ran synced distinct]
  split
  · rfl
  · exact synced.contains_iff.symm

/-- An integration makes its unit known, last, unless it is known already. -/
theorem run_unitNames (ran : run store externals granularity unit incoming = result)
    (nonempty : incoming ≠ [])
    : result.store.unitNames = addLast store.unitNames unit := by
  subst ran
  exact (Store.unitNames_dropAll _ _ unit).trans (Store.unitNames_putAll nonempty store unit)

theorem mem_run_unitNames (ran : run store externals granularity unit incoming = result)
    {other : UnitName} (known : other ∈ result.store.unitNames)
    : other ∈ store.unitNames ∨ other = unit := by
  by_cases empty : incoming = []
  · subst ran empty
    exact .inl (Store.unitNames_dropAll _ _ unit ▸ known)
  · rw [run_unitNames ran empty] at known
    exact mem_addLast.1 known

/-- An integration that removes no fact leaves every artifact that was in use in use. -/
theorem run_externals_of_removedFacts_eq_nil
    (ran : run store externals granularity unit incoming = result)
    (kept : removedFacts store unit incoming = []) {path : String}
    (inUse : externals.contains path)
    : result.externals.contains path := by
  subst ran
  simp only [run, kept, List.foldl_nil, Externals.contains_foldl_register, inUse, Bool.or_true]

/-- An artifact is in use after an integration if it was before or an incoming fact uses it, unless
the unit had a fact about it that does not come in, while no unit uses the fact's key any more.
-/
theorem contains_run_externals (ran : run store externals granularity unit incoming = result)
    {path : String}
    : result.externals.contains path
      ↔ (externals.contains path ∨ ∃ fact ∈ incoming, usedPath? fact = some path)
        ∧ ∀ old ∈ removedFacts store unit incoming,
            old.key.externalPath? = some path → result.store.users.values old.key ≠ [] := by
  subst ran
  simp only [run, Externals.contains_foldl_forgetUnused, Externals.contains_foldl_register]
  refine and_congr ?_ Iff.rfl
  rw [Bool.or_eq_true, List.contains_iff_mem, List.mem_filter, List.mem_filterMap]
  by_cases known : externals.contains path
  · simp [known]
  · simp [known]

theorem run_compact (ran : run store externals granularity unit incoming = result)
    (compact : store.Compact)
    : result.store.Compact := by
  subst ran
  obtain ⟨users, dependents⟩ := (compact.putAll unit incoming).dropAll unit
    (removedFacts store unit incoming)
  exact ⟨users, dependents⟩

theorem run_indexed (ran : run store externals granularity unit incoming = result)
    (indexed : store.Indexed)
    : result.store.Indexed := by
  subst ran
  exact ((indexed.putAll unit incoming).dropAll unit _).withMarks _

theorem run_marksStored (ran : run store externals granularity unit incoming = result)
    (stored : store.MarksStored)
    : result.store.MarksStored := by
  subst ran
  exact (((stored.putAll unit incoming).dropAll unit _).unmark _).unmark _

/-- An integration marks nothing. -/
theorem mem_marked_of_run (ran : run store externals granularity unit incoming = result)
    {ref : NodeRef} (marked : ref ∈ result.store.marked)
    : ref ∈ store.marked := by
  rw [run_store ran] at marked
  have kept := (Store.mem_marked_unmark.1 (Store.mem_marked_unmark.1 marked).1).1
  exact Store.mem_marked_of_putAll (Store.mem_marked_of_dropAll kept)

/-- The entries of incoming facts say how each compares with the fact that was stored. -/
theorem mem_arrivals_iff {entry : Entry}
    : entry ∈ incoming.filterMap (arrival? store unit)
      ↔ ∃ fact ∈ incoming,
          ∃ change,
            compare? (store.fact? (fact.refIn unit)) fact = some change
            ∧ ⟨change, ⟨fact, unit⟩⟩ = entry := by
  simp only [List.mem_filterMap, arrival?, Option.map_eq_some_iff]

/-- The entries that an integration lists before it widens: incoming facts that are new or changed,
and removed facts.
-/
def direct (store : Store) (unit : UnitName) (incoming : List Fact)
    : List Entry :=
  incoming.filterMap (arrival? store unit)
  ++ (removedFacts store unit incoming).map fun fact => ⟨.removed, ⟨fact, unit⟩⟩

theorem direct_congr {left right : Store} (leftSynced : left.Synced) (rightSynced : right.Synced)
    (stored : left.factsOf unit = right.factsOf unit) (incoming : List Fact)
    : direct left unit incoming = direct right unit incoming := by
  rw [direct, direct, arrival?_congr (leftSynced.fact?_congr rightSynced stored),
    removedFacts_congr stored]

theorem mem_entries_of_direct (ran : run store externals granularity unit incoming = result)
    {entry : Entry} (isDirect : entry ∈ direct store unit incoming)
    : entry ∈ result.invalidated.entries := by
  subst ran
  exact List.mem_append_left _ isDirect

theorem mem_entries_of_arrival (ran : run store externals granularity unit incoming = result)
    {fact : Fact} {change : Change} (member : fact ∈ incoming)
    (compared : compare? (store.fact? (fact.refIn unit)) fact = some change)
    : ⟨change, ⟨fact, unit⟩⟩ ∈ result.invalidated.entries := by
  apply mem_entries_of_direct ran
  exact List.mem_append_left _ (mem_arrivals_iff.2 ⟨fact, member, change, compared, rfl⟩)

theorem mem_entries_of_removed (ran : run store externals granularity unit incoming = result)
    {old : Fact} (owned : old ∈ store.factsOf unit)
    (absent : ∀ fact ∈ incoming, fact.key ≠ old.key)
    : ⟨.removed, ⟨old, unit⟩⟩ ∈ result.invalidated.entries := by
  apply mem_entries_of_direct ran
  exact List.mem_append_right _
    (List.mem_map.2 ⟨old, mem_removedFacts.2 ⟨owned, absent⟩, rfl⟩)

/-- A change widens to facts that the unit owns now, in their order. -/
theorem widened_sublist {entries : List Entry} {current : List Fact}
    : (widened granularity unit entries current).Sublist current := by
  unfold widened
  split
  · exact List.nil_sublist current
  · cases granularity with
    | coarse => exact List.filter_sublist
    | fineGrained =>
        dsimp only
        split
        · exact List.filter_sublist
        · exact List.nil_sublist current

theorem mem_of_mem_widened {entries : List Entry} {current : List Fact} {fact : Fact}
    (member : fact ∈ widened granularity unit entries current)
    : fact ∈ current :=
  widened_sublist.subset member

/-- Listed by widening are the facts to which the entries widen, as changed, unless their keys are
listed already.
-/
theorem mem_widening_iff {entries : List Entry} {current : List Fact} {entry : Entry}
    : entry ∈ widening granularity unit entries current
      ↔ ∃ fact ∈ widened granularity unit entries current,
          (∀ listed ∈ entries, listed.node.key ≠ fact.key)
          ∧ ⟨.changed, ⟨fact, unit⟩⟩ = entry := by
  simp only [widening, List.mem_map, List.mem_filter, Bool.not_eq_true', List.any_eq_false,
    decide_eq_true_eq, and_assoc]

/-- A change widens to definitions only: the catch-all facts of a normal form are definitions. -/
theorem isDefinition_of_mem_widened {snapshot : Snapshot}
    (normal : snapshot.normalForm = .ok incoming) {entries : List Entry} {fact : Fact}
    (widens : fact ∈ widened granularity snapshot.unit entries incoming)
    : fact.isDefinition = true := by
  have comes := mem_of_mem_widened widens
  unfold widened at widens
  split at widens
  · cases widens
  · cases granularity with
    | coarse => exact (List.mem_filter.1 widens).2
    | fineGrained =>
        dsimp only at widens
        split at widens
        · have isCatchAll := of_decide_eq_true (List.mem_filter.1 widens).2
          obtain ⟨catchAll, member, sameKey, provided⟩ :=
            Snapshot.provides_wholeUnit_of_normalForm normal .interface
          rw [List.inj_on_of_nodup_map (Snapshot.keys_nodup_of_normalForm normal) comes member
            (isCatchAll.trans sameKey.symm)]
          exact provided
        · cases widens

/-- What is listed: the direct entries, and what those widen to among the incoming facts. -/
theorem run_entries (ran : run store externals granularity unit incoming = result)
    (synced : store.Synced) (distinct : (incoming.map (·.key)).Nodup)
    : result.invalidated.entries
      = direct store unit incoming
        ++ widening granularity unit (direct store unit incoming) incoming := by
  have current : (replaced store unit incoming).factsOf unit = incoming := by
    rw [factsOf_replaced synced distinct, if_pos rfl]
  subst ran
  exact congrArg (fun facts => direct store unit incoming
    ++ widening granularity unit (direct store unit incoming) facts) current

/-- A listed node is of the unit, and it is an incoming fact, one that was stored and whose key does
not come in, or one that the unit owns afterwards.
-/
theorem listed_cases_of_any (ran : run store externals granularity unit incoming = result)
    {node : Node} (listed : node ∈ result.invalidated.nodes)
    : node.unit = unit
      ∧ (node.toFact ∈ incoming
          ∨ (node.toFact ∈ store.factsOf unit ∧ ∀ fact ∈ incoming, fact.key ≠ node.key)
          ∨ node.toFact ∈ result.store.factsOf unit) := by
  subst ran
  obtain ⟨entry, member, rfl⟩ := List.mem_map.1 listed
  rcases List.mem_append.1 member with isDirect | extra
  · rcases List.mem_append.1 isDirect with arrived | gone
    · obtain ⟨fact, isIncoming, change, -, rfl⟩ := mem_arrivals_iff.1 arrived
      exact ⟨rfl, .inl isIncoming⟩
    · obtain ⟨old, removed, rfl⟩ := List.mem_map.1 gone
      exact ⟨rfl, .inr (.inl (mem_removedFacts.1 removed))⟩
  · obtain ⟨fact, widens, -, rfl⟩ := mem_widening_iff.1 extra
    exact ⟨rfl, .inr (.inr (mem_of_mem_widened widens))⟩

/-- A listed node is a fact of the unit: an incoming one, or one that was stored and whose key does
not come in.
-/
theorem listed_cases (ran : run store externals granularity unit incoming = result)
    (synced : store.Synced) (distinct : (incoming.map (·.key)).Nodup) {node : Node}
    (listed : node ∈ result.invalidated.nodes)
    : node.unit = unit
      ∧ (node.toFact ∈ incoming
          ∨ (node.toFact ∈ store.factsOf unit
              ∧ ∀ fact ∈ incoming, fact.key ≠ node.key)) := by
  obtain ⟨sameUnit, isIncoming | gone | current⟩ := listed_cases_of_any ran listed
  · exact ⟨sameUnit, .inl isIncoming⟩
  · exact ⟨sameUnit, .inr gone⟩
  · exact ⟨sameUnit, .inl (run_factsOf_self ran synced distinct ▸ current)⟩

/-- A listed node that is stored afterwards is stored with the listed content. -/
theorem eq_of_node?_listed (ran : run store externals granularity unit incoming = result)
    (indexed : store.Indexed) (distinct : (incoming.map (·.key)).Nodup) {node found : Node}
    (listed : node ∈ result.invalidated.nodes)
    (stored : result.store.node? node.ref = some found)
    : found = node := by
  obtain ⟨sameUnit, origin⟩ := listed_cases ran indexed.toSynced distinct listed
  obtain ⟨foundFact, foundUnit⟩ := Store.node?_eq_some_iff.1 stored
  obtain ⟨owned, sameKey⟩ := (run_indexed ran indexed).mem_of_fact? foundFact
  rw [run_factsOf ran indexed.toSynced distinct, Node.ref_unit, if_pos sameUnit] at owned
  rcases origin with isIncoming | ⟨-, absent⟩
  · have sameFact := List.inj_on_of_nodup_map distinct owned isIncoming sameKey
    obtain ⟨fact, owner⟩ := found
    obtain ⟨fact', owner'⟩ := node
    simp only [Node.ref_unit] at foundUnit sameFact
    rw [sameFact, foundUnit]
  · exact absurd sameKey (absent _ owned)

end Invalidation.Integration
