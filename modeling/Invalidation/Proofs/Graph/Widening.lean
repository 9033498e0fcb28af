import Invalidation.Proofs.Graph.Completeness
import Invalidation.Proofs.Graph.Difference

/-! When a change widens to the whole unit. In fine-grained mode a listed interface definition
brings the unit's catch-all interface fact with it, and so every use of the whole unit, unless what
is listed under its key is a use by now, or the key is the catch-all of another unit. In coarse mode
any change brings every definition with it.
-/

namespace Invalidation

namespace Integration

variable {store : Store} {externals : Externals} {granularity : Granularity} {snapshot : Snapshot}
  {unit : UnitName} {stored incoming : List Fact} {result : Result} {catchAll : Fact}

/-- What is listed in coarse mode goes back to something that differs by itself. -/
theorem Owed.exists_differs {entry : Entry} (owed : Owed .coarse unit stored incoming entry)
    : ∃ cause, Differs unit stored incoming cause := by
  cases owed with
  | differs differs => exact ⟨entry, differs⟩
  | widened _ _ _ _ widens => exact widens.2

/-- In fine-grained mode a listed interface definition other than a catch-all widens to the unit's
catch-all interface fact.
-/
theorem Owed.widensTo_catchAll {entry : Entry}
    (owed : Owed .fineGrained unit stored incoming entry)
    (isDefinition : entry.node.isDefinition = true) (shown : entry.node.key.isInterface = true)
    (particular : entry.node.key.isWholeUnit = false)
    (isCatchAll : catchAll.key = .wholeUnit .interface unit)
    (provided : catchAll.isDefinition = true)
    : WidensTo .fineGrained unit stored incoming catchAll := by
  cases owed with
  | differs differs =>
      exact ⟨provided, isCatchAll, entry, differs, isDefinition, shown, particular⟩
  | widened _ _ _ _ widens => exact ⟨provided, isCatchAll, widens.2.2⟩

/-- In fine-grained mode the catch-all interface fact is listed exactly if it differs itself or some
other interface definition, not a catch-all, is listed.
-/
theorem catchAll_mem_nodes_iff
    (ran : run store externals .fineGrained snapshot.unit incoming = result)
    (normal : snapshot.normalForm = .ok incoming) (synced : store.Synced)
    (oldEdges : EdgesDistinct (store.factsOf snapshot.unit)) (comes : catchAll ∈ incoming)
    (isCatchAll : catchAll.key = .wholeUnit .interface snapshot.unit)
    (provided : catchAll.isDefinition = true)
    : ⟨catchAll, snapshot.unit⟩ ∈ result.invalidated.nodes
      ↔ (∃ entry,
            Differs snapshot.unit (store.factsOf snapshot.unit) incoming entry
            ∧ entry.node.key = .wholeUnit .interface snapshot.unit)
        ∨ ∃ node ∈ result.invalidated.nodes,
            node.key.isInterface = true
            ∧ node.key.isWholeUnit = false
            ∧ node.isDefinition = true := by
  have owed (entry : Entry)
      : entry ∈ result.invalidated.entries
        ↔ Owed .fineGrained snapshot.unit (store.factsOf snapshot.unit) incoming entry :=
    mem_run_entries_iff ran normal synced oldEdges
  constructor
  · intro listed
    obtain ⟨entry, member, isNode⟩ := List.mem_map.1 listed
    cases (owed entry).1 member with
    | differs differs =>
        exact .inl ⟨entry, differs, (congrArg (·.key) isNode).trans isCatchAll⟩
    | widened _ _ _ _ widens =>
        obtain ⟨-, -, cause, differs, isDefinition, shown, particular⟩ := widens
        have causeListed := (owed cause).2 (.differs differs)
        exact .inr ⟨cause.node, List.mem_map_of_mem causeListed, shown, particular, isDefinition⟩
  · intro cause
    rcases cause with ⟨entry, differs, sameKey⟩ | ⟨node, listed, shown, particular, isDefinition⟩
    · have isFact := differs.node_eq (Snapshot.keys_nodup_of_normalForm normal) comes
        (sameKey.trans isCatchAll.symm)
      exact List.mem_map.2 ⟨entry, (owed entry).2 (.differs differs), isFact⟩
    · obtain ⟨entry, member, rfl⟩ := List.mem_map.1 listed
      apply mem_nodes_of_widensTo ran normal synced oldEdges comes
      exact ((owed entry).1 member).widensTo_catchAll isDefinition shown particular isCatchAll
        provided

end Integration

/-- The catch-all interface fact of the unit is listed, as the definition that it is. -/
def Invalidated.ListsCatchAll (invalidated : Invalidated) : Prop :=
  ∃ node ∈ invalidated.nodes,
    node.isDefinition = true
    ∧ node.ref = ⟨.wholeUnit .interface invalidated.unit, invalidated.unit⟩

instance (invalidated : Invalidated) : Decidable invalidated.ListsCatchAll :=
  inferInstanceAs (Decidable (∃ node ∈ invalidated.nodes, _))

namespace Graph

variable {graph : Graph} {snapshot : Snapshot} {invalidated : Invalidated}

/-- What is listed is a definition exactly if the unit defines its key now, or did before and stores
nothing under the key any more.
-/
theorem listed_isDefinition_iff (consistent : graph.Consistent)
    (accepted : (graph.integrate snapshot).answer = .ok invalidated) {node : Node}
    (listed : node ∈ invalidated.nodes)
    : node.isDefinition = true
      ↔ (graph.integrate snapshot).graph.store.Defines snapshot.unit node.key
        ∨ (graph.store.Defines snapshot.unit node.key
            ∧ (graph.integrate snapshot).graph.store.contains ⟨node.key, snapshot.unit⟩
              = false) := by
  obtain ⟨incoming, normal, rfl, -⟩ := integrate_answer_eq_ok_iff.1 accepted
  have distinct := Snapshot.keys_nodup_of_normalForm normal
  have current
      : (graph.integrate snapshot).graph.store.factsOf snapshot.unit = incoming :=
    integrate_factsOf_self consistent.synced normal
  have contained
      : (graph.integrate snapshot).graph.store.contains ⟨node.key, snapshot.unit⟩
        ↔ ∃ fact ∈ incoming, fact.key = node.key :=
    integrate_contains_self consistent.synced normal
  obtain ⟨-, comes | ⟨known, absent⟩⟩ :=
    Integration.listed_cases rfl consistent.synced distinct listed
  · have stored := contained.2 ⟨_, comes, rfl⟩
    constructor
    · exact fun provided => .inl ⟨_, current ▸ comes, rfl, provided⟩
    · intro defines
      rcases defines with ⟨fact, owned, sameKey, provided⟩ | ⟨-, unstored⟩
      · rwa [List.inj_on_of_nodup_map distinct (current ▸ owned) comes sameKey] at provided
      · exact absurd stored (by simp [unstored])
  · constructor
    · intro provided
      refine .inr ⟨⟨_, known, rfl, provided⟩, ?_⟩
      by_contra stored
      obtain ⟨fact, comes, sameKey⟩ := contained.1 (by simpa using stored)
      exact absent fact comes sameKey
    · intro defines
      rcases defines with ⟨fact, owned, sameKey, -⟩ | ⟨⟨fact, owned, sameKey, provided⟩, -⟩
      · exact absurd sameKey (absent fact (current ▸ owned))
      · have keysDistinct := consistent.synced.keysDistinct snapshot.unit
        rwa [List.inj_on_of_nodup_map keysDistinct owned known sameKey] at provided

/-- In fine-grained mode the catch-all interface fact is listed exactly if it differs itself, or an
interface key other than a catch-all is listed that is defined now, or was defined and is gone.
-/
theorem listsCatchAll_iff (carried : graph.Carried)
    (accepted : (graph.integrate snapshot).answer = .ok invalidated)
    (fineGrained : graph.options.granularity = .fineGrained)
    : invalidated.ListsCatchAll
      ↔ (∃ entry,
            Integration.Differs snapshot.unit (graph.store.factsOf snapshot.unit)
              ((graph.integrate snapshot).graph.store.factsOf snapshot.unit) entry
            ∧ entry.node.key = .wholeUnit .interface snapshot.unit)
        ∨ ∃ node ∈ invalidated.nodes,
            node.key.isInterface = true
            ∧ node.key.isWholeUnit = false
            ∧ ((graph.integrate snapshot).graph.store.Defines snapshot.unit node.key
              ∨ (graph.store.Defines snapshot.unit node.key
                  ∧ (graph.integrate snapshot).graph.store.contains ⟨node.key, snapshot.unit⟩
                    = false)) := by
  have synced := carried.consistent.synced
  obtain ⟨incoming, normal, rfl, -⟩ := integrate_answer_eq_ok_iff.1 accepted
  obtain ⟨catchAll, comes, isCatchAll, provided⟩ :=
    Snapshot.provides_wholeUnit_of_normalForm normal .interface
  have ran
      : Integration.run graph.store graph.externals .fineGrained snapshot.unit incoming
        = graph.integration snapshot.unit incoming := by
    rw [integration, fineGrained]
  have lists_iff
      : (graph.integration snapshot.unit incoming).invalidated.ListsCatchAll
        ↔ ⟨catchAll, snapshot.unit⟩
          ∈ (graph.integration snapshot.unit incoming).invalidated.nodes := by
    constructor
    · intro lists
      obtain ⟨node, listed, -, isRef⟩ := lists
      have sameFact := fact_eq_of_listed synced accepted listed
        (integrate_factsOf_self synced normal ▸ comes)
        (isCatchAll.trans (congrArg NodeRef.key isRef).symm)
      have isNode : (⟨catchAll, snapshot.unit⟩ : Node) = node := by
        rw [sameFact, ← unit_of_listed accepted listed]
      rwa [isNode]
    · exact fun listed =>
        ⟨_, listed, provided, congrArg (NodeRef.mk · snapshot.unit) isCatchAll⟩
  rw [lists_iff, integrate_factsOf_self synced normal,
    Integration.catchAll_mem_nodes_iff ran normal synced
      (carried.edgesDistinct snapshot.unit) comes isCatchAll provided]
  refine or_congr_right (exists_congr fun node => and_congr_right fun listed => ?_)
  rw [listed_isDefinition_iff carried.consistent accepted listed]

/-- In coarse mode whatever the unit defines now is listed, as soon as anything is. -/
theorem definition_listed_of_coarse (carried : graph.Carried)
    (accepted : (graph.integrate snapshot).answer = .ok invalidated)
    (coarse : graph.options.granularity = .coarse) (nonempty : invalidated.entries ≠ [])
    {node : Node}
    (owned : node ∈ (graph.integrate snapshot).graph.store.nodesOf snapshot.unit)
    (provided : node.isDefinition = true)
    : node ∈ invalidated.nodes := by
  obtain ⟨incoming, normal, rfl, -⟩ := integrate_answer_eq_ok_iff.1 accepted
  have synced := carried.consistent.synced
  have oldEdges := carried.edgesDistinct snapshot.unit
  have ran
      : Integration.run graph.store graph.externals .coarse snapshot.unit incoming
        = graph.integration snapshot.unit incoming := by
    rw [integration, coarse]
  obtain ⟨fact, comes, rfl⟩ := List.mem_map.1 owned
  rw [integrate_factsOf_self synced normal] at comes
  obtain ⟨entry, member⟩ := List.exists_mem_of_ne_nil _ nonempty
  have owed := (Integration.mem_run_entries_iff ran normal synced oldEdges).1 member
  exact Integration.mem_nodes_of_widensTo ran normal synced oldEdges comes
    ⟨provided, owed.exists_differs⟩

/-- Where the catch-all interface fact of a unit is listed, every user of the whole unit is
affected.
-/
theorem user_of_listed_catchAll_affected (reachable : graph.Reachable)
    (incremental : graph.options.incremental = true)
    (accepted : (graph.integrate snapshot).answer = .ok invalidated)
    (lists : invalidated.ListsCatchAll) {user : UnitName}
    (uses
      : (graph.integrate snapshot).graph.store.Uses user (.wholeUnit .interface snapshot.unit))
    : user ∈ ((graph.integrate snapshot).graph.affectedByChanges invalidated).answer := by
  obtain ⟨node, listed, provided, isRef⟩ := lists
  obtain ⟨fact, owned, sameKey, isUse⟩ := uses
  have ownUnit : node.unit = snapshot.unit := unit_of_listed accepted listed
  have isKey : node.key = .wholeUnit .interface snapshot.unit := by
    rw [← ownUnit]
    exact (congrArg NodeRef.key isRef).trans
      (congrArg (Key.wholeUnit .interface) (congrArg NodeRef.unit isRef).symm)
  obtain ⟨entry, member, rfl⟩ := List.mem_map.1 listed
  apply (mem_affected_iff reachable incremental accepted).2
  by_cases own : user = snapshot.unit
  · exact .inl ⟨List.ne_nil_of_mem member, own⟩
  · have shown : entry.node.key.isInterface = true := by
      rw [isKey]
      rfl
    refine .inr ⟨⟨entry.node.key, user⟩, rfl, .first (List.mem_filter.2 ⟨listed, provided⟩)
      (.use provided (.inl shown) owned (sameKey.trans isKey.symm) isUse) ?_⟩
    intro given
    obtain ⟨other, otherListed, -, sameRef⟩ := given
    exact own ((congrArg NodeRef.unit sameRef).symm.trans (unit_of_listed accepted otherListed))

/-- An accepted snapshot in the graphs of successive builds. In fine-grained mode the catch-all
interface fact of its unit is listed exactly if that fact differs itself, or an interface key other
than a catch-all is listed that the unit defines now, or that it defined before and stores nothing
under any more. Whenever it is listed, every user of the whole unit is affected. In coarse mode,
as soon as anything is listed, every definition of the unit is.
-/
theorem changes_widen_exactly (carried : graph.Carried)
    (accepted : (graph.integrate snapshot).answer = .ok invalidated)
    : let after := (graph.integrate snapshot).graph
      (graph.options.granularity = .fineGrained
        → (invalidated.ListsCatchAll
            ↔ (∃ entry,
                  Integration.Differs snapshot.unit (graph.store.factsOf snapshot.unit)
                    (after.store.factsOf snapshot.unit) entry
                  ∧ entry.node.key = .wholeUnit .interface snapshot.unit)
              ∨ ∃ node ∈ invalidated.nodes,
                  node.key.isInterface = true
                  ∧ node.key.isWholeUnit = false
                  ∧ (after.store.Defines snapshot.unit node.key
                    ∨ (graph.store.Defines snapshot.unit node.key
                        ∧ after.store.contains ⟨node.key, snapshot.unit⟩ = false))))
      ∧ (graph.options.incremental = true
          → invalidated.ListsCatchAll
          → ∀ user,
              after.store.Uses user (.wholeUnit .interface snapshot.unit)
              → user ∈ (after.affectedByChanges invalidated).answer)
      ∧ (graph.options.granularity = .coarse
          → invalidated.entries ≠ []
          → ∀ node ∈ after.store.nodesOf snapshot.unit,
              node.isDefinition = true → node ∈ invalidated.nodes) := by
  intro after
  refine ⟨listsCatchAll_iff carried accepted, fun incremental lists user uses => ?_, ?_⟩
  · exact user_of_listed_catchAll_affected carried.reachable incremental accepted lists uses
  · exact fun coarse nonempty node owned provided =>
      definition_listed_of_coarse carried accepted coarse nonempty owned provided

/-- A graph in which one unit provides a name and another one uses that unit as a whole. -/
def usedAsWhole : Graph :=
  [Operation.integrate ((Snapshot.start "u0").define (.interface (.topLevel "a")) none),
    .integrate ((Snapshot.start "u1").consume (.wholeUnit .interface "u0") true)].foldl
    Graph.after (.new {})

/-- When the name is removed, the user of the whole unit is affected. -/
theorem removal_affects_user_of_whole_unit
    : ∃ invalidated,
        (usedAsWhole.integrate (.start "u0")).answer = .ok invalidated
        ∧ invalidated.ListsCatchAll
        ∧ "u1"
          ∈ ((usedAsWhole.integrate (.start "u0")).graph.affectedByChanges invalidated).answer := by
  let name : Node := ⟨⟨.interface (.topLevel "a"), none, .definition, []⟩, "u0"⟩
  let catchAll : Node := ⟨⟨.wholeUnit .interface "u0", none, .definition, []⟩, "u0"⟩
  let invalidated : Invalidated := ⟨"u0", [⟨.removed, name⟩, ⟨.changed, catchAll⟩], []⟩
  have carried : usedAsWhole.Carried := Carried.foldl_after (.new {}) _
  have accepted : (usedAsWhole.integrate (.start "u0")).answer = .ok invalidated := by decide
  have gone
      : usedAsWhole.store.Defines "u0" name.key
        ∧ (usedAsWhole.integrate (.start "u0")).graph.store.contains ⟨name.key, "u0"⟩ = false := by
    decide
  obtain ⟨exactly, affects, -⟩ := changes_widen_exactly carried accepted
  have lists : invalidated.ListsCatchAll :=
    (exactly rfl).2 (.inr ⟨name, List.mem_cons_self, rfl, rfl, .inr gone⟩)
  exact ⟨invalidated, accepted, lists, affects rfl lists "u1" (by decide)⟩

/-- A listed interface definition need not widen: a name that its unit provided and now uses is
listed as a use, and the user of the whole unit is missed.
-/
theorem definition_turned_use_does_not_widen
    : ¬∀ {graph : Graph} {snapshot : Snapshot} {invalidated : Invalidated},
        graph.Carried
        → graph.options.granularity = .fineGrained
        → (graph.integrate snapshot).answer = .ok invalidated
        → (∃ node ∈ invalidated.nodes,
              node.key.isInterface = true
              ∧ (graph.store.Defines snapshot.unit node.key
                ∨ (graph.integrate snapshot).graph.store.Defines snapshot.unit node.key))
        → invalidated.ListsCatchAll := by
  intro widens
  let key : Key := .interface (.topLevel "a")
  let snapshot := (Snapshot.start "u0").consume key true
  let invalidated : Invalidated :=
    ⟨"u0", [⟨.changed, ⟨⟨key, none, .use true, []⟩, "u0"⟩⟩], []⟩
  have carried : usedAsWhole.Carried := Carried.foldl_after (.new {}) _
  have accepted : (usedAsWhole.integrate snapshot).answer = .ok invalidated := by decide
  have provided : usedAsWhole.store.Defines "u0" key := by decide
  have unlisted : ¬invalidated.ListsCatchAll := by decide
  exact unlisted (widens carried rfl accepted ⟨_, List.mem_cons_self, rfl, .inl provided⟩)

end Graph

end Invalidation
