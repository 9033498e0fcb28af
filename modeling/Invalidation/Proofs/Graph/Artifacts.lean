import Invalidation.Proofs.Graph.Carried
import Invalidation.Proofs.Graph.Completeness

/-! The artifacts that a graph lists against those that its units use. Every artifact in use is
listed, once; but one whose last use turned into a definition stays listed until a unit drops the
definition, and is not discovered again when it is used anew.
-/

namespace Invalidation

/-- The key under which units record what they say of an artifact. -/
def Key.artifact (path : String) : Key := .interface (.externalDepend path)

namespace Graph

/-- The paths of the artifacts that the graph lists. -/
def artifacts (graph : Graph) : List String := graph.externals.toList.map (·.path)

/-- Some unit uses an artifact. -/
def InUse (graph : Graph) (path : String) : Prop :=
  ∃ unit ∈ graph.store.unitNames, graph.store.Uses unit (.artifact path)

instance (graph : Graph) (path : String) : Decidable (graph.InUse path) :=
  inferInstanceAs
    (Decidable (∃ unit ∈ graph.store.unitNames, graph.store.Uses unit (.artifact path)))

variable {graph : Graph} {path : String}

theorem artifacts_eq_keys (graph : Graph) : graph.artifacts = Table.keys graph.externals := by
  rw [artifacts, Externals.toList, List.map_map]
  rfl

theorem mem_artifacts : path ∈ graph.artifacts ↔ graph.externals.contains path := by
  rw [artifacts_eq_keys, Table.contains_iff_mem_keys]

theorem inUse_iff : graph.InUse path ↔ ∃ unit, graph.store.Uses unit (.artifact path) := by
  constructor
  · rintro ⟨unit, -, uses⟩
    exact ⟨unit, uses⟩
  · rintro ⟨unit, fact, owned, rest⟩
    exact ⟨unit, Store.mem_unitNames_of_mem_factsOf owned, fact, owned, rest⟩

theorem mem_artifacts_of_inUse (consistent : graph.Consistent) (inUse : graph.InUse path)
    : path ∈ graph.artifacts := by
  obtain ⟨unit, fact, owned, sameKey, isUse⟩ := inUse_iff.1 inUse
  refine mem_artifacts.2 ((consistent.inOrder unit fact owned).external path ?_)
  exact Integration.usedPath?_eq_some_iff.2 ⟨isUse, by rw [sameKey]; rfl⟩

/-- Where the indices agree with the facts, an artifact is in use exactly if a unit is listed under
its key.
-/
theorem inUse_iff_users_ne_nil (indexed : graph.store.Indexed)
    : graph.InUse path ↔ graph.store.users.values (.artifact path) ≠ [] := by
  rw [inUse_iff]
  constructor
  · rintro ⟨unit, uses⟩
    exact List.ne_nil_of_mem (indexed.users.2 uses)
  · intro nonempty
    obtain ⟨unit, listed⟩ := List.exists_mem_of_ne_nil _ nonempty
    exact ⟨unit, indexed.users.1 listed⟩

-----------------------------------------------------------------------------------------
-- One integration
-----------------------------------------------------------------------------------------

variable {snapshot : Snapshot} {facts : List Fact}

/-- What a normal form uses of an artifact, it uses under the artifact's interface key. -/
theorem key_eq_artifact_of_external (normal : snapshot.normalForm = .ok facts) {fact : Fact}
    (member : fact ∈ facts) (external : fact.key.externalPath? = some path)
    : fact.key = .artifact path :=
  Key.eq_of_externalPath? external
    (Snapshot.isInterface_of_normalForm normal member (by simp [external]))

theorem key_eq_artifact_of_used (normal : snapshot.normalForm = .ok facts) {fact : Fact}
    (member : fact ∈ facts) (used : Integration.usedPath? fact = some path)
    : fact.key = .artifact path :=
  key_eq_artifact_of_external normal member (Integration.usedPath?_eq_some_iff.1 used).2

/-- After an integration an artifact is listed exactly if it is in use, or it was listed before and
the unit did not drop what it said of the artifact.
-/
theorem Consistent.mem_artifacts_integrate_iff (consistent : graph.Consistent)
    (normal : snapshot.normalForm = .ok facts)
    : path ∈ (graph.integrate snapshot).graph.artifacts
      ↔ (graph.integrate snapshot).graph.InUse path
        ∨ (path ∈ graph.artifacts
            ∧ (graph.store.contains ⟨.artifact path, snapshot.unit⟩
                → (graph.integrate snapshot).graph.store.contains
                    ⟨.artifact path, snapshot.unit⟩)) := by
  have after := consistent.integrate normal
  have ownedAfter
      : (graph.integrate snapshot).graph.store.factsOf snapshot.unit = facts :=
    integrate_factsOf_self consistent.synced normal
  have listed
      : path ∈ (graph.integrate snapshot).graph.artifacts
        ↔ (path ∈ graph.artifacts ∨ ∃ fact ∈ facts, Integration.usedPath? fact = some path)
          ∧ ∀ old ∈ Integration.removedFacts graph.store snapshot.unit facts,
              old.key.externalPath? = some path
              → (graph.integrate snapshot).graph.store.users.values old.key ≠ [] := by
    rw [mem_artifacts, mem_artifacts, integrate_graph normal]
    exact Integration.contains_run_externals rfl
  constructor
  · intro known
    by_cases inUse : (graph.integrate snapshot).graph.InUse path
    · exact .inl inUse
    · obtain ⟨origin, kept⟩ := listed.1 known
      refine .inr ⟨origin.resolve_right ?_, fun owned => ?_⟩
      · rintro ⟨fact, member, used⟩
        exact inUse (inUse_iff.2 ⟨snapshot.unit, fact, ownedAfter ▸ member,
          key_eq_artifact_of_used normal member used,
          (Integration.usedPath?_eq_some_iff.1 used).1⟩)
      · obtain ⟨old, oldOwned, sameKey⟩ := consistent.synced.contains_iff.1 owned
        by_contra dropped
        rw [integrate_contains_self consistent.synced normal] at dropped
        push Not at dropped
        have removed : old ∈ Integration.removedFacts graph.store snapshot.unit facts :=
          Integration.mem_removedFacts.2 ⟨oldOwned, fun fact member => sameKey ▸ dropped fact member⟩
        have users := kept old removed (by rw [sameKey]; rfl)
        rw [sameKey] at users
        exact inUse ((inUse_iff_users_ne_nil after.indexed).2 users)
  · rintro (inUse | ⟨known, keeps⟩)
    · exact mem_artifacts_of_inUse after inUse
    · refine listed.2 ⟨.inl known, fun old removed external => ?_⟩
      obtain ⟨owned, absent⟩ := Integration.mem_removedFacts.1 removed
      have sameKey : old.key = .artifact path :=
        Key.eq_of_externalPath? external
          (consistent.externalsShown snapshot.unit old owned (by simp [external]))
      obtain ⟨fact, member, newKey⟩ := (integrate_contains_self consistent.synced normal).1
        (keeps (Store.contains_of_mem_factsOf owned sameKey))
      exact absurd (newKey.trans sameKey.symm) (absent fact member)

/-- An integration discovers the artifacts that its unit uses now and that were not listed before. -/
theorem mem_discovered_iff (synced : graph.store.Synced) {invalidated : Invalidated}
    (accepted : (graph.integrate snapshot).answer = .ok invalidated)
    : path ∈ invalidated.discovered
      ↔ path ∉ graph.artifacts
        ∧ (graph.integrate snapshot).graph.store.Uses snapshot.unit (.artifact path) := by
  obtain ⟨facts, normal, rfl, -⟩ := integrate_answer_eq_ok_iff.1 accepted
  have uses
      : (graph.integrate snapshot).graph.store.Uses snapshot.unit (.artifact path)
        ↔ ∃ fact ∈ facts, Integration.usedPath? fact = some path := by
    rw [Store.Uses, integrate_factsOf_self synced normal]
    refine exists_congr fun fact => and_congr_right fun member => ?_
    rw [Integration.usedPath?_eq_some_iff, and_comm]
    refine and_congr_right fun _ => ?_
    constructor
    · intro sameKey
      rw [sameKey]
      rfl
    · exact key_eq_artifact_of_external normal member
  rw [uses, mem_artifacts, and_comm, ← List.mem_filterMap]
  simp only [integration, Integration.run, List.mem_filter, Bool.not_eq_true', Bool.not_eq_true]

/-- No artifact is discovered twice, since each has one interface key. -/
theorem nodup_discovered {invalidated : Invalidated}
    (accepted : (graph.integrate snapshot).answer = .ok invalidated)
    : invalidated.discovered.Nodup := by
  obtain ⟨facts, normal, rfl, -⟩ := integrate_answer_eq_ok_iff.1 accepted
  have keys := List.pairwise_map.1 (Snapshot.keys_nodup_of_normalForm normal)
  refine List.Nodup.filter _ ?_
  rw [List.Nodup, List.pairwise_filterMap]
  refine keys.imp_of_mem fun {fact other} member otherMember different path used otherPath otherUsed
    same => different ?_
  have sameKey := key_eq_artifact_of_used normal member used
  have otherKey := key_eq_artifact_of_used normal otherMember otherUsed
  rw [sameKey, otherKey, same]

-----------------------------------------------------------------------------------------
-- All operations
-----------------------------------------------------------------------------------------

theorem artifacts_restored (options : Options) (graph : Graph)
    : (Saved.restored options graph).artifacts = graph.artifacts := by
  rw [artifacts_eq_keys, artifacts_eq_keys, Saved.keys_restored_externals]

/-- In the graphs of successive builds, some unit stated something of every listed artifact, by
induction on how the graph came up.
-/
theorem Carried.exists_contains_artifact (carried : graph.Carried) (listed : path ∈ graph.artifacts)
    : ∃ unit, graph.store.contains ⟨.artifact path, unit⟩ := by
  induction carried with
  | new options => cases listed
  | @after graph carried operation ih =>
      rcases graph.after_cases operation with
        ⟨snapshot, facts, -, normal, -, same⟩ | ⟨-, undisturbed⟩
      · rw [same] at listed ⊢
        rcases (carried.consistent.mem_artifacts_integrate_iff normal).1 listed with
          inUse | ⟨known, keeps⟩
        · obtain ⟨unit, fact, owned, sameKey, -⟩ := inUse_iff.1 inUse
          exact ⟨unit, Store.contains_of_mem_factsOf owned sameKey⟩
        · obtain ⟨unit, stated⟩ := ih known
          refine ⟨unit, ?_⟩
          by_cases own : unit = snapshot.unit
          · subst own
            exact keeps stated
          · obtain ⟨fact, owned, sameKey⟩ := carried.consistent.synced.contains_iff.1 stated
            refine Store.contains_of_mem_factsOf ?_ sameKey
            rwa [integrate_factsOf carried.consistent.synced normal, if_neg own]
      · rw [mem_artifacts, undisturbed.externals, ← mem_artifacts] at listed
        obtain ⟨unit, stated⟩ := ih listed
        exact ⟨unit, by rw [undisturbed.contains, stated]⟩
  | @reloaded graph loaded bytes options carried fits saved loads ih =>
      obtain ⟨-, -, rfl⟩ :=
        (carried.consistent.load_eq_ok_iff fits saved (incremental_of_load loads)).1 loads
      rw [artifacts_restored] at listed
      obtain ⟨unit, stated⟩ := ih listed
      exact ⟨unit,
        (Saved.contains_restored carried.consistent.synced options _).2 stated⟩

/-- In the graphs of successive builds, every artifact is listed once; one that is in use is listed,
and of a listed one that is not in use some unit has a definition. An accepted snapshot leaves an
artifact listed exactly if it is in use then, or if it was listed before and the unit did not drop
what it said of it; and it discovers exactly what its unit uses then and was not listed before.
-/
theorem artifacts_listed_of_carried (carried : graph.Carried)
    : graph.artifacts.Nodup
      ∧ (∀ path, graph.InUse path → path ∈ graph.artifacts)
      ∧ (∀ path ∈ graph.artifacts,
          graph.InUse path ∨ ∃ unit, graph.store.Defines unit (.artifact path))
      ∧ ∀ {snapshot : Snapshot} {invalidated : Invalidated},
          (graph.integrate snapshot).answer = .ok invalidated
          → let after := (graph.integrate snapshot).graph
            invalidated.discovered.Nodup
            ∧ ∀ path,
                (path ∈ after.artifacts
                  ↔ after.InUse path
                    ∨ (path ∈ graph.artifacts
                        ∧ (graph.store.contains ⟨.artifact path, snapshot.unit⟩
                            → after.store.contains ⟨.artifact path, snapshot.unit⟩)))
                ∧ (path ∈ invalidated.discovered
                  ↔ path ∉ graph.artifacts
                    ∧ after.store.Uses snapshot.unit (.artifact path)) := by
  refine ⟨?_, fun path => mem_artifacts_of_inUse carried.consistent, ?_, ?_⟩
  · rw [artifacts_eq_keys]
    exact graph.externals.distinct
  · intro path listed
    obtain ⟨unit, stated⟩ := carried.exists_contains_artifact listed
    obtain ⟨fact, owned, sameKey⟩ := carried.consistent.synced.contains_iff.1 stated
    cases role : fact.isDefinition with
    | true => exact .inr ⟨unit, fact, owned, sameKey, role⟩
    | false => exact .inl (inUse_iff.2 ⟨unit, fact, owned, sameKey, role⟩)
  · intro snapshot invalidated accepted after
    obtain ⟨facts, normal, -⟩ := integrate_answer_eq_ok_iff.1 accepted
    exact ⟨nodup_discovered accepted, fun path =>
      ⟨carried.consistent.mem_artifacts_integrate_iff normal,
        mem_discovered_iff carried.consistent.synced accepted⟩⟩

/-- A graph in which a unit uses an artifact. -/
def artifactUsed : Graph :=
  (new {}).after (.integrate ((Snapshot.start "u0").consume (.artifact "/p") true))

/-- An artifact in use is listed in the graph of the next build. There it stays listed when its user
goes over to defining it, and nothing is discovered.
-/
theorem artifact_listed_after_reload
    : let graph := Saved.restored {} artifactUsed
      let defines := (Snapshot.start "u0").define (.artifact "/p") none
      graph.Carried
      ∧ "/p" ∈ graph.artifacts
      ∧ "/p" ∈ (graph.integrate defines).graph.artifacts
      ∧ ∃ invalidated,
          (graph.integrate defines).answer = .ok invalidated ∧ "/p" ∉ invalidated.discovered := by
  intro graph defines
  have carried : graph.Carried :=
    (Carried.after (.new {}) _).restored (by decide) (by decide) rfl (by decide)
  let invalidated : Invalidated :=
    ⟨"u0",
      [⟨.changed, ⟨⟨.artifact "/p", none, .definition, []⟩, "u0"⟩⟩,
        ⟨.changed, ⟨⟨.wholeUnit .interface "u0", none, .definition, []⟩, "u0"⟩⟩],
      []⟩
  have accepted : (graph.integrate defines).answer = .ok invalidated := by decide
  obtain ⟨-, listed, -, integrated⟩ := artifacts_listed_of_carried carried
  have before : "/p" ∈ graph.artifacts := listed "/p" (by decide)
  have defined : (graph.integrate defines).graph.store.contains ⟨.artifact "/p", "u0"⟩ := by decide
  obtain ⟨after, discovered⟩ := (integrated accepted).2 "/p"
  exact ⟨carried, before, after.2 (.inr ⟨before, fun _ => defined⟩), invalidated, accepted,
    fun found => (discovered.1 found).1 before⟩

/-- An artifact whose last use turned into a definition is listed and not in use. -/
theorem artifact_listed_after_last_use
    : ¬∀ {graph : Graph}, graph.Carried → ∀ path, path ∈ graph.artifacts ↔ graph.InUse path := by
  intro exactly
  let defines := (Snapshot.start "u0").define (.artifact "/p") none
  have carried : (artifactUsed.after (.integrate defines)).Carried := .after (.after (.new {}) _) _
  have inUse := (exactly carried "/p").1 (by decide)
  revert inUse
  decide

end Graph

end Invalidation
