import Invalidation.Proofs.Graph.Reload
import Invalidation.Proofs.Integration.Difference

/-! What a snapshot invalidates, in the graphs of successive builds: the difference to what its unit
contributed last, whatever other units, questions and earlier snapshots there were.
-/

namespace Invalidation.Graph

variable {graph : Graph} {snapshot : Snapshot} {incoming : List Fact}

theorem Carried.edgesDistinct (carried : graph.Carried) (unit : UnitName)
    : Integration.EdgesDistinct (graph.store.factsOf unit) :=
  fun _ => carried.dependsOn_nodup

/-- Two graphs with the same granularity and the same facts of a unit list the same for a snapshot of
that unit.
-/
theorem integration_entries_congr {other : Graph} (otherSynced : other.store.Synced)
    (synced : graph.store.Synced) (normal : snapshot.normalForm = .ok incoming)
    (granularity : other.options.granularity = graph.options.granularity)
    (stored : other.store.factsOf snapshot.unit = graph.store.factsOf snapshot.unit)
    : (other.integration snapshot.unit incoming).invalidated.entries
      = (graph.integration snapshot.unit incoming).invalidated.entries := by
  rw [integration, integration, granularity]
  exact Integration.run_entries_congr otherSynced synced (Snapshot.keys_nodup_of_normalForm normal)
    stored

/-- A snapshot that keeps the contract is accepted, and no key is listed twice. Listed are the facts
by which the normal form differs from what the unit stored: the new ones, the changed ones and, as
they were stored, the removed ones; and as changed the definitions to which such a difference
widens. The list is the same in any other graph with the same granularity in which the unit stores
the same.
-/
theorem lists_exactly_the_difference (carried : graph.Carried)
    (normal : snapshot.normalForm = .ok incoming)
    : ∃ invalidated,
        (graph.integrate snapshot).answer = .ok invalidated
        ∧ (invalidated.entries.map (·.node.key)).Nodup
        ∧ (∀ entry,
            entry ∈ invalidated.entries
            ↔ Integration.Owed graph.options.granularity snapshot.unit
                (graph.store.factsOf snapshot.unit) incoming entry)
        ∧ ∀ other : Graph,
            other.Carried
            → other.options.granularity = graph.options.granularity
            → other.store.factsOf snapshot.unit = graph.store.factsOf snapshot.unit
            → ∃ same,
                (other.integrate snapshot).answer = .ok same
                ∧ same.entries = invalidated.entries := by
  have synced := carried.consistent.synced
  refine ⟨_, carried.consistent.integrate_answer normal, ?_, fun entry => ?_, ?_⟩
  · exact Integration.keys_nodup_of_run rfl (Snapshot.keys_nodup_of_normalForm normal) synced
  · exact Integration.mem_run_entries_iff rfl normal synced (carried.edgesDistinct snapshot.unit)
  · intro other otherCarried granularity stored
    exact ⟨_, otherCarried.consistent.integrate_answer normal,
      integration_entries_congr otherCarried.consistent.synced synced normal granularity stored⟩

/-- A snapshot with two definitions, one of them with a fingerprint. -/
def twoNames : Snapshot :=
  ((Snapshot.start "u0").define (.interface (.topLevel "a")) (some (.digest "f1"))).define
    (.interface (.topLevel "b")) none

/-- A snapshot in which the fingerprint is another one and the other definition has another name. -/
def renamedAndChanged : Snapshot :=
  ((Snapshot.start "u0").define (.interface (.topLevel "a")) (some (.digest "f2"))).define
    (.interface (.topLevel "c")) none

/-- The second snapshot after the first one: a change, a new definition, a removed one, and the
catch-all interface fact to which they widen.
-/
theorem renamedAndChanged_lists_difference
    : let graph := (new {}).after (.integrate twoNames)
      let definition (name : String) (token : Option Fingerprint) : Node :=
        ⟨⟨.interface (.topLevel name), token, .definition, []⟩, "u0"⟩
      ∃ invalidated,
        (graph.integrate renamedAndChanged).answer = .ok invalidated
        ∧ (invalidated.entries.map (·.node.key)).Nodup
        ∧ ⟨.changed, definition "a" (some (.digest "f2"))⟩ ∈ invalidated.entries
        ∧ ⟨.new, definition "c" none⟩ ∈ invalidated.entries
        ∧ ⟨.removed, definition "b" none⟩ ∈ invalidated.entries
        ∧ ⟨.changed, ⟨⟨.wholeUnit .interface "u0", none, .definition, []⟩, "u0"⟩⟩
          ∈ invalidated.entries := by
  intro graph definition
  have carried : graph.Carried := .after (.new {}) _
  let incoming : List Fact := [
    ⟨.wholeUnit .interface "u0", none, .definition, []⟩,
    ⟨.wholeUnit .implementation "u0", none, .definition, []⟩,
    (definition "a" (some (.digest "f2"))).toFact,
    (definition "c" none).toFact]
  have normal : renamedAndChanged.normalForm = .ok incoming := by decide
  obtain ⟨invalidated, accepted, distinct, exactly, -⟩ :=
    lists_exactly_the_difference carried normal
  have isNew
      : Integration.Differs "u0" (graph.store.factsOf "u0") incoming
          ⟨.new, definition "c" none⟩ :=
    .new (by decide) (by decide)
  refine ⟨invalidated, accepted, distinct, (exactly _).2 (.differs ?_),
    (exactly _).2 (.differs isNew), (exactly _).2 (.differs ?_), (exactly _).2 ?_⟩
  · have known : (definition "a" (some (.digest "f1"))).toFact ∈ graph.store.factsOf "u0" := by
      decide
    refine .changed (by decide) known rfl fun same => ?_
    rcases same.fingerprint with ⟨absent, -⟩ | ⟨token, isToken, isSame⟩
    · cases absent
    · exact absurd (isToken.trans isSame.symm) (by decide)
  · exact .removed (by decide) (by decide)
  · have known
        : (⟨.wholeUnit .interface "u0", none, .definition, []⟩ : Fact)
          ∈ graph.store.factsOf "u0" := by
      decide
    exact .widened (by decide) known rfl ⟨rfl, .inl ⟨rfl, rfl⟩, fun _ => .rfl⟩
      ⟨rfl, rfl, _, isNew, rfl, rfl, rfl⟩

end Invalidation.Graph
