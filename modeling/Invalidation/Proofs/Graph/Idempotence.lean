import Invalidation.Proofs.Graph.Completeness
import Invalidation.Proofs.Graph.Difference
import Invalidation.Proofs.Integration.Again

/-! A snapshot that is integrated again right after the first time leaves the whole graph as it is,
every order included. It lists nothing but what an unreadable fingerprint calls for.
-/

namespace Invalidation.Graph

variable {graph : Graph} {snapshot : Snapshot} {invalidated : Invalidated}

/-- Two graphs have the same settings, are in the same phase, store the same facts in the same
order, list the same in their indices, in the same order under every key, have the same marks, and
know the same of the same artifacts.
-/
structure SameState (left right : Graph) : Prop where
  options : left.options = right.options
  phase : left.phase = right.phase
  nodes : left.store.SameNodes right.store
  users : ∀ key, left.store.users.get? key = right.store.users.get? key
  dependents : ∀ node, left.store.dependents.get? node = right.store.dependents.get? node
  marked : left.store.marked = right.store.marked
  externals : left.externals = right.externals

section

variable {facts : List Fact} (carried : graph.Carried) (normal : snapshot.normalForm = .ok facts)

include normal in
/-- What the graph makes of the same facts again comes from what it made of them the first time. -/
theorem integration_integrate
    : (graph.integrate snapshot).graph.integration snapshot.unit facts
      = Integration.run (graph.integration snapshot.unit facts).store
          (graph.integration snapshot.unit facts).externals graph.options.granularity snapshot.unit
          facts := by
  rw [integrate_graph normal]
  rfl

include carried normal

/-- Integrating a snapshot again leaves the graph in the state in which the first time left it, and
discovers no artifact.
-/
theorem integrate_again_sameState
    : let once := (graph.integrate snapshot).graph
      (once.integrate snapshot).graph.SameState once
      ∧ (once.integration snapshot.unit facts).invalidated.discovered = [] := by
  intro once
  let first := graph.integration snapshot.unit facts
  let second := once.integration snapshot.unit facts
  have isOnce : once = { graph with store := first.store, externals := first.externals } :=
    integrate_graph normal
  have isTwice
      : (once.integrate snapshot).graph
        = { once with store := second.store, externals := second.externals } :=
    integrate_graph normal
  have again
      : Integration.run first.store first.externals graph.options.granularity snapshot.unit facts
        = second :=
    (integration_integrate normal).symm
  have consistent := carried.consistent
  have onceConsistent : once.Consistent := consistent.integrate normal
  have distinct := Snapshot.keys_nodup_of_normalForm normal
  have inUse
      : ∀ fact ∈ facts, ∀ path ∈ Integration.usedPath? fact, first.externals.contains path := by
    intro fact comes path used
    have owned : fact ∈ once.store.factsOf snapshot.unit := by
      rwa [integrate_factsOf_self consistent.synced normal]
    have known := (onceConsistent.inOrder snapshot.unit fact owned).external path used
    rwa [isOnce] at known
  obtain ⟨discovered, externals⟩ :=
    Integration.externals_again rfl consistent.indexed distinct again inUse
  have alike : second.store.Alike first.store :=
    Integration.alike_again rfl consistent.indexed distinct again
  have marked : second.store.marked = first.store.marked :=
    Integration.marked_again rfl again normal consistent.indexed consistent.marksStored
      (carried.edgesDistinct snapshot.unit)
  have compact : first.store.Compact := Integration.run_compact rfl consistent.compact
  have compactAgain := Integration.run_compact again compact
  refine ⟨?_, discovered⟩
  rw [isTwice, isOnce]
  exact {
    options := rfl
    phase := rfl
    nodes := alike.toSameNodes
    users := alike.users.get?_eq compactAgain.users compact.users
    dependents := alike.dependents.get?_eq compactAgain.dependents compact.dependents
    marked
    externals
  }

/-- What is listed again are the definitions for which an unreadable fingerprint calls. -/
theorem mem_entries_integrate_again_iff {entry : Entry}
    : entry
        ∈ ((graph.integrate snapshot).graph.integration snapshot.unit facts).invalidated.entries
      ↔ ∃ fact ∈ facts,
          Integration.ListedAgain graph.options.granularity snapshot.unit facts fact
          ∧ entry = ⟨.changed, ⟨fact, snapshot.unit⟩⟩ :=
  Integration.mem_entries_again_iff rfl (integration_integrate normal).symm normal
    carried.consistent.indexed

end

/-- An accepted snapshot, in the graphs of successive builds, that is integrated again right after
the first time: it is accepted again, the graph stays in the same state, and no artifact is
discovered. Listed as changed, each once, are exactly the definitions with an unreadable fingerprint
and those to which one of these widens; so nothing is listed if no fingerprint of the snapshot is
unreadable.
-/
theorem integrate_idempotent (carried : graph.Carried)
    (accepted : (graph.integrate snapshot).answer = .ok invalidated)
    : let once := (graph.integrate snapshot).graph
      let facts := once.store.factsOf snapshot.unit
      (once.integrate snapshot).graph.SameState once
      ∧ ∃ again,
          (once.integrate snapshot).answer = .ok again
          ∧ again.discovered = []
          ∧ (again.entries.map (·.node.key)).Nodup
          ∧ (∀ entry,
              entry ∈ again.entries
              ↔ ∃ fact ∈ facts,
                  Integration.ListedAgain graph.options.granularity snapshot.unit facts fact
                  ∧ entry = ⟨.changed, ⟨fact, snapshot.unit⟩⟩)
          ∧ ((∀ node ∈ snapshot.nodes, node.fingerprint ≠ some .unreadable)
              → again.entries = []) := by
  intro once facts
  obtain ⟨incoming, normal, -, -⟩ := integrate_answer_eq_ok_iff.1 accepted
  have current : facts = incoming := integrate_factsOf_self carried.consistent.synced normal
  have onceConsistent := carried.consistent.integrate normal
  obtain ⟨sameState, discovered⟩ := integrate_again_sameState carried normal
  have exactly {entry : Entry} := @mem_entries_integrate_again_iff _ _ _ carried normal entry
  rw [current]
  refine ⟨sameState, _, onceConsistent.integrate_answer normal, discovered, ?_,
    fun entry => exactly, fun readable => ?_⟩
  · exact Integration.keys_nodup_of_run rfl (Snapshot.keys_nodup_of_normalForm normal)
      onceConsistent.synced
  · have allReadable {fact : Fact} (comes : fact ∈ incoming)
        : fact.fingerprint ≠ some .unreadable := by
      intro unreadable
      obtain ⟨node, isNode, given⟩ :=
        Snapshot.exists_node_of_fingerprint normal comes unreadable
      exact readable node isNode given
    apply List.eq_nil_iff_forall_not_mem.2
    intro entry listed
    obtain ⟨fact, comes, ⟨-, unreadable | ⟨cause, causes, unreadable, -⟩⟩, -⟩ := exactly.1 listed
    · exact allReadable comes unreadable
    · exact allReadable causes unreadable

/-- A snapshot with a name whose fingerprint is unreadable and a use of an artifact. -/
def unreadableName : Snapshot :=
  (((Snapshot.start "u0").define (.interface (.topLevel "a")) (some .unreadable)).define
    (.interface (.topLevel "b")) (some (.digest "f1"))).consume
    (.interface (.externalDepend "/p")) true

/-- Integrated again, it lists the name and the catch-all interface fact, and not the other name. -/
theorem unreadableName_listed_again
    : let once := (providedAndUsed.integrate unreadableName).graph
      let definition (key : Key) (fingerprint : Option Fingerprint) : Entry :=
        ⟨.changed, ⟨⟨key, fingerprint, .definition, []⟩, "u0"⟩⟩
      ∃ again,
        (once.integrate unreadableName).answer = .ok again
        ∧ (once.integrate unreadableName).graph.store.marked = once.store.marked
        ∧ definition (.interface (.topLevel "a")) (some .unreadable) ∈ again.entries
        ∧ definition (.wholeUnit .interface "u0") none ∈ again.entries
        ∧ definition (.interface (.topLevel "b")) (some (.digest "f1")) ∉ again.entries := by
  intro once definition
  let bare (key : Key) (role : Role) : Node := ⟨⟨key, none, role, []⟩, "u0"⟩
  let invalidated : Invalidated :=
    ⟨"u0",
      [definition (.interface (.topLevel "a")) (some .unreadable),
        ⟨.new, ⟨⟨.interface (.topLevel "b"), some (.digest "f1"), .definition, []⟩, "u0"⟩⟩,
        ⟨.new, bare (.interface (.externalDepend "/p")) (.use true)⟩,
        definition (.wholeUnit .interface "u0") none],
      ["/p"]⟩
  have carried : providedAndUsed.Carried := Carried.foldl_after (.new {}) _
  have accepted : (providedAndUsed.integrate unreadableName).answer = .ok invalidated := by decide
  obtain ⟨sameState, again, answer, -, -, exactly, -⟩ := integrate_idempotent carried accepted
  let name : Fact := ⟨.interface (.topLevel "a"), some .unreadable, .definition, []⟩
  let catchAll : Fact := ⟨.wholeUnit .interface "u0", none, .definition, []⟩
  have stored
      : name ∈ once.store.factsOf "u0" ∧ catchAll ∈ once.store.factsOf "u0" := by
    decide
  refine ⟨again, answer, sameState.marked, (exactly _).2 ⟨name, stored.1, ⟨rfl, .inl rfl⟩, rfl⟩,
    (exactly _).2 ⟨catchAll, stored.2, ⟨rfl, .inr ⟨name, stored.1, rfl, rfl, rfl, rfl⟩⟩, rfl⟩, ?_⟩
  intro listed
  obtain ⟨fact, -, ⟨-, reason⟩, isFact⟩ := (exactly _).1 listed
  obtain rfl : (⟨.interface (.topLevel "b"), some (.digest "f1"), .definition, []⟩ : Fact) = fact :=
    congrArg (·.node.toFact) isFact
  rcases reason with unreadable | ⟨-, -, -, isCatchAll, -⟩
  · cases unreadable
  · cases isCatchAll

end Invalidation.Graph
